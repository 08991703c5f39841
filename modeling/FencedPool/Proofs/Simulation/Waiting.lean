import FencedPool.Proofs.Client.ReadBack
import FencedPool.Proofs.Scheduler.Records
import FencedPool.Proofs.Scheduler.Stopping
import FencedPool.Proofs.Simulation.Stock

/-!
# Waiting — a request among the nodes, and the pass that decides about it

The first session places its request in a store that has the nodes and nothing else, so the request
is created under the first number.  A pass of the scheduler looks at all that stands below the
request root.  If this is not the node root as well, it finds the request alone, decides about it
and records the decision, and the watch of the request is told.  Otherwise it comes upon a node,
whose record is no request, and fails; it fails as well on a request that has an empty label.

This file defines:

* `Store.Waiting` — a store in which the first session has placed a request among so many nodes;
* `Scheduler.decision` — what is decided about this request.

The main statements are `Client.request_waiting`, `Scheduler.runOnce_waiting` and
`Scheduler.runOnce_fails`.
-/

namespace FencedPool

open FencedPool.Path

namespace Store

variable {s : Store}

/-- Where nothing stands in the way, an entry is created under the next number. -/
theorem create_new (hs : s.Rooted) {stem parent : String} (hparent : parent? stem = some parent)
    (hentry : isEntryPath parent = true) (hfree : s.blocked? stem = none)
    (habsent : s.entries.get? (s.nextPath parent stem) = none) (data : Bytes)
    (owner : Option SessionId) :
    s.createSequential stem data owner =
      (.ok (s.nextPath parent stem), ((s.withParents (ancestors stem)).numbering parent).write
        (s.nextPath parent stem) ⟨data, owner⟩ (.created (s.nextPath parent stem))) := by
  have hmissing : ¬ s.entries.contains (s.nextPath parent stem) = true := by
    simp [Table.contains, habsent]
  rw [createSequential_eq hs hparent hentry, hfree]
  exact if_neg hmissing

theorem get?_creation (s : Store) (paths : List String) (parent path : String) (entry : Entry)
    (event : WatchEvent) (p : String) :
    (((s.withParents paths).numbering parent).write path entry event).entries.get? p =
      if p = path then some entry
      else (s.entries.get? p).or (if p ∈ paths then some { data := [] } else none) := by
  rw [get?_write]
  split
  · rfl
  · exact get?_withParents s paths p

/-- Whether nothing but a request and so many nodes is stored, apart from what stands above. -/
def Spans (c : Config) (count : Nat) (s : Store) : Prop :=
  ∀ p, s.entries.contains p = true → (p = c.requestAt 0 ∨ IsAbove p (c.requestAt 0)) ∨
    ∃ k, 1 ≤ k ∧ k ≤ count ∧ (p = c.nodeAt k ∨ IsAbove p (c.nodeAt k))

/-- The first session has placed a request among so many nodes of a label, and nothing is locked. -/
structure Waiting (c : Config) (label : String) (count : Nat) (record : Bytes) (s : Store) :
    Prop where
  sound : s.Sound
  consumer : s.isSessionOpen ⟨1⟩ = true
  opened : s.opened = 1
  unlocked : s.locks = .empty
  grants : s.grants = 0
  request : s.entries.get? (c.requestAt 0) = some ⟨record, some ⟨1⟩⟩
  nodes : ∀ k, 1 ≤ k → k ≤ count → s.entries.get? (c.nodeAt k) =
    some { data := (Scheduler.nodeRecord k label).encode }
  spans : s.Spans c count

variable {c : Client} {label : String} {count : Nat}

theorem Stocked.absent (h : Stocked c.config label count s) (number : Nat) :
    s.entries.get? (c.config.requestAt number) = none := by
  cases hentry : s.entries.get? (c.config.requestAt number) with
  | none => rfl
  | some entry =>
      rcases (h.only _ entry hentry).2 with ⟨k, -, -, hsame | habove⟩
      · exact absurd hsame (c.requestAt_ne_nodeAt number k)
      · exact absurd habove ((c.onLevel_requestAt number).not_isAbove (c.onLevel_nodeAt k))

/-- Among nodes a request can be created under the first number. -/
theorem Stocked.create (h : Stocked c.config label count s) (hs : s.Rooted)
    (hcounter : s.counter c.config.requestPath = 0) (record : Bytes) (id : SessionId) :
    let outcome := s.createSequential c.config.requestStem record (some id)
    outcome.1 = .ok (c.config.requestAt 0) ∧
      outcome.2.entries.get? (c.config.requestAt 0) = some ⟨record, some id⟩ ∧
      (∀ k, 1 ≤ k → k ≤ count → outcome.2.entries.get? (c.config.nodeAt k) =
        some { data := (Scheduler.nodeRecord k label).encode }) ∧
      outcome.2.Spans c.config count := by
  have hnext : s.nextPath c.config.requestPath c.config.requestStem = c.config.requestAt 0 :=
    congrArg (fun n => c.config.requestStem ++ Text.padded 10 sequenceDigits n) hcounter
  have hcreate := create_new hs c.parent?_requestStem c.isEntryPath_requestPath
    (blocked?_eq_none (fun p entry hp => (h.only p entry hp).1) _)
    (hnext ▸ h.absent 0) record (some id)
  have habove := (isEntryPath_nextPath (s := s) c.isEntryPath_requestPath c.parent?_requestStem).2
  rw [hnext] at hcreate habove
  intro outcome
  have houtcome : outcome = _ := hcreate
  rw [houtcome]
  refine ⟨rfl, ?_, fun k hlow hhigh => ?_, fun p hp => ?_⟩
  · rw [get?_creation, if_pos rfl]
  · rw [get?_creation, if_neg fun heq => c.requestAt_ne_nodeAt 0 k heq.symm, h.nodes k hlow hhigh]
    rfl
  · rcases contains_iff.1 hp with ⟨entry, hentry⟩
    rw [get?_creation] at hentry
    by_cases hrequest : p = c.config.requestAt 0
    · exact .inl (.inl hrequest)
    · rw [if_neg hrequest] at hentry
      cases hold : s.entries.get? p with
      | some old => exact .inr (h.only p old hold).2
      | none =>
          rw [hold, Option.none_or] at hentry
          split at hentry
          · next hparent => exact .inl (.inr ((habove p).2 (mem_ancestors_iff.1 hparent).1))
          · cases hentry

end Store

namespace Client

open Store Procedure

variable {c : Client} {label poolLabel consumerLabel : String} {count : Nat} {s : Store}
  {record : Bytes}

/-! ## Placing the request -/

theorem request_of_created {id : SessionId} {path identity : String}
    (hopen : s.isSessionOpen id = true)
    (hcreated : (s.createSequential c.config.requestStem
      (NodeRequest.new poolLabel consumerLabel).encode (some id)).1 = .ok path)
    (hidentity : identity? path = some identity) :
    ((c.request poolLabel consumerLabel).run (.plain id) s).answer =
      .ok ((NodeRequest.new poolLabel consumerLabel).placed path identity) := by
  unfold request
  rw [answer_note_bind, answer_ask_bind, Session.plain_perform_of_open hopen]
  simp only [Session.answer]
  rw [hcreated]
  dsimp only
  rw [hidentity]
  rfl

/-- An open session places a request among the nodes. -/
theorem request_among_nodes (hs : s.Sound) (hstock : Stocked c.config label count s)
    (hcounter : s.counter c.config.requestPath = 0) (hopen : s.isSessionOpen ⟨1⟩ = true)
    (hopened : s.opened = 1) (hlocks : s.locks = .empty) (hgrants : s.grants = 0)
    (poolLabel consumerLabel : String) :
    let reply := (c.request poolLabel consumerLabel).run (.plain ⟨1⟩) s
    reply.answer = .ok ((NodeRequest.new poolLabel consumerLabel).placed (c.config.requestAt 0)
        (Config.identityAt 0)) ∧
      Waiting c.config label count (NodeRequest.new poolLabel consumerLabel).encode
        reply.state := by
  intro reply
  rcases hstock.create hs.entries.rooted hcounter
    (NodeRequest.new poolLabel consumerLabel).encode ⟨1⟩ with ⟨hcreated, hrequest, hnodes, hspans⟩
  have hchange := s.createSequential_change c.config.requestStem
    (NodeRequest.new poolLabel consumerLabel).encode (some ⟨1⟩)
  have hanswer := request_of_created hopen hcreated (c.config.identity?_requestAt 0)
  have hkept := hs.run ⟨1⟩ (c.request poolLabel consumerLabel)
  rcases request_created hanswer with ⟨-, -, -, -, -, hstate⟩
  rw [← hstate] at hrequest hnodes hspans hchange
  exact ⟨hanswer, {
    sound := hkept
    consumer := (hchange.isSessionOpen _).trans hopen
    opened := hchange.opened.trans hopened
    unlocked := hchange.locks.trans hlocks
    grants := hchange.grants.trans hgrants
    request := hrequest
    nodes := hnodes
    spans := hspans }⟩

/-- The first session that is opened after provisioning places a request. -/
theorem request_waiting (h : Provisioned c.config label count s) (now : Instant)
    (timeout : Duration) (poolLabel consumerLabel : String) :
    let opened := s.openSession now timeout
    let reply := (c.request poolLabel consumerLabel).run (.plain opened.1) opened.2
    opened.1 = ⟨1⟩ ∧
      reply.answer = .ok ((NodeRequest.new poolLabel consumerLabel).placed (c.config.requestAt 0)
        (Config.identityAt 0)) ∧
      Waiting c.config label count (NodeRequest.new poolLabel consumerLabel).encode
        reply.state := by
  intro opened
  have hnumber : opened.1 = ⟨1⟩ := by
    change SessionId.mk (s.opened + 1) = _
    rw [h.change.opened]
  have hopen : opened.2.isSessionOpen ⟨1⟩ = true :=
    (isSessionOpen_insert rfl ⟨1⟩).2 (.inl hnumber.symm)
  have hsound : opened.2.Sound := Sound.act (s := ⟨s, ⟨now⟩, timeout⟩) h.sound .openSession
  have hstock : Stocked c.config label count opened.2 := ⟨h.stocked.nodes, h.stocked.only⟩
  have hcounter : opened.2.counter c.config.requestPath = 0 := by
    change (s.sequences.get? _).getD 0 = 0
    rw [h.sequences]
    rfl
  rw [hnumber]
  exact ⟨rfl, request_among_nodes hsound hstock hcounter hopen
    (congrArg (· + 1) h.change.opened) h.change.locks h.change.grants poolLabel consumerLabel⟩

/-! ## Watching it -/

theorem watchRequest_run {id : SessionId} {r : NodeRequest} {path : String}
    (hopen : s.isSessionOpen id = true) (hplaced : r.path = some path)
    (hpath : isEntryPath path = true) :
    ((watchRequest r).run (.plain id) s).answer = .ok s.watches.length ∧
      ((watchRequest r).run (.plain id) s).state =
        { s with watches := s.watches ++ [{ path := path }] } := by
  have hwatch : s.watch path =
      (.ok s.watches.length, { s with watches := s.watches ++ [{ path := path }] }) := if_pos hpath
  unfold watchRequest
  rw [hplaced]
  dsimp only
  rw [run_ask_bind, Session.plain_perform_of_open hopen]
  simp only [Session.answer]
  rw [hwatch]
  exact ⟨rfl, rfl⟩

end Client

/-! ## Deciding about it -/

namespace Store

variable {c : Client} {label : String} {count : Nat} {s : Store} {record : Bytes}

theorem Waiting.watches (h : Waiting c.config label count record s) (watches : List Watch)
    (hsound : { s with watches := watches }.Sound) :
    Waiting c.config label count record { s with watches := watches } :=
  ⟨hsound, h.consumer, h.opened, h.unlocked, h.grants, h.request, h.nodes, h.spans⟩

theorem Waiting.poll (h : Waiting c.config label count record s) (i : WatchId) :
    Waiting c.config label count record (s.poll i).2 :=
  h.watches _ (Sound.act (s := ⟨s, {}, .halfMinute⟩) h.sound (.poll i))

/-- A watch that has been told of a change is not pending any more. -/
theorem poll_notified {older : List Watch} {event : WatchEvent}
    (hwatches : s.watches = (older ++ [Watch.mk event.path .pending]).map (Watch.notify · event)) :
    (s.poll older.length).1 = some (.resolved event) := by
  have hlast : s.watches[older.length]? = some ⟨event.path, .resolved event⟩ := by
    rw [hwatches, List.getElem?_map, List.getElem?_concat_length, Option.map_some]
    exact congrArg some (if_pos ⟨rfl, rfl⟩)
  unfold poll
  rw [hlast]
  rfl

/-- Below a request root of its own, the request is found alone. -/
theorem Waiting.children (h : Waiting c.config label count record s)
    (hroots : count = 0 ∨ c.config.requestRoot ≠ c.config.nodeRoot) :
    s.children c.config.requestPath = [c.config.requestAt 0] := by
  have hmem : ∀ p, p ∈ s.children c.config.requestPath ↔ p = c.config.requestAt 0 := by
    intro p
    rw [mem_children_iff]
    constructor
    · rintro ⟨hpresent, hchild⟩
      rcases h.spans p hpresent with (hsame | habove) | ⟨k, hlow, hhigh, rfl | habove⟩
      · exact hsame
      · exact absurd hchild (by simp [(c.onLevel_requestAt 0).not_isChild_above habove])
      · have hsame := (c.isChild_nodeAt_iff k).1 hchild
        rcases hroots with hnone | hdifferent
        · omega
        · exact absurd hsame hdifferent
      · exact absurd hchild (by simp [(c.onLevel_nodeAt k).not_isChild_above habove])
    · rintro rfl
      exact ⟨contains_iff.2 ⟨_, h.request⟩, c.isChild_requestAt 0⟩
  refine List.perm_singleton.1 ((List.perm_ext_iff_of_nodup (s.nodup_children _)
    (List.nodup_singleton _)).2 fun p => ?_)
  rw [hmem, List.mem_singleton]

theorem Waiting.get?_request (h : Waiting c.config label count record s) :
    s.get? (c.config.requestAt 0) = some record := by
  unfold get?
  rw [if_pos (c.isEntryPath_requestAt 0), h.request]
  rfl

theorem Waiting.get?_node (h : Waiting c.config label count record s) {k : Nat} (hlow : 1 ≤ k)
    (hhigh : k ≤ count) :
    s.get? (c.config.nodeAt k) = some (Scheduler.nodeRecord k label).encode := by
  unfold get?
  rw [if_pos (c.isEntryPath_nodeAt k), h.nodes k hlow hhigh, Option.map_some]

/-- The request is overwritten, and its watches are told. -/
theorem Waiting.setData (h : Waiting c.config label count record s) (later : Bytes) :
    let after := (s.setData (c.config.requestAt 0) later).2
    Waiting c.config label count later after ∧
      after.watches = s.watches.map (·.notify (.dataChanged (c.config.requestAt 0))) := by
  have hsound : ((⟨s, {}, .halfMinute⟩ : Service).act
    (.setData (c.config.requestAt 0) later)).store.Sound := Sound.act h.sound _
  have hset : s.setData (c.config.requestAt 0) later =
      (.ok (), s.write (c.config.requestAt 0) ⟨later, some ⟨1⟩⟩
        (.dataChanged (c.config.requestAt 0))) := by
    unfold Store.setData checkingPath
    rw [if_pos (c.isEntryPath_requestAt 0), h.request]
  change (s.setData (c.config.requestAt 0) later).2.Sound at hsound
  rw [hset] at hsound ⊢
  refine ⟨⟨hsound, h.consumer, h.opened, h.unlocked, h.grants, ?_, fun k hlow hhigh => ?_,
    fun p hp => ?_⟩, rfl⟩
  · rw [get?_write, if_pos rfl]
  · rw [get?_write, if_neg fun heq => c.requestAt_ne_nodeAt 0 k heq.symm]
    exact h.nodes k hlow hhigh
  · rcases contains_iff.1 hp with ⟨entry, hentry⟩
    rw [get?_write] at hentry
    split at hentry
    · next hsame => exact .inl (.inl hsame)
    · exact h.spans p (contains_iff.2 ⟨entry, hentry⟩)

end Store

namespace Scheduler

open Store

variable {c : Client} {label : String} {count : Nat} {s : Store} {sched : Scheduler}
  {poolLabel consumerLabel : String}

/-- A request for all nodes gets them, unless there are none. -/
theorem grant?_idsFrom (count : Nat) :
    grant? count (idsFrom 1 count) = if count = 0 then none else some (idsFrom 1 count) := by
  unfold grant?
  rw [length_idsFrom]
  by_cases hnone : count = 0
  · rw [if_pos (.inl hnone), if_pos hnone]
  · rw [if_neg (by omega), if_neg hnone,
      List.take_of_length_le (Nat.le_of_eq (length_idsFrom 1 count))]

/-- The request as the scheduler decides about it. -/
def decision (c : Config) (poolLabel consumerLabel : String) (count : Nat) : Decision where
  path := c.requestAt 0
  request := { NodeRequest.new poolLabel consumerLabel with path := some (c.requestAt 0) }
  nodes? := if count = 0 then none else some (idsFrom 1 count)

theorem noneEmpty_of_readyNodes (hready : ∀ other,
    sched.readyNodes other = if poolLabel = other then idsFrom 1 count else []) :
    NoneEmpty sched.ready := by
  intro other hmem
  change "" ∈ sched.readyNodes other at hmem
  rw [hready] at hmem
  split at hmem
  · rcases List.mem_map.1 hmem with ⟨k, -, hempty⟩
    exact nodeId_ne_empty k hempty
  · cases hmem

/-- A pass decides about the request and nothing else. -/
theorem passPlan_waiting
    (h : Waiting c.config poolLabel count (NodeRequest.new poolLabel consumerLabel).encode s)
    (hroots : count = 0 ∨ c.config.requestRoot ≠ c.config.nodeRoot)
    (hlabels : poolLabel ≠ "" ∧ consumerLabel ≠ "")
    (hroot : sched.requestRoot = c.config.requestPath)
    (hready : sched.readyNodes poolLabel = idsFrom 1 count) :
    sched.passPlan s count =
      { decisions := [decision c.config poolLabel consumerLabel count]
        ready := takeNodes sched.ready poolLabel
          (decision c.config poolLabel consumerLabel count).nodes? } := by
  have hrequest : s.request? (c.config.requestAt 0) =
      some (.ok (decision c.config poolLabel consumerLabel count).request) := by
    have hpart : (NodeRequest.new poolLabel consumerLabel).emptyPart? = none :=
      NodeRequest.new_emptyPart?_eq_none_iff.2 hlabels
    unfold request?
    rw [h.get?_request, Option.map_some, NodeRequest.decode_encode hpart]
    rfl
  have hlabel : (decision c.config poolLabel consumerLabel count).request.poolLabel = poolLabel :=
    rfl
  have hgrant : grant? count ((sched.ready.get? poolLabel).getD []) =
      (decision c.config poolLabel consumerLabel count).nodes? := by
    have hstock : (sched.ready.get? poolLabel).getD [] = idsFrom 1 count := hready
    rw [hstock]
    exact grant?_idsFrom count
  unfold passPlan
  rw [hroot, h.children hroots, plan_new [] sched.ready hrequest rfl, hlabel, hgrant]
  rfl

/-- A pass decides about the request, records this and tells the watches. -/
theorem runOnce_waiting
    (h : Waiting c.config poolLabel count (NodeRequest.new poolLabel consumerLabel).encode s)
    (hroots : count = 0 ∨ c.config.requestRoot ≠ c.config.nodeRoot)
    (hlabels : poolLabel ≠ "" ∧ consumerLabel ≠ "")
    (hroot : sched.requestRoot = c.config.requestPath)
    (hready : ∀ other, sched.readyNodes other = if poolLabel = other then idsFrom 1 count else []) :
    let reply := sched.runOnce s count
    let record := (decision c.config poolLabel consumerLabel count).record
    reply.answer = .ok [c.config.requestAt 0] ∧
      reply.state.2.request? (c.config.requestAt 0) = some (.ok record) ∧
      Waiting c.config poolLabel count record.encode reply.state.2 ∧
      reply.state.2.watches = s.watches.map (·.notify (.dataChanged (c.config.requestAt 0))) := by
  have hplan := passPlan_waiting h hroots hlabels hroot ((hready poolLabel).trans (if_pos rfl))
  have hdecided : decision c.config poolLabel consumerLabel count ∈
      (sched.passPlan s count).decisions := by
    rw [hplan]
    exact List.mem_singleton_self _
  have hrecorded := sched.request?_of_decided (noneEmpty_of_readyNodes hready) hdecided
  have hrun := sched.runOnce_eq s count
  rw [hplan] at hrun
  have hstate : (sched.runOnce s count).state.2 =
      (s.setData (c.config.requestAt 0)
        (decision c.config poolLabel consumerLabel count).record.encode).2 := by
    rw [hrun]
    rfl
  rcases h.setData (decision c.config poolLabel consumerLabel count).record.encode with
    ⟨hlater, hwatches⟩
  rw [← hstate] at hlater hwatches
  exact ⟨congrArg Reply.answer hrun, hrecorded, hlater, hwatches⟩

/-! ## Records that stop the pass -/

/-- A record that is refused stops the pass. -/
theorem exists_fault (perRequest : Nat) {paths : List String} {path : String} (hpath : path ∈ paths)
    {e : MalformedRecord} (hrefused : s.request? path = some (.error e))
    (ready : Table String (List String)) :
    ∃ e, (plan perRequest s paths ready).fault? = some e := by
  induction paths generalizing ready with
  | nil => cases hpath
  | cons first rest ih =>
      rcases plan_cases first rest ready with
        ⟨hold, hplan⟩ | ⟨e, -, hplan⟩ | ⟨r, hrequest, -, hplan⟩
      · rw [hplan]
        rcases List.mem_cons.1 hpath with rfl | hlater
        · rcases hold _ hrefused with ⟨_, ⟨⟩, -⟩
        · exact ih hlater _
      · exact ⟨e, congrArg Plan.fault? hplan⟩
      · rw [hplan]
        rcases List.mem_cons.1 hpath with rfl | hlater
        · rw [hrequest] at hrefused
          cases hrefused
        · exact ih hlater _

/-- A pass fails where a label is empty, and where it comes upon a node. -/
theorem runOnce_fails
    (h : Waiting c.config poolLabel count (NodeRequest.new poolLabel consumerLabel).encode s)
    (hroot : sched.requestRoot = c.config.requestPath)
    (hfails : (poolLabel = "" ∨ consumerLabel = "") ∨
      0 < count ∧ c.config.requestRoot = c.config.nodeRoot) :
    ∃ e, (sched.runOnce s count).answer = .error e := by
  have hrefused : ∃ path ∈ s.children sched.requestRoot, ∃ e,
      s.request? path = some (.error e) := by
    rw [hroot]
    rcases hfails with hempty | ⟨hsome, hsame⟩
    · have hchild : c.config.requestAt 0 ∈ s.children c.config.requestPath :=
        mem_children_iff.2 ⟨contains_iff.2 ⟨_, h.request⟩, c.isChild_requestAt 0⟩
      refine ⟨c.config.requestAt 0, hchild, ?_⟩
      unfold request?
      rw [h.get?_request, Option.map_some]
      cases hpart : (NodeRequest.new poolLabel consumerLabel).emptyPart? with
      | none =>
          rcases NodeRequest.new_emptyPart?_eq_none_iff.1 hpart with ⟨hpool, hconsumer⟩
          rcases hempty with hempty | hempty
          · exact absurd hempty hpool
          · exact absurd hempty hconsumer
      | some reason => exact ⟨_, congrArg some (NodeRequest.decode_encode_of_emptyPart? hpart _)⟩
    · have hchild : c.config.nodeAt 1 ∈ s.children c.config.requestPath :=
        mem_children_iff.2 ⟨contains_iff.2 ⟨_, h.nodes 1 (Nat.le_refl 1) hsome⟩,
          (c.isChild_nodeAt_iff 1).2 hsame⟩
      refine ⟨c.config.nodeAt 1, hchild, ?_⟩
      unfold request?
      rw [h.get?_node (Nat.le_refl 1) hsome, Option.map_some]
      rcases exists_refused_nodeRecord 1 poolLabel (c.config.nodeAt 1) with ⟨e, he⟩
      exact ⟨e, congrArg some he⟩
  rcases hrefused with ⟨path, hpath, e, hrefused⟩
  rcases exists_fault count hpath hrefused sched.ready with ⟨e, hfault⟩
  refine ⟨.malformedRecord e, ?_⟩
  rw [runOnce_eq]
  exact Plan.answer_carriedOut hfault sched s

end Scheduler

namespace Client

open Store Procedure

variable {s : Store} {id : SessionId} {r : NodeRequest} {path identity : String}

/-! ## Reading it again -/

theorem refresh_state (hopen : s.isSessionOpen id = true) (hplaced : r.path = some path)
    (hidentity : identity? path = some identity) :
    ((refresh r).run (.plain id) s).state = s := by
  unfold refresh
  rw [hplaced]
  dsimp only
  rw [hidentity]
  dsimp only
  rw [run_ask_bind, Session.plain_perform_of_open hopen]
  simp only [Session.answer]
  cases s.read path with
  | error e => rfl
  | ok data =>
      dsimp only
      cases NodeRequest.decode path data with
      | error e => rfl
      | ok record => rfl

/-- The request comes back as it is recorded. -/
theorem refresh_recorded (hopen : s.isSessionOpen id = true) (hplaced : r.path = some path)
    (hidentity : identity? path = some identity) {record : NodeRequest}
    (hrecord : s.request? path = some (.ok record)) :
    ((refresh r).run (.plain id) s).answer = .ok (record.placed path identity) := by
  rcases Option.map_eq_some_iff.1 hrecord with ⟨data, hdata, hdecode⟩
  have hread : s.read path = .ok data := by
    unfold get? at hdata
    unfold Store.read
    split at hdata
    · next hpath =>
        rcases Option.map_eq_some_iff.1 hdata with ⟨entry, hentry, rfl⟩
        rw [if_pos hpath, hentry]
    · cases hdata
  rw [refresh_answer hopen hplaced hidentity, hread]
  dsimp only
  rw [hdecode]

end Client

end FencedPool
