import FencedPool.Proofs.Scheduler.Stopping
import FencedPool.Proofs.Store.LockSteps
import FencedPool.Proofs.Store.Numbering

/-!
# Serving — what one pass does, request by request

Where every record below the request root can be read, a pass decides about each request that is
new, in the order in which they are listed.  What a request gets depends on the requests before it
that are for the same label, however the labels are mixed: each of them has taken its nodes from the
front of the ready list, or has failed and left the list alone.  After the pass no request is new,
so another one has nothing to do.

This file defines:

* `Store.newRequests` and `Scheduler.found` — the requests that are new;
* `Scheduler.leftAfter` — the ready nodes of a label that requests leave to the next one;
* `NodeRequest.served` — a request as it is recorded;
* `Scheduler.ServesExactly` — all that a pass does and all that it leaves alone.

The main statement is `serves_exactly`; `ServesExactly.request?_eq` says in closed form which nodes
a request has received.
-/

namespace FencedPool

/-- The new requests among those at given paths. -/
def Store.newRequests (s : Store) (paths : List String) : List (String × NodeRequest) :=
  paths.filterMap fun path =>
    match s.request? path with
    | some (.ok r) => if r.state = .requested then some (path, r) else none
    | _ => none

/-- A new request as it is recorded when given nodes are ready for it: it receives the first of
them, or it has failed and keeps the list that it was read with. -/
def NodeRequest.served (r : NodeRequest) (perRequest : Nat) (ids : List String) : NodeRequest :=
  if 0 < perRequest ∧ perRequest ≤ ids.length then
    { r with allocatedNodes := ids.take perRequest, state := .fulfilled }
  else { r with state := .failed }

namespace Scheduler

/-- The nodes that so many requests leave, one after the other. -/
def leftAfter (perRequest : Nat) : Nat → List String → List String
  | 0, ids => ids
  | count + 1, ids => leftAfter perRequest count (left perRequest ids)

variable {perRequest : Nat} {store : Store} {paths : List String}
  {ready : Table String (List String)} {s : Scheduler}

/-! ## Which requests are decided about -/

/-- Where every record can be read, all new requests are decided about, in order. -/
theorem decisions_plan (hdecodes : ∀ q ∈ paths, ∃ r, store.request? q = some (.ok r))
    (ready : Table String (List String)) :
    (plan perRequest store paths ready).fault? = none ∧
      (plan perRequest store paths ready).decisions.map (fun d => (d.path, d.request)) =
        store.newRequests paths := by
  induction paths generalizing ready with
  | nil => exact ⟨rfl, rfl⟩
  | cons path rest ih =>
      rcases List.forall_mem_cons.1 hdecodes with ⟨⟨r, hrequest⟩, hrest⟩
      unfold Store.newRequests at ih ⊢
      rcases plan_cases path rest ready with ⟨hold, hplan⟩ | ⟨e, hrefused, -⟩ |
        ⟨r', hnew, hstate, hplan⟩
      · rcases hold _ hrequest with ⟨_, ⟨⟩, hstate⟩
        rw [hplan, List.filterMap_cons_none (by simp [hrequest, hstate])]
        exact ih hrest ready
      · rw [hrequest] at hrefused
        cases hrefused
      · rw [hplan, List.filterMap_cons_some (b := (path, r')) (by simp [hnew, hstate])]
        rcases ih hrest (takeNodes ready r'.poolLabel
          (grant? perRequest ((ready.get? r'.poolLabel).getD []))) with ⟨hfault, hlater⟩
        exact ⟨hfault, congrArg (_ :: ·) hlater⟩

/-! ## What a request gets -/

theorem record_grant? (path : String) (r : NodeRequest) (ids : List String) :
    Decision.record ⟨path, r, grant? perRequest ids⟩ = r.served perRequest ids := by
  rw [grant?_eq]
  unfold NodeRequest.served
  split
  · rfl
  · rfl

/-- What requests leave of a label when one request has been decided about before them. -/
theorem leftAfter_takeNodes (ready : Table String (List String)) (label other : String)
    (count : Nat) :
    leftAfter perRequest count
        (stock (takeNodes ready label (grant? perRequest (stock ready label))) other) =
      leftAfter perRequest (count + if label = other then 1 else 0) (stock ready other) := by
  rw [stock_takeNodes]
  split
  · rfl
  · rfl

/-- A request gets the first nodes that the requests before it for its label have left. -/
theorem nodes?_of_plan {earlier later : List Decision} {d : Decision}
    (h : (plan perRequest store paths ready).decisions = earlier ++ d :: later) :
    d.nodes? = grant? perRequest
      (leftAfter perRequest (earlier.countP (·.request.poolLabel = d.request.poolLabel))
        (stock ready d.request.poolLabel)) := by
  induction paths generalizing ready earlier with
  | nil => cases earlier <;> cases h
  | cons path rest ih =>
      rcases plan_cases path rest ready with ⟨-, hplan⟩ | ⟨e, -, hplan⟩ | ⟨r, -, -, hplan⟩
      · exact ih (hplan ▸ h)
      · rw [hplan] at h
        cases earlier <;> cases h
      · rw [hplan] at h
        cases earlier with
        | nil =>
            cases h
            rfl
        | cons first earlier =>
            rcases List.cons_eq_cons.1 h with ⟨rfl, hlater⟩
            -- the first decision has taken its nodes when the others are made
            refine (ih hlater).trans (congrArg (grant? perRequest) ?_)
            refine (leftAfter_takeNodes ready r.poolLabel _ _).trans ?_
            simp only [List.countP_cons, decide_eq_true_eq]

/-- What is ready after a plan is what its decisions leave. -/
theorem stock_plan (paths : List String) (ready : Table String (List String)) (label : String) :
    stock (plan perRequest store paths ready).ready label =
      leftAfter perRequest ((plan perRequest store paths ready).decisions.countP
        (·.request.poolLabel = label)) (stock ready label) := by
  induction paths generalizing ready with
  | nil => rfl
  | cons path rest ih =>
      rcases plan_cases path rest ready with ⟨-, hplan⟩ | ⟨e, -, hplan⟩ | ⟨r, -, -, hplan⟩
      · rw [hplan]
        exact ih ready
      · rw [hplan]
        rfl
      · rw [hplan]
        refine (ih _).trans ((leftAfter_takeNodes ready r.poolLabel label _).trans ?_)
        simp only [List.countP_cons, decide_eq_true_eq]

/-- Behind so many requests for its label, a request receives the nodes that stand behind theirs, if
there are enough for all of them. -/
theorem served_leftAfter (r : NodeRequest) (perRequest count : Nat) (ids : List String) :
    r.served perRequest (leftAfter perRequest count ids) =
      if 0 < perRequest ∧ perRequest * (count + 1) ≤ ids.length then
        { r with
          allocatedNodes := (ids.drop (perRequest * count)).take perRequest
          state := .fulfilled }
      else { r with state := .failed } := by
  induction count generalizing ids with
  | zero =>
      unfold leftAfter NodeRequest.served
      refine if_congr ?_ ?_ rfl
      · rw [Nat.zero_add, Nat.mul_one]
      · rw [Nat.mul_zero, List.drop_zero]
  | succ count ih =>
      have hmore : perRequest * (count + 1 + 1) = perRequest * (count + 1) + perRequest :=
        Nat.mul_succ _ _
      unfold leftAfter
      rw [ih]
      unfold left
      split
      · next henough =>
          -- the first request takes its nodes, and one fewer is served from the rest
          refine if_congr ?_ ?_ rfl
          · rw [List.length_drop]
            omega
          · rw [List.drop_drop, Nat.mul_succ, Nat.add_comm]
      · next hfew =>
          -- what is too little for one request is too little for all
          have hle : perRequest ≤ perRequest * (count + 1) :=
            Nat.le_mul_of_pos_right _ (Nat.succ_pos _)
          rw [if_neg (by omega), if_neg (by omega)]

/-! ## Passes that have nothing to do -/

/-- Where no record is refused or new, there is nothing to decide. -/
theorem plan_of_no_new (hold : ∀ q ∈ paths, ∀ outcome, store.request? q = some outcome →
    ∃ r, outcome = .ok r ∧ r.state ≠ .requested) (ready : Table String (List String)) :
    plan perRequest store paths ready = { ready := ready } := by
  induction paths with
  | nil => rfl
  | cons path rest ih =>
      rcases List.forall_mem_cons.1 hold with ⟨hpath, hrest⟩
      rcases plan_cases path rest ready with ⟨-, hplan⟩ | ⟨e, hrefused, -⟩ |
        ⟨r, hnew, hstate, -⟩
      · exact hplan.trans (ih hrest)
      · rcases hpath _ hrefused with ⟨_, ⟨⟩, -⟩
      · rcases hpath _ hnew with ⟨_, ⟨⟩, hnot⟩
        exact absurd hstate hnot

/-- A pass that finds no record that is refused or new changes nothing. -/
theorem runOnce_of_no_new (hold : ∀ q ∈ store.children s.requestRoot, ∀ outcome,
    store.request? q = some outcome → ∃ r, outcome = .ok r ∧ r.state ≠ .requested)
    (perRequest : Nat) :
    s.runOnce store perRequest = { answer := .ok [], state := (s, store) } := by
  rw [runOnce_eq, passPlan, plan_of_no_new hold]
  rfl

/-! ## What a pass finds -/

/-- The new requests that a pass finds, in the order in which they are listed. -/
def found (s : Scheduler) (store : Store) : List (String × NodeRequest) :=
  store.newRequests (store.children s.requestRoot)

section Readable

variable (hdecodes : ∀ path ∈ store.children s.requestRoot, ∃ r, store.request? path = some (.ok r))

include hdecodes

/-- What is decided about are the requests that are found. -/
theorem decisions_passPlan (perRequest : Nat) :
    (s.passPlan store perRequest).decisions.map (fun d => (d.path, d.request)) = s.found store :=
  (decisions_plan hdecodes s.ready).2

theorem paths_passPlan (perRequest : Nat) :
    (s.passPlan store perRequest).decisions.map (·.path) = (s.found store).map (·.1) := by
  rw [← decisions_passPlan hdecodes perRequest, List.map_map]
  rfl

theorem countP_passPlan (perRequest : Nat) (label : String) :
    (s.passPlan store perRequest).decisions.countP (·.request.poolLabel = label) =
      (s.found store).countP (·.2.poolLabel = label) := by
  rw [← decisions_passPlan hdecodes perRequest, List.countP_map]
  rfl

/-- A request that is found is served from what those before it for its label have left. -/
theorem record_of_found {earlier later : List (String × NodeRequest)} {path : String}
    {r : NodeRequest} (h : s.found store = earlier ++ (path, r) :: later) :
    ∃ d ∈ (s.passPlan store perRequest).decisions, d.path = path ∧
      d.record = r.served perRequest
        (leftAfter perRequest (earlier.countP (·.2.poolLabel = r.poolLabel))
          (s.readyNodes r.poolLabel)) := by
  rw [← decisions_passPlan hdecodes perRequest] at h
  rcases List.map_eq_append_iff.1 h with ⟨before, rest, hdecisions, rfl, hrest⟩
  rcases List.map_eq_cons_iff.1 hrest with ⟨d, after, rfl, hd, -⟩
  cases hd
  have hnodes := nodes?_of_plan hdecisions
  refine ⟨d, ?_, rfl, ?_⟩
  · rw [hdecisions]
    exact List.mem_append_right _ List.mem_cons_self
  · rw [List.countP_map, ← record_grant? d.path]
    exact congrArg (fun nodes? => Decision.record ⟨d.path, d.request, nodes?⟩) hnodes

/-- After a pass that could read every record, no record is refused or new. -/
theorem none_new_after (hs : NoneEmpty s.ready) {q : String}
    (hq : q ∈ (s.runOnce store perRequest).state.2.children s.requestRoot)
    {outcome : Except MalformedRecord NodeRequest}
    (houtcome : (s.runOnce store perRequest).state.2.request? q = some outcome) :
    ∃ r, outcome = .ok r ∧ r.state ≠ .requested := by
  by_cases hdecided : q ∈ (s.passPlan store perRequest).decisions.map (·.path)
  · rcases List.mem_map.1 hdecided with ⟨d, hd, rfl⟩
    rw [s.request?_of_decided hs hd] at houtcome
    cases houtcome
    refine ⟨d.record, rfl, ?_⟩
    -- either way the request is not new any more
    rcases d.record_cases with ⟨hstate, -⟩ | ⟨hstate, -⟩
    · rw [hstate]
      nofun
    · rw [hstate]
      nofun
  · have hsame : store.request? q = some outcome :=
      (congrArg (Option.map (NodeRequest.decode q)) (s.get?_of_not_decided hdecided)).symm.trans
        houtcome
    -- no pass creates an entry
    have hchild : q ∈ store.children s.requestRoot := by
      rw [Store.mem_children_iff, Store.contains_iff] at hq ⊢
      rwa [s.entry_of_not_decided hdecided] at hq
    rcases hdecodes q hchild with ⟨r, hrequest⟩
    rw [hsame] at hrequest
    cases hrequest
    refine ⟨r, rfl, fun hstate => hdecided ?_⟩
    rcases mem_plan_of_request? (decisions_plan hdecodes s.ready).1 hchild hsame hstate with
      ⟨d, hd, hpath⟩
    exact List.mem_map.2 ⟨d, hd, hpath⟩

end Readable

/-! ## All that a pass does -/

/-- All that a pass does, and all that it leaves alone. -/
structure ServesExactly (s : Scheduler) (store : Store) (perRequest : Nat)
    (pass : Reply (Scheduler × Store) (Except SchedulerError (List String))) : Prop where
  answer : pass.answer = .ok ((s.found store).map (·.1))
  /-- a request is served from what those before it for its label have left -/
  served : ∀ earlier path r later, s.found store = earlier ++ (path, r) :: later →
    let ids := leftAfter perRequest (earlier.countP (·.2.poolLabel = r.poolLabel))
      (s.readyNodes r.poolLabel)
    pass.state.2.request? path = some (.ok (r.served perRequest ids)) ∧
      ∃ entry, store.entries.get? path = some entry ∧
        pass.state.2.entries.get? path =
          some { entry with data := (r.served perRequest ids).encode }
  ready : ∀ label, pass.state.1.readyNodes label =
    leftAfter perRequest ((s.found store).countP (·.2.poolLabel = label)) (s.readyNodes label)
  scheduler : pass.state.1 = { s with ready := pass.state.1.ready }
  others : ∀ path, path ∉ (s.found store).map (·.1) →
    pass.state.2.entries.get? path = store.entries.get? path
  sequences : pass.state.2.sequences = store.sequences
  /-- locks and sessions stay as they are -/
  change : EntryChange store pass.state.2
  /-- another pass, for any number of nodes, finds nothing to do -/
  again : ∀ number, pass.state.1.runOnce pass.state.2 number =
    { answer := .ok [], state := pass.state }

/-- What has been decided is recorded in an entry that keeps its owner. -/
theorem entry_of_decided {d : Decision} (hd : d ∈ (s.passPlan store perRequest).decisions) :
    ∃ entry, store.entries.get? d.path = some entry ∧
      (s.runOnce store perRequest).state.2.entries.get? d.path =
        some { entry with data := d.record.encode } := by
  rw [runOnce_eq]
  exact get?_carryOut_of_mem (s.nodup_passPlan store perRequest) hd (request?_of_mem_plan hd).1

end Scheduler

/-- Where every record below the request root can be read, a pass handles just the requests that
are new, each with the nodes that those before it for its label have left, and does nothing else. -/
theorem serves_exactly {s : Scheduler} (hs : s.Reachable) (store : Store)
    (hdecodes : ∀ path ∈ store.children s.requestRoot, ∃ r, store.request? path = some (.ok r))
    (perRequest : Nat) : s.ServesExactly store perRequest (s.runOnce store perRequest) := by
  have hrun := s.runOnce_eq store perRequest
  have hfault : (s.passPlan store perRequest).fault? = none :=
    (Scheduler.decisions_plan hdecodes s.ready).1
  constructor
  case answer =>
    rw [hrun, Plan.answer_carriedOut_of_none hfault, Scheduler.paths_passPlan hdecodes perRequest]
  case served =>
    intro earlier path r later hfound
    rcases Scheduler.record_of_found hdecodes hfound with ⟨d, hd, rfl, hrecord⟩
    dsimp only
    rw [← hrecord]
    -- no ready node has an empty id, so the record can be read again
    exact ⟨s.request?_of_decided hs.noneEmpty hd, Scheduler.entry_of_decided hd⟩
  case ready =>
    intro label
    rw [← Scheduler.countP_passPlan hdecodes perRequest, hrun]
    exact Scheduler.stock_plan _ s.ready label
  case scheduler =>
    rw [hrun]
    rfl
  case others =>
    intro path hpath
    rw [← Scheduler.paths_passPlan hdecodes perRequest] at hpath
    exact s.entry_of_not_decided hpath
  case sequences => exact Service.runOnce_sequences store s perRequest
  case change => exact Service.runOnce_change store s perRequest
  case again =>
    intro number
    refine Scheduler.runOnce_of_no_new ?_ number
    have hroot : (s.runOnce store perRequest).state.1.requestRoot = s.requestRoot := by
      rw [hrun]
      rfl
    rw [hroot]
    exact fun q hq outcome => Scheduler.none_new_after hdecodes hs.noneEmpty hq

/-- Of the requests for one label, as many are fulfilled as there are nodes for, and each of them
has received the nodes behind those of the earlier ones. -/
theorem Scheduler.ServesExactly.request?_eq {s : Scheduler} {store : Store} {perRequest : Nat}
    {pass : Reply (Scheduler × Store) (Except SchedulerError (List String))}
    (h : s.ServesExactly store perRequest pass) {earlier later : List (String × NodeRequest)}
    {path : String} {r : NodeRequest} (hfound : s.found store = earlier ++ (path, r) :: later) :
    let count := earlier.countP (·.2.poolLabel = r.poolLabel)
    pass.state.2.request? path = some (.ok
      (if 0 < perRequest ∧ perRequest * (count + 1) ≤ s.readyCount r.poolLabel then
        { r with
          allocatedNodes := ((s.readyNodes r.poolLabel).drop (perRequest * count)).take perRequest
          state := .fulfilled }
      else { r with state := .failed })) := by
  intro count
  rw [(h.served earlier path r later hfound).1, served_leftAfter]
  rfl

/-- Two requests for a label that has two ready nodes, and between them one for a label without. -/
def SchedulingStep.interleaved : List SchedulingStep :=
  let place (label : String) : SchedulingStep :=
    .act (.call ⟨1⟩ (.create "/nodepool/requests/100-" (NodeRequest.new label "consumer").encode))
  [.provision 2 "large", .act .openSession, place "large", place "small", place "large"]

def Inventory.interleaved : Inventory :=
  (start {} (.fresh {} .halfMinute)).after SchedulingStep.interleaved

/-- A request as it is found there below the default request root. -/
def NodeRequest.interleaved (number label : String) : String × NodeRequest :=
  let path := "/nodepool/requests/100-000000000" ++ number
  (path, { NodeRequest.new label "consumer" with path := some path })

/-- The two requests get one node each, and the one between them fails. -/
theorem serves_exactly_interleaved :
    let i := Inventory.interleaved
    let found := [NodeRequest.interleaved "0" "large", NodeRequest.interleaved "1" "small",
      NodeRequest.interleaved "2" "large"]
    i.scheduler.Reachable ∧
      i.service.store.children i.scheduler.requestRoot = found.map (·.1) ∧
      (∀ e ∈ found, i.service.store.request? e.1 = some (.ok e.2)) ∧
      i.scheduler.ServesExactly i.service.store 1 (i.scheduler.runOnce i.service.store 1) := by
  intro i found
  have hs : i.scheduler.Reachable :=
    ⟨{}, .fresh {} .halfMinute, SchedulingStep.interleaved, rfl⟩
  have hstored : i.service.store.children i.scheduler.requestRoot = found.map (·.1) ∧
      ∀ e ∈ found, i.service.store.request? e.1 = some (.ok e.2) := by decide +kernel
  refine ⟨hs, hstored.1, hstored.2, serves_exactly hs i.service.store ?_ 1⟩
  intro path hpath
  rw [hstored.1] at hpath
  rcases List.mem_map.1 hpath with ⟨e, he, rfl⟩
  exact ⟨e.2, hstored.2 e he⟩

end FencedPool
