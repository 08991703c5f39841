import FencedPool.Proofs.Client.Acceptance

/-!
# Release — giving back what was accepted

The handles of an accepted request are for different nodes whose locks were free before.  So they
can be released in any order, and when all of them are, the lock table is what it was.  A release
needs the token of the current grant, so each handle can be released once: copies of it are refused
from then on, whoever has been granted the node since.

This file defines:

* `Client.releaseEach` — the release of handles one after another;
* `Service.accepting` — a service after a request has been accepted or refused;
* `Service.GivesBack` — when a handle can be released, and what that does.

The main statement is `release_inverts_accept`.
-/

namespace FencedPool

/-! ## Lock tables -/

namespace Store

variable {s : Store}

/-- The lock table is determined by the grants in force. -/
theorem OnlyHeld.get?_locks (hs : s.OnlyHeld) (path : String) :
    s.locks.get? path = (s.grant? path).map fun t => ⟨path, .held t.holder t.fence⟩ := by
  unfold grant?
  cases hlock : s.locks.get? path with
  | none => rfl
  | some lock =>
      rcases hs path lock hlock with ⟨holder, fence, rfl⟩
      rfl

end Store

namespace Client

open Store Procedure

variable {c : Client} {r : NodeRequest} {path : String} {s : Store} {id : SessionId}

/-! ## Accepted handles -/

/-- Accepting a request takes its nodes one after another. -/
theorem accept_result (hs : s.OnlyHeld) (hopen : s.isSessionOpen id = true)
    (hplaced : r.path = some path) (hnodes : r.allocatedNodes ≠ []) :
    ((c.accept r).run (.plain id) s).answer.result =
      s.takeAll id (r.allocatedNodes.map c.resolve) := by
  rw [(accept_answer (.plain id) s hplaced hnodes).1, lockAll_result _ [] _ hs hopen]
  exact congrFun Except.map_id _

theorem accept_of_no_nodes (hplaced : r.path = some path) (hnodes : r.allocatedNodes = []) :
    ((c.accept r).run (.plain id) s).answer.result = .error (.notAllocated (r.id.getD "")) := by
  unfold accept
  rw [hplaced]
  dsimp only
  rw [if_pos hnodes, answer_note_bind, answer_bind]
  rfl

/-- The handles of an accepted request are for different nodes, and their locks are in force. -/
theorem accepted_releasable (hs : s.LocksSound) (hopen : s.isSessionOpen id = true)
    (hplaced : r.path = some path) :
    let reply := (c.accept r).run (.plain id) s
    (∀ h ∈ reply.answer.nodes, reply.state.Holds h.lock) ∧
      (reply.answer.nodes.map (·.path)).Nodup := by
  intro reply
  unfold AcceptOutcome.nodes
  cases hresult : reply.answer.result with
  | error e => exact ⟨nofun, .nil⟩
  | ok handles =>
      rcases accepted_plain hs hresult with ⟨hpaths, hlocks⟩
      refine ⟨fun h hh => (hlocks h hh).2, ?_⟩
      have hnodes : r.allocatedNodes ≠ [] := by
        intro hnone
        have hrefused : reply.answer.result = _ := accept_of_no_nodes hplaced hnone
        rw [hresult] at hrefused
        cases hrefused
      have htaken : s.takeAll id (r.allocatedNodes.map c.resolve) = .ok handles :=
        (accept_result hs.onlyHeld hopen hplaced hnodes).symm.trans hresult
      dsimp only
      rw [hpaths]
      -- a request that names a node twice is refused
      exact ((exists_takeAll_ok_iff hs.onlyHeld id _).1 ⟨handles, htaken⟩).1

/-- Only a placed request with nodes is accepted, and only on an open session. -/
theorem of_accepted (hs : s.LocksSound) {handles : List NodeHandle}
    (h : ((c.accept r).run (.plain id) s).answer.result = .ok handles) :
    s.isSessionOpen id = true ∧ r.allocatedNodes ≠ [] ∧ ∃ path, r.path = some path := by
  cases hplaced : r.path with
  | none =>
      simp only [accept, hplaced] at h
      cases h
  | some path =>
      have haccepted : ((c.accept r).run (.plain id) s).answer.isAccepted = true :=
        congrArg Except.toBool h
      have hacceptable := (accept_plain_answer c id hs hplaced).1.1 haccepted
      refine ⟨hacceptable.1, ?_, path, rfl⟩
      simpa using hacceptable.2.1

/-- The handles of an accepted request are held by the session that accepted it. -/
theorem holder_of_accepted (hs : s.LocksSound) {handles : List NodeHandle}
    (haccepted : ((c.accept r).run (.plain id) s).answer.result = .ok handles) {h : NodeHandle}
    (hh : h ∈ handles) : h.lock.holder = id := by
  rcases of_accepted hs haccepted with ⟨hopen, hnodes, path, hplaced⟩
  rw [accept_result hs.onlyHeld hopen hplaced hnodes] at haccepted
  have hlock : h.lock ∈ handles.map (·.lock) := List.mem_map_of_mem hh
  rw [(takeAll_handles hs.onlyHeld haccepted).1, List.mem_mapIdx] at hlock
  rcases hlock with ⟨i, hi, heq⟩
  rw [← heq]

/-! ## Releasing -/

/-- A release succeeds, and frees the node, exactly while the token of the handle is in force. -/
theorem release_eq_of_open (hs : s.OnlyHeld) (hopen : s.isSessionOpen id = true) (h : NodeHandle) :
    let reply := (release h).run (.plain id) s
    if s.Holds h.lock then reply.answer = .ok () ∧ reply.state = s.freeing h.path
    else reply.answer = .error (.store (.lockNotHeld h.path)) ∧ reply.state = s := by
  intro reply
  have hreply : reply = (release h).run (.plain id) s := rfl
  unfold release at hreply
  rw [run_ask_bind, Session.plain_perform_of_open hopen] at hreply
  simp only [Session.answer, release_eq hs] at hreply
  split
  · next hheld =>
      rw [if_pos hheld] at hreply
      rw [hreply]
      exact ⟨rfl, rfl⟩
  · next hfree =>
      rw [if_neg hfree] at hreply
      rw [hreply]
      exact ⟨rfl, rfl⟩

theorem release_run (hs : s.OnlyHeld) (hopen : s.isSessionOpen id = true) {h : NodeHandle}
    (hheld : s.Holds h.lock) :
    ((release h).run (.plain id) s).answer = .ok () ∧
      ((release h).run (.plain id) s).state = s.freeing h.path := by
  have hrelease := release_eq_of_open hs hopen h
  rwa [if_pos hheld] at hrelease

/-- Releases handles one after another, whatever comes of each. -/
def releaseEach : List NodeHandle → Procedure (List (Except PoolError Unit))
  | [] => return []
  | h :: rest => do
      let answer ← release h
      let more ← releaseEach rest
      return answer :: more

theorem run_releaseEach_cons {σ : Type} (session : Session σ) (h : NodeHandle)
    (rest : List NodeHandle) (state : σ) :
    let first := (release h).run session state
    let more := (releaseEach rest).run session first.state
    ((releaseEach (h :: rest)).run session state).answer = first.answer :: more.answer ∧
      ((releaseEach (h :: rest)).run session state).state = more.state := by
  intro first more
  have hrun : (releaseEach (h :: rest)).run session state =
      ((release h).bind fun answer => (releaseEach rest).bind fun more =>
        .done (answer :: more)).run session state := rfl
  rw [hrun, run_bind]
  dsimp only
  rw [run_bind]
  exact ⟨rfl, rfl⟩

/-- Handles for different nodes whose locks are in force can all be released. -/
theorem run_releaseEach {order : List NodeHandle} (hs : s.OnlyHeld)
    (hopen : s.isSessionOpen id = true) (hheld : ∀ h ∈ order, s.Holds h.lock)
    (hdistinct : (order.map (·.path)).Nodup) :
    let reply := (releaseEach order).run (.plain id) s
    reply.answer = order.map (fun _ => .ok ()) ∧
      reply.state = { s with locks := (order.map (·.path)).foldl Table.erase s.locks } := by
  induction order generalizing s with
  | nil => exact ⟨rfl, rfl⟩
  | cons h rest ih =>
      rcases List.forall_mem_cons.1 hheld with ⟨hlock, hrest⟩
      rcases List.nodup_cons.1 hdistinct with ⟨hnot, hdistinct⟩
      rcases release_run hs hopen hlock with ⟨hanswer, hstate⟩
      -- the other locks stay in force, since they are for other nodes
      have hlater : ∀ h' ∈ rest, (s.freeing h.path).Holds h'.lock := fun h' hh' =>
        (freeing_holds_iff hs h.path h'.lock).2
          ⟨hrest h' hh', fun hsame => hnot (List.mem_map.2 ⟨h', hh', hsame⟩)⟩
      rcases ih (s := s.freeing h.path) (freeing_onlyHeld hs h.path) hopen hlater hdistinct with
        ⟨hanswers, hend⟩
      rcases run_releaseEach_cons (.plain id) h rest s with ⟨hfirst, hlast⟩
      rw [hstate] at hfirst hlast
      exact ⟨by rw [hfirst, hanswer, hanswers, List.map_cons], hlast.trans hend⟩

/-- Without the nodes that were accepted, the lock table is that of the store before. -/
theorem locks_of_accepted (hs : s.LocksSound)
    (hafter : ((c.accept r).run (.plain id) s).state.OnlyHeld) {handles : List NodeHandle}
    (haccepted : ((c.accept r).run (.plain id) s).answer.result = .ok handles)
    {order : List NodeHandle} (horder : order.Perm handles) :
    (order.map (·.path)).foldl Table.erase ((c.accept r).run (.plain id) s).state.locks =
      s.locks := by
  rcases of_accepted hs haccepted with ⟨-, -, path, hplaced⟩
  rcases (c.allOrNothing_plain id hs hplaced).locks.accepted handles haccepted with
    ⟨-, htaken, hothers⟩
  refine Table.ext_get? fun p => ?_
  rw [Table.get?_foldl_erase]
  split
  · next hp =>
      -- a node that was accepted had been free
      rcases List.mem_map.1 hp with ⟨h, hh, rfl⟩
      exact (hs.onlyHeld.grant?_eq_none_iff.1 (htaken h (horder.subset hh)).1).symm
  · next hp =>
      have hother : ∀ h ∈ handles, h.path ≠ p := fun h hh heq =>
        hp (List.mem_map.2 ⟨h, horder.symm.subset hh, heq⟩)
      rw [hafter.get?_locks, hothers p hother, ← hs.onlyHeld.get?_locks]

end Client

namespace Service

open Procedure

/-- The service after a request has been accepted on a session, or refused. -/
def accepting (s : Service) (c : Client) (id : SessionId) (r : NodeRequest) : Service :=
  { s with store := ((c.accept r).run (.plain id) s.store).state }

variable {s : Service} {c : Client} {id : SessionId} {r : NodeRequest}

/-- Accepting a request is a run of calls. -/
theorem exists_accepting (s : Service) (c : Client) (id : SessionId) (r : NodeRequest) :
    ∃ actions, s.after actions = s.accepting c id r := by
  have hdialogue := dialogue_plain id (c.accept r) s.store
  rcases hdialogue.exists_run s rfl with ⟨actions, hafter, -, -⟩
  exact ⟨actions, hafter⟩

/-- What a release of a handle comes to after a run, through any open session: it frees the node as
long as the token has not been released and the session of the handle is open, and a handle that
has been released already is refused and nothing has changed. -/
structure GivesBack (s : Service) (h : NodeHandle) (more : List ServiceAction)
    (through : SessionId) : Prop where
  once : h.lock ∉ s.releasesAlong more →
    (s.after more).store.isSessionOpen h.lock.holder = true →
    let reply := (Client.release h).run (.plain through) (s.after more).store
    reply.answer = .ok () ∧ reply.state = (s.after more).store.freeing h.path
  stale : h.lock ∈ s.releasesAlong more →
    let reply := (Client.release h).run (.plain through) (s.after more).store
    reply.answer = .error (.store (.lockNotHeld h.path)) ∧ reply.state = (s.after more).store

theorem givesBack (hs : s.store.LocksSound) {h : NodeHandle} (hheld : s.store.Holds h.lock)
    (more : List ServiceAction) {through : SessionId}
    (hopen : (s.after more).store.isSessionOpen through = true) :
    s.GivesBack h more through := by
  have hlater := after_locksSound hs more
  -- a token that was in force is so until it is released or its session ends, and never again
  have hiff := after_holds_iff hs more h.lock
  have hrelease := Client.release_eq_of_open hlater.onlyHeld hopen h
  constructor
  · intro hunreleased hholder
    rwa [if_pos (hiff.2 ⟨.inl hheld, hunreleased, hholder⟩)] at hrelease
  · intro hreleased
    rwa [if_neg fun hold => (hiff.1 hold).2.1 hreleased] at hrelease

end Service

open Client in
/-- Releasing gives back exactly what accepting took.  After any run, when a session has accepted a
request, its handles can be released in every order, and then the lock table is the one before the
acceptance and no entry has changed.  Whatever happens in between, a handle can be released once
while its session is open, and not again, even if the node has been granted since. -/
theorem release_inverts_accept (clock : Clock) (timeout : Duration) (actions : List ServiceAction)
    (c : Client) (id : SessionId) (r : NodeRequest) {handles : List NodeHandle}
    (haccepted : ((c.accept r).run (.plain id)
      ((Service.fresh clock timeout).after actions).store).answer.result = .ok handles) :
    let before := (Service.fresh clock timeout).after actions
    let accepted := before.accepting c id r
    (∀ order, order.Perm handles →
      let reply := (releaseEach order).run (.plain id) accepted.store
      reply.answer = order.map (fun _ => .ok ()) ∧
        reply.state = { accepted.store with locks := before.store.locks }) ∧
      ∀ h ∈ handles, h.lock.holder = id ∧ ∀ more through,
        (accepted.after more).store.isSessionOpen through = true →
          accepted.GivesBack h more through := by
  intro before accepted
  have hs : before.store.LocksSound := Service.after_locksSound Store.locksSound_empty actions
  -- accepting is a run of calls, so its locks are as sound as those of any run
  rcases before.exists_accepting c id r with ⟨calls, hcalls⟩
  have hafter : accepted.store.LocksSound := by
    change (before.accepting c id r).store.LocksSound
    rw [← hcalls]
    exact Service.after_locksSound hs calls
  rcases of_accepted hs haccepted with ⟨hopen, -, path, hplaced⟩
  have hnodes : (((c.accept r).run (.plain id) before.store).answer).nodes = handles := by
    unfold AcceptOutcome.nodes
    rw [haccepted]
  rcases accepted_releasable hs hopen hplaced with ⟨hheld, hdistinct⟩
  rw [hnodes] at hheld hdistinct
  have hstillOpen : accepted.store.isSessionOpen id = true :=
    (Store.isSessionOpen_congr (c.allOrNothing_plain id hs hplaced).sessions id).trans hopen
  refine ⟨fun order horder => ?_, fun h hh => ?_⟩
  · rcases run_releaseEach hafter.onlyHeld hstillOpen
      (fun h hh => hheld h (horder.subset hh)) ((horder.map _).nodup_iff.2 hdistinct) with
      ⟨hanswers, hend⟩
    have hlocks : (order.map (·.path)).foldl Table.erase accepted.store.locks =
        before.store.locks := locks_of_accepted hs hafter.onlyHeld haccepted horder
    rw [hlocks] at hend
    exact ⟨hanswers, hend⟩
  · exact ⟨holder_of_accepted hs haccepted hh, fun more through hthrough =>
      Service.givesBack hafter (hheld h hh) more hthrough⟩

/-- Two nodes that nobody holds, and two sessions. -/
def stocked : Service :=
  (Service.fresh {} .halfMinute).after
    [.openSession, .openSession, .put "/nodepool/nodes/1" [0x7B, 0x7D],
      .put "/nodepool/nodes/2" [0x7B, 0x7D]]

/-- The handle of a node that the first session has accepted. -/
def NodeHandle.ofFirst (path : String) (fence : Nat) : NodeHandle := ⟨⟨path, ⟨1⟩, fence⟩, {}⟩

/-- The first node is given back and granted to the other session. -/
def regrant : List ServiceAction :=
  [.call ⟨1⟩ (.release ⟨"/nodepool/nodes/1", ⟨1⟩, 1⟩), .call ⟨2⟩ (.acquire "/nodepool/nodes/1")]

/-- Both nodes are given back in the other order; and a copy of the handle that has been released
does not take the lock from the other session. -/
theorem release_inverts_accept_regrant :
    let first := NodeHandle.ofFirst "/nodepool/nodes/1" 1
    let second := NodeHandle.ofFirst "/nodepool/nodes/2" 2
    let accepted := stocked.accepting .byDefault ⟨1⟩ .ofTwoNodes
    let stale := (Client.release first).run (.plain ⟨1⟩) (accepted.after regrant).store
    ((Client.byDefault.accept .ofTwoNodes).run (.plain ⟨1⟩) stocked.store).answer.result =
        .ok [first, second] ∧
      ((Client.releaseEach [second, first]).run (.plain ⟨1⟩) accepted.store).state =
        { accepted.store with locks := stocked.store.locks } ∧
      stale.answer = .error (.store (.lockNotHeld "/nodepool/nodes/1")) ∧
      stale.state.grant? "/nodepool/nodes/1" = some ⟨"/nodepool/nodes/1", ⟨2⟩, 3⟩ := by
  intro first second accepted stale
  have haccepted : ((Client.byDefault.accept .ofTwoNodes).run (.plain ⟨1⟩)
      stocked.store).answer.result = .ok [first, second] := by decide +kernel
  rcases release_inverts_accept {} .halfMinute _ .byDefault ⟨1⟩ .ofTwoNodes haccepted with
    ⟨hrestores, hgives⟩
  have hstale := ((hgives first List.mem_cons_self).2 regrant ⟨1⟩ (by decide +kernel)).stale
    (by decide +kernel)
  refine ⟨haccepted, (hrestores [second, first] (List.Perm.swap _ _ _)).2, hstale.1, ?_⟩
  have hstate : stale.state = (accepted.after regrant).store := hstale.2
  rw [hstate]
  decide +kernel

end FencedPool
