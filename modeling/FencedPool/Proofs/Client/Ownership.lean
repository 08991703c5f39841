import FencedPool.Proofs.Client.AllOrNothing
import FencedPool.Proofs.Client.World

/-!
# Ownership — an accepted node belongs to the client that accepted it

While a handle is outstanding, its token is in force, whatever else is done to the service: its node
may be overwritten, deleted and created again, and other clients may fail to accept it and roll
back.  For a handle that has been returned is outstanding exactly as long as its token is in force,
so nobody can be granted the lock of its node, and two outstanding handles are for different nodes.

The main statements are `exclusive_ownership` and `World.Accounted.isGood_iff_of_accepted`, which
says that the releases that count for a handle are those after its return.
-/

namespace FencedPool

open Procedure

namespace Client

variable {c : Client} {r : NodeRequest} {id : SessionId} {s : Store}

/-- An accepted request is placed, so accepting it was all or nothing. -/
theorem accepted_plain (hs : s.LocksSound) {handles : List NodeHandle}
    (h : ((c.accept r).run (.plain id) s).answer.result = .ok handles) :
    handles.map (·.path) = r.allocatedNodes.map c.resolve ∧
      ∀ h ∈ handles, s.grant? h.path = none ∧
        ((c.accept r).run (.plain id) s).state.Holds h.lock := by
  cases hplaced : r.path with
  | none =>
      simp only [accept, hplaced] at h
      cases h
  | some path =>
      have hall := c.allOrNothing_plain id hs hplaced
      rcases hall.locks.accepted handles h with ⟨hpaths, hlocks, -⟩
      exact ⟨hpaths, hlocks⟩

theorem not_accepted_of_held (hs : s.LocksSound) {t : LockToken} (ht : s.Holds t)
    (hnode : t.path ∈ r.allocatedNodes.map c.resolve) :
    ((c.accept r).run (.plain id) s).answer.isAccepted = false := by
  unfold AcceptOutcome.isAccepted
  cases hresult : ((c.accept r).run (.plain id) s).answer.result with
  | error e => rfl
  | ok handles =>
      rcases accepted_plain hs hresult with ⟨hpaths, hlocks⟩
      rw [← hpaths] at hnode
      rcases List.mem_map.1 hnode with ⟨h, hh, hpath⟩
      have hfree := (hlocks h hh).1
      unfold Store.Holds at ht
      rw [← hpath, hfree] at ht
      cases ht

end Client

namespace World

variable {w : World} {clock : Clock} {timeout : Duration} {history : List ServiceAction}

theorem Accounted.locksSound (h : Accounted (.fresh clock timeout) history w) :
    w.service.store.LocksSound := by
  simp only [h.service]
  exact Service.after_locksSound Store.locksSound_empty history

/-- A handle that has been returned is good exactly as long as its token is in force. -/
theorem Accounted.isGood_iff (h : Accounted (.fresh clock timeout) history w)
    {handle : NodeHandle} (hreturned : handle ∈ w.returned) :
    w.isGood handle = true ↔ w.service.store.Holds handle.lock := by
  -- its token has been granted, so only a release or the end of the session can end it
  have hissued : handle.lock ∈ w.issued :=
    List.mem_append_left _ (List.mem_map.2 ⟨handle, hreturned, rfl⟩)
  have hgranted := h.issued.subset hissued
  have hiff := Service.after_holds_iff (s := .fresh clock timeout) Store.locksSound_empty history
    handle.lock
  rw [← h.service, ← h.released] at hiff
  rw [isGood_eq_true_iff, hiff]
  exact (and_iff_right (.inr hgranted)).symm

theorem Accounted.mem_outstanding_iff (h : Accounted (.fresh clock timeout) history w)
    {handle : NodeHandle} :
    handle ∈ w.outstanding ↔ handle ∈ w.returned ∧ w.service.store.Holds handle.lock := by
  unfold outstanding
  simp only [List.mem_filter]
  constructor
  · rintro ⟨hreturned, hgood⟩
    exact ⟨hreturned, (h.isGood_iff hreturned).1 hgood⟩
  · rintro ⟨hreturned, hold⟩
    exact ⟨hreturned, (h.isGood_iff hreturned).2 hold⟩

/-- Every token has been granted once, so it is returned once. -/
theorem Accounted.nodup_issued (h : Accounted (.fresh clock timeout) history w) :
    w.issued.Nodup := by
  -- the fences of all grants are different
  have hgrants : ((Service.fresh clock timeout).grantsAlong history).Nodup := by
    refine List.Nodup.of_map (·.fence) ?_
    rw [Service.fences_grantsAlong Store.locksSound_empty]
    exact List.nodup_range'
  rcases h.issued with ⟨l, hperm, hsub⟩
  exact hperm.nodup_iff.1 (hsub.nodup hgrants)

theorem Accounted.nodup_paths (h : Accounted (.fresh clock timeout) history w) :
    (w.outstanding.map (·.path)).Nodup := by
  -- tokens are different, and those in force of one path are equal
  have hlocks : (w.outstanding.map (·.lock)).Nodup := by
    have hsub : (w.outstanding.map (·.lock)).Sublist w.issued :=
      (List.filter_sublist.map _).trans (List.sublist_append_left _ _)
    exact hsub.nodup h.nodup_issued
  have hforce : ∀ t ∈ w.outstanding.map (·.lock), w.service.store.Holds t := by
    intro t ht
    rcases List.mem_map.1 ht with ⟨handle, hhandle, rfl⟩
    exact (h.mem_outstanding_iff.1 hhandle).2
  have hpaths : ((w.outstanding.map (·.lock)).map (·.path)).Nodup :=
    hlocks.map_on fun t ht u hu hpath => (hforce t ht).unique (hforce u hu) hpath
  simp only [List.map_map] at hpaths
  exact hpaths

/-- All handles of a request that is accepted without interruption are outstanding. -/
theorem Accounted.outstanding_of_accepted (h : Accounted (.fresh clock timeout) history w)
    (id : SessionId) (c : Client) (r : NodeRequest) {handle : NodeHandle}
    (hhandle : handle ∈ ((c.accept r).run (.plain id) w.service.store).answer.nodes) :
    handle ∈ (w.run id (.accept c r)).outstanding := by
  rcases h.run id (.accept c r) with ⟨actions, hrun⟩
  have hreply := run_bind (.plain id) (c.accept r) (fun o => .done o.nodes) w.service.store
  have hreturned : (w.run id (.accept c r)).returned =
      w.returned ++ ((c.accept r).run (.plain id) w.service.store).answer.nodes :=
    congrArg (w.returned ++ Reply.answer ·) hreply
  have hstore : (w.run id (.accept c r)).service.store =
      ((c.accept r).run (.plain id) w.service.store).state := congrArg Reply.state hreply
  simp only [hrun.mem_outstanding_iff, hreturned, hstore]
  refine ⟨List.mem_append_right _ hhandle, ?_⟩
  unfold AcceptOutcome.nodes at hhandle
  split at hhandle
  · next handles hresult =>
      exact ((Client.accepted_plain h.locksSound hresult).2 handle hhandle).2
  · cases hhandle

/-- An outstanding handle stays good as long as its token is not released from then on and its
session is open. -/
theorem Accounted.isGood_after_iff (h : Accounted (.fresh clock timeout) history w)
    {handle : NodeHandle} (hhandle : handle ∈ w.outstanding) (steps : List Step) :
    (w.after steps).isGood handle = true ↔
      handle.lock ∉ (w.after steps).releasedSince w ∧
        (w.after steps).service.store.isSessionOpen handle.lock.holder = true := by
  -- its token has not been released before
  have hbefore : handle.lock ∉ w.released := (isGood_eq_true_iff.1 (List.mem_filter.1 hhandle).2).1
  rw [isGood_eq_true_iff, h.released_after steps, List.mem_append, not_or]
  exact and_congr_left' (and_iff_right hbefore)

/-- What an uninterrupted accept returns is good until its token is released after the return, or
the session of its holder ends: all tokens that have been released by then are others. -/
theorem Accounted.isGood_iff_of_accepted (h : Accounted (.fresh clock timeout) history w)
    (id : SessionId) (c : Client) (r : NodeRequest) {handle : NodeHandle}
    (hhandle : handle ∈ ((c.accept r).run (.plain id) w.service.store).answer.nodes)
    (steps : List Step) :
    let returned := w.run id (.accept c r)
    let later := returned.after steps
    later.isGood handle = true ↔ handle.lock ∉ later.releasedSince returned ∧
      later.service.store.isSessionOpen handle.lock.holder = true := by
  rcases h.run id (.accept c r) with ⟨actions, hrun⟩
  exact hrun.isGood_after_iff (h.outstanding_of_accepted id c r hhandle) steps

theorem Accounted.acquire_refused (h : Accounted (.fresh clock timeout) history w)
    {handle : NodeHandle} (hhandle : handle ∈ w.outstanding) (id : SessionId) (t : LockToken) :
    (w.service.perform id (.acquire handle.path)).1 ≠ .ok t := by
  intro hgranted
  have hpath : t.path = handle.path :=
    Store.path_of_respond_acquire id (fun _ => none) h.locksSound hgranted
  have hstep := w.service.act_lockStep h.locksSound (.call id (.acquire handle.path))
  have hgrant : w.service.granted? (.call id (.acquire handle.path)) = some t := by
    change Exchange.granted? ⟨_, (w.service.perform id (.acquire handle.path)).1⟩ = some t
    simp only [hgranted]
    rfl
  -- a lock is only granted on a path that has none in force
  have hfree := (hstep.fresh t hgrant).2.1
  have hheld : w.service.store.grant? handle.path = some handle.lock :=
    (h.mem_outstanding_iff.1 hhandle).2
  simp only [hpath, hheld] at hfree
  cases hfree

end World

/-- Exclusive ownership over whole runs, in which any number of clients and whoever else there is do
their steps in any order.  An outstanding handle has the lock of its node, and two of them are for
different nodes.  Nobody else is granted the lock of such a node, nor has a request with it
accepted.  And every handle of a request that is accepted without interruption is outstanding. -/
theorem exclusive_ownership (clock : Clock) (timeout : Duration) (steps : List World.Step) :
    let w := (World.fresh clock timeout).after steps
    (∀ h ∈ w.outstanding, w.service.store.grant? h.path = some h.lock) ∧
      (w.outstanding.map (·.path)).Nodup ∧
      (∀ h ∈ w.outstanding, ∀ id t, (w.service.perform id (.acquire h.path)).1 ≠ .ok t) ∧
      (∀ h ∈ w.outstanding, ∀ id (c : Client) (r : NodeRequest),
        h.path ∈ r.allocatedNodes.map c.resolve →
          ((c.accept r).run (.plain id) w.service.store).answer.isAccepted = false) ∧
      ∀ id (c : Client) (r : NodeRequest),
        ∀ h ∈ ((c.accept r).run (.plain id) w.service.store).answer.nodes,
          h ∈ (w.step (.run id (.accept c r))).outstanding := by
  intro w
  rcases World.after_accounted clock timeout steps with ⟨history, haccounted⟩
  have hheld : ∀ h ∈ w.outstanding, w.service.store.Holds h.lock := fun h hh =>
    (haccounted.mem_outstanding_iff.1 hh).2
  refine ⟨hheld, haccounted.nodup_paths, ?_, ?_, ?_⟩
  · intro h hh id t
    exact haccounted.acquire_refused hh id t
  · intro h hh id c r hnode
    exact Client.not_accepted_of_held haccounted.locksSound (hheld h hh) hnode
  · intro id c r h hh
    exact haccounted.outstanding_of_accepted id c r hh

/-- A session accepts a request for two nodes.  One of them is then deleted and created again, and
another session tries to accept the same request. -/
def contest : List World.Step :=
  [.act .openSession, .act .openSession,
    .act (.put "/nodepool/nodes/1" [0x7B, 0x7D]), .act (.put "/nodepool/nodes/2" [0x7B, 0x7D]),
    .run ⟨1⟩ (.accept .byDefault .ofTwoNodes),
    .act (.delete "/nodepool/nodes/1"), .act (.put "/nodepool/nodes/1" [0x7B, 0x7D]),
    .run ⟨2⟩ (.accept .byDefault .ofTwoNodes)]

/-- Both nodes stay with the first session, and nobody can accept the request. -/
theorem exclusive_ownership_contest :
    let w := (World.fresh {} .halfMinute).after contest
    w.outstanding.map (·.lock) =
        [⟨"/nodepool/nodes/1", ⟨1⟩, 1⟩, ⟨"/nodepool/nodes/2", ⟨1⟩, 2⟩] ∧
      ∀ id, ((Client.byDefault.accept .ofTwoNodes).run (.plain id)
        w.service.store).answer.isAccepted = false := by
  refine ⟨by decide, ?_⟩
  have howned := (exclusive_ownership {} .halfMinute contest).2.2.2.1
  intro id
  refine howned ⟨⟨"/nodepool/nodes/1", ⟨1⟩, 1⟩, {}⟩ ?_ id .byDefault .ofTwoNodes ?_
  · decide
  · decide

end FencedPool
