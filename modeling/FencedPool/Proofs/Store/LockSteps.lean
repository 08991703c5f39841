import FencedPool.Proofs.Store.Locks

/-!
# LockSteps — every action is a step of the lock table

Locks are touched by acquiring, by releasing, and by the end of sessions.  Each of these gets one
equation in terms of the lock table, and from them follows that every action is a `LockStep`.

This file proves:

* `Store.acquire_eq`, `Store.acquire_cases` and `Store.release_eq` — what the two calls answer;
* `Store.closeSession_lockStep`, `Store.closeAll_lockStep` — the end of sessions;
* `Service.act_lockStep` and `Store.Reachable.locksSound`.
-/

namespace FencedPool

open Std

namespace Store

variable {s : Store}

/-! ## Acquiring -/

/-- The store after the lock of a path has been granted. -/
def granting (s : Store) (path : String) (session : SessionId) : Store :=
  { s with
    locks := s.locks.insert path ⟨path, .held session (s.grants + 1)⟩
    grants := s.grants + 1 }

/-- A lock is granted on an entry whose lock nobody holds, under the next fence. -/
theorem acquire_eq (hs : s.OnlyHeld) (path : String) (session : SessionId) :
    s.acquire path session =
      if isEntryPath path then
        if s.entries.contains path then
          match s.grant? path with
          | none => (.ok ⟨path, session, s.grants + 1⟩, s.granting path session)
          | some t => (.error (.lockHeld path t.holder), s)
        else (.error (.noNode path), s)
      else (.error (.badPath path), s) := by
  unfold acquire checkingPath
  by_cases hp : isEntryPath path
  · by_cases he : s.entries.contains path
    · cases hl : s.locks.get? path with
      | none =>
          have hg : s.grant? path = none := hs.grant?_eq_none_iff.2 hl
          simp [hp, he, hg, PathLock.transition, PathLock.new, granting]
      | some lock =>
          rcases hs _ _ hl with ⟨holder, fence, rfl⟩
          have hg : s.grant? path = some ⟨path, holder, fence⟩ := by
            unfold grant?
            simp only [hl]
          simp [hp, he, hg, PathLock.transition]
    · simp [hp, he]
  · simp [hp]

/-- A lock is granted where nobody holds it, or nothing changes. -/
theorem acquire_cases (hs : s.OnlyHeld) (path : String) (id : SessionId) :
    (∃ e, s.acquire path id = (.error e, s)) ∨
      s.grant? path = none ∧
        s.acquire path id = (.ok ⟨path, id, s.grants + 1⟩, s.granting path id) := by
  simp only [acquire_eq hs]
  split
  · split
    · cases hfree : s.grant? path with
      | none => exact .inr ⟨rfl, rfl⟩
      | some t => exact .inl ⟨_, rfl⟩
    · exact .inl ⟨_, rfl⟩
  · exact .inl ⟨_, rfl⟩

theorem granting_onlyHeld (hs : s.OnlyHeld) (path : String) (session : SessionId) :
    (s.granting path session).OnlyHeld := by
  intro p lock h
  change (s.locks.insert path _).get? p = some lock at h
  simp only [Table.get?_insert] at h
  split at h
  · next hp =>
      cases h
      exact ⟨session, s.grants + 1, by simp only [hp]⟩
  · exact hs p lock h

theorem granting_holds_iff (hs : s.OnlyHeld) {path : String} (hfree : s.grant? path = none)
    (session : SessionId) (t : LockToken) :
    (s.granting path session).Holds t ↔ t = ⟨path, session, s.grants + 1⟩ ∨ s.Holds t := by
  simp only [(granting_onlyHeld hs path session).holds_iff, hs.holds_iff]
  change (s.locks.insert path _).get? t.path = _ ↔ _
  simp only [Table.get?_insert]
  rcases t with ⟨p, holder, fence⟩
  by_cases hp : p = path
  · subst hp
    have hl : s.locks.get? p = none := hs.grant?_eq_none_iff.1 hfree
    simp only [if_true, Option.some.injEq, PathLock.mk.injEq, LockState.held.injEq, true_and, hl,
      LockToken.mk.injEq, reduceCtorEq, or_false]
    exact ⟨fun h => ⟨h.1.symm, h.2.symm⟩, fun h => ⟨h.1.symm, h.2.symm⟩⟩
  · simp [hp]

theorem granting_lockStep (hs : s.LocksSound) {path : String} (hfree : s.grant? path = none)
    {session : SessionId} (hopen : s.isSessionOpen session = true) :
    LockStep s (some ⟨path, session, s.grants + 1⟩) none (s.granting path session) where
  onlyHeld := granting_onlyHeld hs.onlyHeld path session
  holds_iff t := by
    simp only [granting_holds_iff hs.onlyHeld hfree]
    constructor
    · rintro (rfl | hold)
      · exact .inl rfl
      · exact .inr ⟨hold, by simp, hs.live t hold⟩
    · rintro (hg | ⟨hold, -, -⟩)
      · exact .inl (Option.some.inj hg).symm
      · exact .inr hold
  fresh t hg := by
    cases hg
    exact ⟨rfl, hfree, hopen⟩
  held t hr := by cases hr
  grants := rfl
  opened := Nat.le_refl _
  reopened id hid := .inl hid

/-! ## Releasing -/

/-- The store after a lock has been given back. -/
def freeing (s : Store) (path : String) : Store := { s with locks := s.locks.erase path }

/-- A release succeeds exactly with a token in force. -/
theorem release_eq (hs : s.OnlyHeld) (t : LockToken) :
    s.release t =
      if s.Holds t then (.ok (), s.freeing t.path) else (.error (.lockNotHeld t.path), s) := by
  have hiff := hs.holds_iff (t := t)
  unfold release
  cases hl : s.locks.get? t.path with
  | none =>
      have hnot : ¬ s.Holds t := by simp [hiff, hl]
      simp [hnot]
  | some lock =>
      rcases hs _ _ hl with ⟨holder, fence, rfl⟩
      by_cases ht : t = ⟨t.path, holder, fence⟩
      · have hold : s.Holds t := by
          simp only [hiff, hl]
          rw [ht]
        simp [PathLock.transition, if_pos ht, hold, freeing]
      · have hnot : ¬ s.Holds t := by
          intro hold
          simp only [hiff, hl] at hold
          simp only [Option.some.injEq, PathLock.mk.injEq, LockState.held.injEq, true_and] at hold
          exact ht (by simp only [hold.1, hold.2])
        simp [PathLock.transition, if_neg ht, hnot]

theorem freeing_onlyHeld (hs : s.OnlyHeld) (path : String) : (s.freeing path).OnlyHeld := by
  intro p lock h
  change (s.locks.erase path).get? p = some lock at h
  simp only [Table.get?_erase] at h
  split at h
  · cases h
  · exact hs p lock h

theorem freeing_holds_iff (hs : s.OnlyHeld) (path : String) (t : LockToken) :
    (s.freeing path).Holds t ↔ s.Holds t ∧ t.path ≠ path := by
  simp only [(freeing_onlyHeld hs path).holds_iff, hs.holds_iff]
  change (s.locks.erase path).get? t.path = _ ↔ _
  simp only [Table.get?_erase]
  by_cases hp : t.path = path <;> simp [hp]

theorem freeing_lockStep (hs : s.LocksSound) {t : LockToken} (ht : s.Holds t) :
    LockStep s none (some t) (s.freeing t.path) where
  onlyHeld := freeing_onlyHeld hs.onlyHeld t.path
  holds_iff u := by
    simp only [freeing_holds_iff hs.onlyHeld]
    constructor
    · rintro ⟨hold, hp⟩
      refine .inr ⟨hold, ?_, hs.live u hold⟩
      intro he
      exact hp (congrArg LockToken.path (Option.some.inj he)).symm
    · rintro (hg | ⟨hold, hne, -⟩)
      · cases hg
      · refine ⟨hold, ?_⟩
        intro hp
        exact hne (congrArg some (ht.unique hold hp.symm))
  fresh u hg := by cases hg
  held u hr := by
    cases hr
    exact ht
  grants := rfl
  opened := Nat.le_refl _
  reopened id hid := .inl hid

/-! ## Sessions -/

theorem isSessionOpen_congr {s s' : Store} (h : s'.sessions = s.sessions) (id : SessionId) :
    s'.isSessionOpen id = s.isSessionOpen id := by
  unfold isSessionOpen
  rw [h]

theorem isSessionOpen_erase {s s' : Store} {id : SessionId}
    (h : s'.sessions = s.sessions.erase id) (j : SessionId) :
    s'.isSessionOpen j = true ↔ s.isSessionOpen j = true ∧ j ≠ id := by
  unfold isSessionOpen Table.contains
  simp only [h, Table.get?_erase]
  by_cases hj : j = id <;> simp [hj]

theorem isSessionOpen_insert {s s' : Store} {id : SessionId} {record : SessionRecord}
    (h : s'.sessions = s.sessions.insert id record) (j : SessionId) :
    s'.isSessionOpen j = true ↔ j = id ∨ s.isSessionOpen j = true := by
  unfold isSessionOpen Table.contains
  simp only [h, Table.get?_insert]
  by_cases hj : j = id <;> simp [hj]

theorem get?_locksWithout (hs : s.OnlyHeld) (id : SessionId) (path : String) (lock : PathLock) :
    (s.locksWithout id).get? path = some lock ↔
      s.locks.get? path = some lock ∧ lock.holder? ≠ some id := by
  unfold locksWithout
  simp only [Table.get?_filter_eq_some_iff, Table.get?_map, Option.map_eq_some_iff]
  constructor
  · rintro ⟨⟨l, hl, rfl⟩, hheld⟩
    rcases hs _ _ hl with ⟨holder, fence, rfl⟩
    by_cases hid : id = holder
    · simp [PathLock.transition, hid, PathLock.isFree] at hheld
    · simp only [PathLock.transition, if_neg hid, PathLock.holder?, Option.some.injEq, ne_eq]
      exact ⟨hl, fun h => hid h.symm⟩
  · rintro ⟨hl, hid⟩
    rcases hs _ _ hl with ⟨holder, fence, rfl⟩
    have hne : ¬ id = holder := fun h => hid (by simp only [h]; rfl)
    refine ⟨⟨_, hl, ?_⟩, ?_⟩
    · simp [PathLock.transition, hne]
    · simp [PathLock.isFree]

/-- The end of a session frees the locks that it holds and no other. -/
theorem closeSession_lockStep (hs : s.LocksSound) (id : SessionId) :
    LockStep s none none (s.closeSession id) := by
  unfold closeSession
  split
  · let ended : Store := { s with sessions := s.sessions.erase id }
    have hremoved : EntryChange ended ((ended.ownedBy id).foldl remove ended) :=
      ended.removeAll_change _
    -- the entries of the session go first, and this touches no lock
    change LockStep s none none
      { (ended.ownedBy id).foldl remove ended with
        locks := ((ended.ownedBy id).foldl remove ended).locksWithout id }
    generalize (ended.ownedBy id).foldl remove ended = left at hremoved ⊢
    have hlocks : left.locks = s.locks := hremoved.locks
    have hleft : left.OnlyHeld := by
      unfold OnlyHeld
      simp only [hlocks]
      exact hs.onlyHeld
    have honly : OnlyHeld { left with locks := left.locksWithout id } := fun path lock h =>
      hleft path lock ((get?_locksWithout hleft id path lock).1 h).1
    have hopen : ∀ j, isSessionOpen { left with locks := left.locksWithout id } j = true ↔
        s.isSessionOpen j = true ∧ j ≠ id := isSessionOpen_erase hremoved.sessions
    exact {
      onlyHeld := honly
      holds_iff := fun t => by
        simp only [honly.holds_iff, hopen]
        simp only [get?_locksWithout hleft, hlocks, ← hs.onlyHeld.holds_iff]
        constructor
        · rintro ⟨hold, hid⟩
          refine .inr ⟨hold, by simp, hs.live t hold, ?_⟩
          intro h
          exact hid (congrArg some h)
        · rintro (hg | ⟨hold, -, -, hid⟩)
          · cases hg
          · exact ⟨hold, fun h => hid (Option.some.inj h)⟩
      fresh := fun t hg => by cases hg
      held := fun t hr => by cases hr
      grants := hremoved.grants
      opened := Nat.le_of_eq hremoved.opened.symm
      reopened := fun j hj => .inl ((hopen j).1 hj).1 }
  · exact (EntryChange.refl s).lockStep hs

theorem closeAll_lockStep (hs : s.LocksSound) (ids : List SessionId) :
    LockStep s none none (ids.foldl closeSession s) := by
  induction ids generalizing s with
  | nil => exact (EntryChange.refl s).lockStep hs
  | cons id rest ih =>
      have hstep := closeSession_lockStep hs id
      exact hstep.trans hs (ih (hstep.locksSound hs))

theorem openSession_lockStep (hs : s.LocksSound) (now : Instant) (timeout : Duration) :
    LockStep s none none (s.openSession now timeout).2 := by
  have hsessions : (s.openSession now timeout).2.sessions =
      s.sessions.insert ⟨s.opened + 1⟩ ⟨now, timeout⟩ := rfl
  have hopen := isSessionOpen_insert hsessions
  refine LockStep.of_locks_eq hs rfl rfl (Nat.le_succ _) ?_ ?_
  · intro id hid
    exact (hopen id).2 (.inr hid)
  · intro id hid
    -- the new session has the next number
    rcases (hopen id).1 hid with rfl | h
    · exact .inr ⟨Nat.lt_succ_self _, Nat.le_refl _⟩
    · exact .inl h

theorem heartbeat_lockStep (hs : s.LocksSound) (id : SessionId) (now : Instant) :
    LockStep s none none (s.heartbeat id now).2 := by
  unfold heartbeat
  split
  · exact (EntryChange.refl s).lockStep hs
  · next record hid =>
      let beaten : Store :=
        { s with sessions := s.sessions.insert id { record with lastHeartbeat := now } }
      have hsessions : beaten.sessions =
          s.sessions.insert id { record with lastHeartbeat := now } := rfl
      have hopen := isSessionOpen_insert hsessions
      have hwas : s.isSessionOpen id = true := by
        unfold isSessionOpen Table.contains
        simp only [hid]
        rfl
      refine LockStep.of_locks_eq hs rfl rfl (Nat.le_refl _) ?_ ?_
      · intro j hj
        exact (hopen j).2 (.inr hj)
      · intro j hj
        rcases (hopen j).1 hj with rfl | h
        · exact .inl hwas
        · exact .inl h

end Store

/-! ## Calls and actions -/

namespace Session

variable {s : Store} {id : SessionId}

theorem plain_perform_of_open (h : s.isSessionOpen id = true) (c : Call) :
    (plain id).perform c s = { answer := (answer id s c).1, state := (answer id s c).2 } := by
  simp only [plain, h, if_true]

theorem plain_perform_of_closed (h : ¬ s.isSessionOpen id = true) (c : Call) :
    (plain id).perform c s = { answer := .error (.sessionExpired id), state := s } := by
  simp only [plain, if_neg h]

theorem answer_lockStep (hs : s.LocksSound) (h : s.isSessionOpen id = true) (c : Call) :
    LockStep s (Exchange.granted? ⟨c, (answer id s c).1⟩)
      (Exchange.released? ⟨c, (answer id s c).1⟩) (answer id s c).2 := by
  cases c with
  | create stem data => exact (s.createSequential_change stem data (some id)).lockStep hs
  | read path => exact (EntryChange.refl s).lockStep hs
  | isPresent path => exact (EntryChange.refl s).lockStep hs
  | delete path => exact (s.delete_change path).lockStep hs
  | acquire path =>
      simp only [answer]
      rcases Store.acquire_cases hs.onlyHeld path id with ⟨e, hacquire⟩ | ⟨hfree, hacquire⟩
      · rw [hacquire, Exchange.granted?_error, Exchange.released?_error]
        exact (EntryChange.refl s).lockStep hs
      · simp only [hacquire]
        exact Store.granting_lockStep hs hfree h
  | release t =>
      simp only [answer, Store.release_eq hs.onlyHeld]
      split
      · next ht => exact Store.freeing_lockStep hs ht
      · exact (EntryChange.refl s).lockStep hs
  | watch path => exact (s.watch_change path).lockStep hs

/-- A call through a session is a step that grants and releases what its answer says. -/
theorem plain_lockStep (hs : s.LocksSound) (id : SessionId) (c : Call) :
    LockStep s (Exchange.granted? ⟨c, ((plain id).perform c s).answer⟩)
      (Exchange.released? ⟨c, ((plain id).perform c s).answer⟩)
      ((plain id).perform c s).state := by
  by_cases h : s.isSessionOpen id = true
  · simp only [plain_perform_of_open h]
    exact answer_lockStep hs h c
  · simp only [plain_perform_of_closed h, Exchange.granted?_error, Exchange.released?_error]
    exact (EntryChange.refl s).lockStep hs

end Session

namespace Service

theorem provision_change (s : Store) (scheduler : Scheduler) (count : Nat) (label : String) :
    EntryChange s (scheduler.provision s count label).state.2 := by
  refine scheduler.provision_preserves (P := EntryChange s) ?_ s count label (.refl s)
  intro s' path data h
  exact h.trans (s'.put_change path data)

theorem runOnce_change (s : Store) (scheduler : Scheduler) (perRequest : Nat) :
    EntryChange s (scheduler.runOnce s perRequest).state.2 := by
  refine scheduler.runOnce_preserves (P := EntryChange s) ?_ s perRequest (.refl s)
  intro s' path data h
  exact h.trans (s'.setData_change path data)

/-- Every action is a step of the lock table. -/
theorem act_lockStep (s : Service) (hs : s.store.LocksSound) (a : ServiceAction) :
    LockStep s.store (s.granted? a) (s.released? a) (s.act a).store := by
  -- the store is named apart from its clock, so that no clock is ever compared
  rcases s with ⟨store, clock, timeout⟩
  cases a with
  | openSession => exact Store.openSession_lockStep hs _ _
  | heartbeat id => exact Store.heartbeat_lockStep hs id _
  | closeSession id => exact Store.closeSession_lockStep hs id
  | expire => exact Store.closeAll_lockStep hs _
  | advance d => exact (EntryChange.refl store).lockStep hs
  | setTimeout d => exact (EntryChange.refl store).lockStep hs
  | call id c => exact Session.plain_lockStep hs id c
  | put path data => exact (store.put_change path data).lockStep hs
  | setData path data => exact (store.setData_change path data).lockStep hs
  | delete path => exact (store.delete_change path).lockStep hs
  | poll id => exact EntryChange.lockStep (s := store) hs ⟨rfl, rfl, rfl, rfl⟩
  | dropWatch id => exact EntryChange.lockStep (s := store) hs ⟨rfl, rfl, rfl, rfl⟩
  | provision scheduler count label =>
      exact (provision_change store scheduler count label).lockStep hs
  | runOnce scheduler perRequest => exact (runOnce_change store scheduler perRequest).lockStep hs

theorem act_locksSound (s : Service) (a : ServiceAction) (hs : s.store.LocksSound) :
    (s.act a).store.LocksSound :=
  (s.act_lockStep hs a).locksSound hs

end Service

theorem Store.locksSound_empty : Store.LocksSound {} where
  onlyHeld path lock h := by cases h
  fence_le t h := by cases h
  live t h := by cases h
  numbered id h := by cases h

/-- The invariant of the lock table holds of every store that a run leads to. -/
theorem Store.Reachable.locksSound {s : Store} (h : s.Reachable) : s.LocksSound :=
  h.induct locksSound_empty Service.act_locksSound

end FencedPool
