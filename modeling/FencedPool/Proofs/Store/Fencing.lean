import FencedPool.Proofs.Store.LockSteps

/-!
# Fencing — what a whole run does to the lock table

Every grant takes the next fence of the store, whatever path and session it is for, so no two grants
of a run have the same token.  Hence a token that has been released, or whose session has ended, can
never come into force again: after a run exactly those tokens are in force that were granted, have
not been released, and belong to a session that is still open.

This file defines:

* `Service.grantsAlong` and `Service.releasesAlong` — the tokens that a run grants and releases;
* `Service.Ends` — an action that ends a grant.

The main statements are `Service.after_holds_iff` and `fencing`.
-/

namespace FencedPool

namespace Service

/-- The tokens that a run grants, in the order of the grants. -/
def grantsAlong (s : Service) : List ServiceAction → List LockToken
  | [] => []
  | a :: rest => (s.granted? a).toList ++ (s.act a).grantsAlong rest

/-- The tokens that a run releases, in the order of the releases. -/
def releasesAlong (s : Service) : List ServiceAction → List LockToken
  | [] => []
  | a :: rest => (s.released? a).toList ++ (s.act a).releasesAlong rest

variable {s : Service}

theorem grantsAlong_append (s : Service) (first rest : List ServiceAction) :
    s.grantsAlong (first ++ rest) = s.grantsAlong first ++ (s.after first).grantsAlong rest := by
  induction first generalizing s with
  | nil => rfl
  | cons a first ih => simp [grantsAlong, ih]

theorem releasesAlong_append (s : Service) (first rest : List ServiceAction) :
    s.releasesAlong (first ++ rest) =
      s.releasesAlong first ++ (s.after first).releasesAlong rest := by
  induction first generalizing s with
  | nil => rfl
  | cons a first ih => simp [releasesAlong, ih]

theorem after_locksSound (hs : s.store.LocksSound) (actions : List ServiceAction) :
    (s.after actions).store.LocksSound :=
  after_preserves act_locksSound s actions hs

/-! ## Fences -/

theorem granted?_fence (hs : s.store.LocksSound) (a : ServiceAction) :
    (s.granted? a).toList.map (·.fence) =
      List.range' (s.store.grants + 1) (s.granted? a).toList.length := by
  cases hg : s.granted? a with
  | none => rfl
  | some t =>
      have hf := ((s.act_lockStep hs a).fresh t hg).1
      simp [hf]

/-- The fences of a run are the numbers that follow the counter, without a gap. -/
theorem fences_grantsAlong (hs : s.store.LocksSound) (actions : List ServiceAction) :
    (s.grantsAlong actions).map (·.fence) =
      List.range' (s.store.grants + 1) (s.grantsAlong actions).length := by
  induction actions generalizing s with
  | nil => rfl
  | cons a rest ih =>
      have hstep := (s.act_lockStep hs a).grants
      -- the counter goes up by one with a grant and not at all without
      have hnext : (s.act a).store.grants + 1 =
          s.store.grants + 1 + (s.granted? a).toList.length := by omega
      rw [grantsAlong, List.map_append, granted?_fence hs, ih (act_locksSound s a hs), hnext,
        List.length_append, List.range'_append_1]

theorem lt_fence_of_mem_grantsAlong (hs : s.store.LocksSound) {actions : List ServiceAction}
    {t : LockToken} (ht : t ∈ s.grantsAlong actions) : s.store.grants < t.fence := by
  have hf : t.fence ∈ (s.grantsAlong actions).map (·.fence) := List.mem_map_of_mem ht
  simp only [fences_grantsAlong hs, List.mem_range'_1] at hf
  omega

/-! ## Sessions -/

theorem opened_le_after (hs : s.store.LocksSound) (actions : List ServiceAction) :
    s.store.opened ≤ (s.after actions).store.opened := by
  induction actions generalizing s with
  | nil => exact Nat.le_refl _
  | cons a rest ih =>
      calc s.store.opened
          ≤ (s.act a).store.opened := (s.act_lockStep hs a).opened
        _ ≤ ((s.act a).after rest).store.opened := ih (act_locksSound s a hs)

/-- A session that is open after a run was open before it or has got its number from it. -/
theorem reopened_after (hs : s.store.LocksSound) {actions : List ServiceAction}
    {id : SessionId} (h : (s.after actions).store.isSessionOpen id = true) :
    s.store.isSessionOpen id = true ∨ s.store.opened < id.number := by
  induction actions generalizing s with
  | nil => exact .inl h
  | cons a rest ih =>
      have hstep := s.act_lockStep hs a
      rcases ih (act_locksSound s a hs) h with hopen | hlt
      · rcases hstep.reopened id hopen with hbefore | ⟨hlt, -⟩
        · exact .inl hbefore
        · exact .inr hlt
      · exact .inr (Nat.lt_of_le_of_lt hstep.opened hlt)

/-- A session that has ended is never opened again. -/
theorem isSessionOpen_of_after (hs : s.store.LocksSound) {actions : List ServiceAction}
    {id : SessionId} (hid : id.number ≤ s.store.opened)
    (h : (s.after actions).store.isSessionOpen id = true) :
    s.store.isSessionOpen id = true := by
  rcases reopened_after hs h with hopen | hlt
  · exact hopen
  · exact absurd hid (Nat.not_le_of_lt hlt)

theorem holder_le_of_mem_grantsAlong (hs : s.store.LocksSound) {actions : List ServiceAction}
    {t : LockToken} (ht : t ∈ s.grantsAlong actions) :
    t.holder.number ≤ (s.after actions).store.opened := by
  induction actions generalizing s with
  | nil => cases ht
  | cons a rest ih =>
      have hnext := act_locksSound s a hs
      rcases List.mem_append.1 ht with hg | hrest
      · have hopen := ((s.act_lockStep hs a).fresh t (Option.mem_toList.1 hg)).2.2
        calc t.holder.number
            ≤ (s.act a).store.opened := hnext.numbered _ hopen
          _ ≤ ((s.act a).after rest).store.opened := opened_le_after hnext rest
      · exact ih hnext hrest

/-! ## Tokens in force -/

/-- After a run those tokens are in force that were so before or have been granted, and that have
not been released nor lost their session. -/
theorem after_holds_iff (hs : s.store.LocksSound) (actions : List ServiceAction) (t : LockToken) :
    (s.after actions).store.Holds t ↔
      (s.store.Holds t ∨ t ∈ s.grantsAlong actions) ∧ t ∉ s.releasesAlong actions ∧
        (s.after actions).store.isSessionOpen t.holder = true := by
  induction actions generalizing s with
  | nil =>
      constructor
      · intro hold
        exact ⟨.inl hold, List.not_mem_nil, hs.live t hold⟩
      · rintro ⟨hold | hg, -, -⟩
        · exact hold
        · cases hg
  | cons a rest ih =>
      have hstep := s.act_lockStep hs a
      have hnext := act_locksSound s a hs
      simp only [after_cons, grantsAlong, releasesAlong, List.mem_append, Option.mem_toList]
      simp only [ih hnext, hstep.holds_iff]
      constructor
      · rintro ⟨(hg | ⟨hold, hr, -⟩) | hrest, hrel, hopen⟩
        · refine ⟨.inr (.inl hg), ?_, hopen⟩
          rintro (hr | hr)
          · -- a token that is granted was not in force, so it is not the one released
            have hfree := (hstep.fresh t hg).2.1
            exact Store.grant?_eq_none_iff.1 hfree t rfl (hstep.held t hr)
          · exact hrel hr
        · exact ⟨.inl hold, not_or.2 ⟨hr, hrel⟩, hopen⟩
        · refine ⟨.inr (.inr hrest), ?_, hopen⟩
          rintro (hr | hr)
          · -- a later grant has a fence that no token in force has yet
            have hlt := lt_fence_of_mem_grantsAlong hnext hrest
            have hle := hs.fence_le t (hstep.held t hr)
            have hmono := hstep.grants_le
            omega
          · exact hrel hr
      · rintro ⟨hold | hg | hrest, hrel, hopen⟩
        · rcases not_or.1 hrel with ⟨hr, hrel⟩
          have hnum := Nat.le_trans (hs.numbered _ (hs.live t hold)) hstep.opened
          have hopen' := isSessionOpen_of_after hnext hnum hopen
          exact ⟨.inl (.inr ⟨hold, hr, hopen'⟩), hrel, hopen⟩
        · exact ⟨.inl (.inl hg), (not_or.1 hrel).2, hopen⟩
        · exact ⟨.inr hrest, (not_or.1 hrel).2, hopen⟩

/-! ## Ends of grants -/

/-- Whether an action ends the grant of a token: it releases the token, or the session of the holder
is not open after it. -/
def Ends (s : Service) (a : ServiceAction) (t : LockToken) : Prop :=
  s.released? a = some t ∨ (s.act a).store.isSessionOpen t.holder = false

instance (s : Service) (a : ServiceAction) (t : LockToken) : Decidable (s.Ends a t) :=
  inferInstanceAs (Decidable (_ ∨ _))

/-- A granted token whose grant has ended is not in force for the rest of the run. -/
theorem not_holds_of_ends (hs : s.store.LocksSound) {first rest : List ServiceAction}
    {a : ServiceAction} {t : LockToken} (ht : t ∈ s.grantsAlong first)
    (hend : (s.after first).Ends a t) :
    ¬ (s.after (first ++ a :: rest)).store.Holds t := by
  intro hold
  rcases (after_holds_iff hs _ t).1 hold with ⟨-, hrel, hopen⟩
  simp only [releasesAlong_append, releasesAlong] at hrel
  simp only [after_append, after_cons] at hopen
  -- a release stays on record, and a session that has ended stays so
  rcases hend with hr | hclosed
  · exact hrel (by simp [hr])
  · have hfirst := after_locksSound hs first
    have hstep := (s.after first).act_lockStep hfirst a
    have hnum : t.holder.number ≤ ((s.after first).act a).store.opened := by
      calc t.holder.number
          ≤ (s.after first).store.opened := holder_le_of_mem_grantsAlong hs ht
        _ ≤ ((s.after first).act a).store.opened := hstep.opened
    simp only [isSessionOpen_of_after (act_locksSound _ a hfirst) hnum hopen] at hclosed
    cases hclosed

theorem perform_release (hs : s.store.LocksSound) {id : SessionId}
    (hopen : s.store.isSessionOpen id = true) (t : LockToken) :
    s.perform id (.release t) =
      if s.store.Holds t then (.ok (), { s with store := s.store.freeing t.path })
      else (.error (.lockNotHeld t.path), s) := by
  unfold perform
  simp only [Session.plain_perform_of_open hopen]
  simp only [Session.answer, Store.release_eq hs.onlyHeld]
  split
  · rfl
  · rfl

end Service

/-- Fencing over whole runs.  Along any run from an empty store the fences of the granted tokens
strictly increase, over all paths and sessions.  After any run an open session can release exactly
the tokens in force.  And once a granted token has been released or the session of its holder has
ended, releasing it is refused for the rest of the run and changes nothing. -/
theorem fencing (clock : Clock) (timeout : Duration) (actions : List ServiceAction) :
    let start := Service.fresh clock timeout
    let s := start.after actions
    ((start.grantsAlong actions).map (·.fence)).Pairwise (· < ·) ∧
      (∀ id t, s.store.isSessionOpen id = true →
        ((s.perform id (.release t)).1 = .ok () ↔ s.store.grant? t.path = some t)) ∧
      ∀ first a rest t, actions = first ++ a :: rest → t ∈ start.grantsAlong first →
        (start.after first).Ends a t →
          ∀ id, s.store.isSessionOpen id = true →
            s.perform id (.release t) = (.error (.lockNotHeld t.path), s) := by
  intro start s
  have hstart : start.store.LocksSound := Store.locksSound_empty
  have hs : s.store.LocksSound := Service.after_locksSound hstart actions
  refine ⟨?_, ?_, ?_⟩
  · simp only [Service.fences_grantsAlong hstart]
    exact List.pairwise_lt_range'
  · intro id t hopen
    simp only [Service.perform_release hs hopen]
    change _ ↔ s.store.Holds t
    split
    · next hold => simp [hold]
    · next hold => simp [hold]
  · intro first a rest t hsplit hgranted hend id hopen
    have hnot : ¬ s.store.Holds t := by
      change ¬ (start.after actions).store.Holds t
      simp only [hsplit]
      exact Service.not_holds_of_ends hstart hgranted hend
    simp only [Service.perform_release hs hopen, if_neg hnot]

/-- A session takes the lock of an entry, gives it back and takes it again. -/
def regranting : List ServiceAction :=
  [.openSession, .put "/node" [], .call ⟨1⟩ (.acquire "/node"),
    .call ⟨1⟩ (.release ⟨"/node", ⟨1⟩, 1⟩), .call ⟨1⟩ (.acquire "/node")]

/-- The first of two tokens of one session and one path stays worthless. -/
theorem fencing_regranting :
    ((Service.fresh {} .halfMinute).after regranting).store.grant? "/node" =
        some ⟨"/node", ⟨1⟩, 2⟩ ∧
      ((Service.fresh {} .halfMinute).after regranting).store.isSessionOpen ⟨1⟩ = true ∧
      ((Service.fresh {} .halfMinute).after regranting).perform ⟨1⟩
          (.release ⟨"/node", ⟨1⟩, 1⟩) =
        (.error (.lockNotHeld "/node"), (Service.fresh {} .halfMinute).after regranting) :=
  ⟨by decide, by decide,
    (fencing {} .halfMinute regranting).2.2
      [.openSession, .put "/node" [], .call ⟨1⟩ (.acquire "/node")]
      (.call ⟨1⟩ (.release ⟨"/node", ⟨1⟩, 1⟩)) [.call ⟨1⟩ (.acquire "/node")] ⟨"/node", ⟨1⟩, 1⟩
      rfl (by decide) (by decide) ⟨1⟩ (by decide)⟩

end FencedPool
