import FencedPool.Proofs.Service.Run

/-!
# Locks — what each action does to the lock table

The lock table of a store is the set of tokens whose grant is in force: a token is held when the
lock of its path is held by its session under its fence.  An action grants at most one token and
releases at most one, and beyond that a lock is lost only when the session of its holder ends.
`LockStep` says this once for all actions, and all that is known of locks over whole runs follows.

This file defines:

* `Store.grant?` and `Store.Holds` — the lock table;
* `Exchange` — a call with its answer, and the tokens that it grants and releases;
* `Store.LocksSound` — an invariant of the lock table;
* `LockStep` — what one action does to it, with `LockStep.locksSound`;
* `EntryChange` — a change that leaves locks and sessions alone.
-/

namespace FencedPool

open Std

namespace Store

/-- The grant that holds the lock of a path. -/
def grant? (s : Store) (path : String) : Option LockToken :=
  match s.locks.get? path with
  | some ⟨_, .held holder fence⟩ => some ⟨path, holder, fence⟩
  | _ => none

/-- Whether the grant of a token is in force. -/
def Holds (s : Store) (t : LockToken) : Prop := s.grant? t.path = some t

instance (s : Store) (t : LockToken) : Decidable (s.Holds t) :=
  inferInstanceAs (Decidable (s.grant? t.path = some t))

theorem path_of_grant? {s : Store} {path : String} {t : LockToken} (h : s.grant? path = some t) :
    t.path = path := by
  unfold grant? at h
  split at h
  · cases h
    rfl
  · cases h

theorem holds_of_grant? {s : Store} {path : String} {t : LockToken} (h : s.grant? path = some t) :
    s.Holds t := by
  have hp : t.path = path := path_of_grant? h
  unfold Holds
  simp only [hp]
  exact h

/-- Two tokens of one path cannot be in force together. -/
theorem Holds.unique {s : Store} {t u : LockToken} (ht : s.Holds t) (hu : s.Holds u)
    (h : t.path = u.path) : t = u := by
  unfold Holds at ht hu
  simp only [h, hu] at ht
  exact (Option.some.inj ht).symm

theorem grant?_eq_none_iff {s : Store} {path : String} :
    s.grant? path = none ↔ ∀ t, t.path = path → ¬ s.Holds t := by
  constructor
  · intro h t ht hold
    unfold Holds at hold
    simp only [ht, h] at hold
    cases hold
  · intro h
    cases hg : s.grant? path with
    | none => rfl
    | some t => exact absurd (holds_of_grant? hg) (h t (path_of_grant? hg))

/-- The lock table is determined by the tokens in force. -/
theorem grant?_eq_of_holds_iff {s s' : Store} {path : String}
    (h : ∀ t, t.path = path → (s'.Holds t ↔ s.Holds t)) : s'.grant? path = s.grant? path := by
  cases hg : s.grant? path with
  | none =>
      simp only [grant?_eq_none_iff] at hg ⊢
      intro t ht hold
      exact hg t ht ((h t ht).1 hold)
  | some t =>
      have hp : t.path = path := path_of_grant? hg
      have hold : s'.Holds t := (h t hp).2 (holds_of_grant? hg)
      unfold Holds at hold
      simp only [hp] at hold
      exact hold

theorem grant?_congr {s s' : Store} (h : s'.locks = s.locks) : s'.grant? = s.grant? := by
  funext path
  unfold grant?
  simp only [h]

theorem holds_congr {s s' : Store} (h : s'.locks = s.locks) (t : LockToken) :
    s'.Holds t ↔ s.Holds t := by
  unfold Holds
  simp only [grant?_congr h]

/-- Only held locks are kept, each under its own path. -/
def OnlyHeld (s : Store) : Prop :=
  ∀ path lock, s.locks.get? path = some lock → ∃ holder fence, lock = ⟨path, .held holder fence⟩

theorem OnlyHeld.holds_iff {s : Store} (hs : s.OnlyHeld) {t : LockToken} :
    s.Holds t ↔ s.locks.get? t.path = some ⟨t.path, .held t.holder t.fence⟩ := by
  unfold Holds grant?
  constructor
  · intro h
    cases hl : s.locks.get? t.path with
    | none => simp [hl] at h
    | some lock =>
        rcases hs _ _ hl with ⟨holder, fence, rfl⟩
        simp only [hl, Option.some.injEq] at h
        rw [← h]
  · intro h
    simp [h]

theorem OnlyHeld.grant?_eq_none_iff {s : Store} (hs : s.OnlyHeld) {path : String} :
    s.grant? path = none ↔ s.locks.get? path = none := by
  unfold grant?
  cases hl : s.locks.get? path with
  | none => simp
  | some lock =>
      rcases hs _ _ hl with ⟨holder, fence, rfl⟩
      simp

/-- What holds of the lock table of every store that a run leads to. -/
structure LocksSound (s : Store) : Prop where
  onlyHeld : s.OnlyHeld
  fence_le : ∀ t, s.Holds t → t.fence ≤ s.grants
  live : ∀ t, s.Holds t → s.isSessionOpen t.holder = true
  numbered : ∀ id, s.isSessionOpen id = true → id.number ≤ s.opened

end Store

/-! ## Exchanges -/

/-- A call and its answer. -/
structure Exchange where
  call : Call
  answer : Except StoreError call.Answer

namespace Exchange

/-- The token that was granted. -/
def granted? : Exchange → Option LockToken
  | ⟨.acquire _, .ok t⟩ => some t
  | _ => none

/-- The token that was released. -/
def released? : Exchange → Option LockToken
  | ⟨.release t, .ok ()⟩ => some t
  | _ => none

/-- The token whose release was refused, and why. -/
def retained? : Exchange → Option (LockToken × StoreError)
  | ⟨.release t, .error e⟩ => some (t, e)
  | _ => none

@[simp] theorem granted?_error (c : Call) (e : StoreError) : granted? ⟨c, .error e⟩ = none := by
  cases c <;> rfl

@[simp] theorem released?_error (c : Call) (e : StoreError) : released? ⟨c, .error e⟩ = none := by
  cases c <;> rfl

end Exchange

namespace Service

/-- The token that an action grants. -/
def granted? (s : Service) : ServiceAction → Option LockToken
  | .call id c => Exchange.granted? ⟨c, (s.perform id c).1⟩
  | _ => none

/-- The token that an action releases. -/
def released? (s : Service) : ServiceAction → Option LockToken
  | .call id c => Exchange.released? ⟨c, (s.perform id c).1⟩
  | _ => none

end Service

/-! ## Steps of the lock table -/

/-- How the lock table and the sessions change when at most one token is granted and at most one is
released. -/
structure LockStep (s : Store) (granted released : Option LockToken) (s' : Store) : Prop where
  onlyHeld : s'.OnlyHeld
  holds_iff : ∀ t, s'.Holds t ↔
    granted = some t ∨ s.Holds t ∧ released ≠ some t ∧ s'.isSessionOpen t.holder = true
  fresh : ∀ t, granted = some t →
    t.fence = s.grants + 1 ∧ s.grant? t.path = none ∧ s'.isSessionOpen t.holder = true
  held : ∀ t, released = some t → s.Holds t
  grants : s'.grants = s.grants + granted.toList.length
  opened : s.opened ≤ s'.opened
  reopened : ∀ id, s'.isSessionOpen id = true →
    s.isSessionOpen id = true ∨ s.opened < id.number ∧ id.number ≤ s'.opened

namespace LockStep

variable {s s' s'' : Store} {granted released : Option LockToken}

theorem grants_le (h : LockStep s granted released s') : s.grants ≤ s'.grants := by
  simp only [h.grants]
  exact Nat.le_add_right ..

theorem locksSound (hs : s.LocksSound) (h : LockStep s granted released s') : s'.LocksSound where
  onlyHeld := h.onlyHeld
  fence_le t ht := by
    -- a new token has the next fence, and older ones were below the counter already
    rcases (h.holds_iff t).1 ht with hg | ⟨hold, -, -⟩
    · have hf := (h.fresh t hg).1
      have hc := h.grants
      simp only [hg, Option.toList_some, List.length_singleton] at hc
      omega
    · calc t.fence
          ≤ s.grants := hs.fence_le t hold
        _ ≤ s'.grants := h.grants_le
  live t ht := by
    rcases (h.holds_iff t).1 ht with hg | ⟨-, -, hopen⟩
    · exact (h.fresh t hg).2.2
    · exact hopen
  numbered id hid := by
    rcases h.reopened id hid with hopen | ⟨-, hle⟩
    · calc id.number
          ≤ s.opened := hs.numbered id hopen
        _ ≤ s'.opened := h.opened
    · exact hle

/-- Where locks stay as they are and no session ends, the lock table stays as it is. -/
theorem of_locks_eq (hs : s.LocksSound) (hlocks : s'.locks = s.locks)
    (hgrants : s'.grants = s.grants) (hopened : s.opened ≤ s'.opened)
    (hkept : ∀ id, s.isSessionOpen id = true → s'.isSessionOpen id = true)
    (hnew : ∀ id, s'.isSessionOpen id = true →
      s.isSessionOpen id = true ∨ s.opened < id.number ∧ id.number ≤ s'.opened) :
    LockStep s none none s' where
  onlyHeld := by
    unfold Store.OnlyHeld
    simp only [hlocks]
    exact hs.onlyHeld
  holds_iff t := by
    simp only [Store.holds_congr hlocks]
    constructor
    · intro hold
      exact .inr ⟨hold, by simp, hkept _ (hs.live t hold)⟩
    · rintro (hg | ⟨hold, -, -⟩)
      · cases hg
      · exact hold
  fresh t hg := by cases hg
  held t hr := by cases hr
  grants := hgrants
  opened := hopened
  reopened := hnew

/-- Steps without grants and releases compose. -/
theorem trans (hs : s.LocksSound) (h₁ : LockStep s none none s') (h₂ : LockStep s' none none s'') :
    LockStep s none none s'' where
  onlyHeld := h₂.onlyHeld
  holds_iff t := by
    simp only [h₂.holds_iff, h₁.holds_iff]
    constructor
    · rintro (hg | ⟨hg | ⟨hold, -, -⟩, -, hopen⟩)
      · cases hg
      · cases hg
      · exact .inr ⟨hold, by simp, hopen⟩
    · rintro (hg | ⟨hold, -, hopen⟩)
      · cases hg
      · -- a holder's number is no new one, so its session was open all along
        have hnum := hs.numbered _ (hs.live t hold)
        have hopen' : s'.isSessionOpen t.holder = true := by
          rcases h₂.reopened _ hopen with h | ⟨hlt, -⟩
          · exact h
          · have := h₁.opened
            omega
        exact .inr ⟨.inr ⟨hold, by simp, hopen'⟩, by simp, hopen⟩
  fresh t hg := by cases hg
  held t hr := by cases hr
  grants := by simp only [h₂.grants, h₁.grants]; rfl
  opened := Nat.le_trans h₁.opened h₂.opened
  reopened id hid := by
    have h₁' := h₁.opened
    have h₂' := h₂.opened
    rcases h₂.reopened id hid with h | ⟨hlt, hle⟩
    · rcases h₁.reopened id h with h | ⟨hlt, hle⟩
      · exact .inl h
      · exact .inr ⟨hlt, by omega⟩
    · exact .inr ⟨by omega, hle⟩

end LockStep

/-! ## Changes of entries -/

/-- A change that leaves locks and sessions alone. -/
structure EntryChange (s s' : Store) : Prop where
  locks : s'.locks = s.locks
  sessions : s'.sessions = s.sessions
  opened : s'.opened = s.opened
  grants : s'.grants = s.grants

namespace EntryChange

variable {s s' s'' : Store}

theorem refl (s : Store) : EntryChange s s := ⟨rfl, rfl, rfl, rfl⟩

theorem trans (h₁ : EntryChange s s') (h₂ : EntryChange s' s'') : EntryChange s s'' :=
  ⟨h₂.locks.trans h₁.locks, h₂.sessions.trans h₁.sessions, h₂.opened.trans h₁.opened,
    h₂.grants.trans h₁.grants⟩

theorem isSessionOpen (h : EntryChange s s') (id : SessionId) :
    s'.isSessionOpen id = s.isSessionOpen id := by
  unfold Store.isSessionOpen
  simp only [h.sessions]

theorem lockStep (hs : s.LocksSound) (h : EntryChange s s') : LockStep s none none s' := by
  refine LockStep.of_locks_eq hs h.locks h.grants (Nat.le_of_eq h.opened.symm) ?_ ?_
  · intro id hid
    simp only [h.isSessionOpen]
    exact hid
  · intro id hid
    simp only [h.isSessionOpen] at hid
    exact .inl hid

end EntryChange

namespace Store

theorem write_change (s : Store) (path : String) (entry : Entry) (event : WatchEvent) :
    EntryChange s (s.write path entry event) := ⟨rfl, rfl, rfl, rfl⟩

theorem remove_change (s : Store) (path : String) : EntryChange s (s.remove path) :=
  ⟨rfl, rfl, rfl, rfl⟩

theorem removeAll_change (s : Store) (paths : List String) :
    EntryChange s (paths.foldl remove s) := by
  induction paths generalizing s with
  | nil => exact .refl s
  | cons path rest ih => exact (s.remove_change path).trans (ih (s.remove path))

theorem ensureParents_change (s : Store) (paths : List String) :
    EntryChange s (s.ensureParents paths).2 := by
  induction paths generalizing s with
  | nil => exact .refl s
  | cons path rest ih =>
      simp only [ensureParents]
      split
      · exact (s.write_change path _ _).trans (ih _)
      · split
        · exact .refl s
        · exact ih s

theorem checkingPath_change {α : Type} {s : Store} {path : String} {next : Outcome α}
    (h : EntryChange s next.2) : EntryChange s (s.checkingPath path next).2 := by
  unfold checkingPath
  split
  · exact h
  · exact .refl s

theorem belowParents_change {α : Type} {s : Store} {path : String} {next : Store → Outcome α}
    (h : ∀ s', EntryChange s' (next s').2) : EntryChange s (s.belowParents path next).2 := by
  have hp := s.ensureParents_change (Path.ancestors path)
  unfold belowParents
  split
  · next he => simpa [he] using hp
  · next s' he =>
      have hs' : EntryChange s s' := by simpa [he] using hp
      exact hs'.trans (h s')

theorem put_change (s : Store) (path : String) (data : Bytes) :
    EntryChange s (s.put path data).2 := by
  apply checkingPath_change
  apply belowParents_change
  intro s'
  split
  · exact s'.write_change _ _ _
  · exact s'.write_change _ _ _

theorem setData_change (s : Store) (path : String) (data : Bytes) :
    EntryChange s (s.setData path data).2 := by
  apply checkingPath_change
  split
  · exact s.write_change _ _ _
  · exact .refl s

theorem createSequential_change (s : Store) (stem : String) (data : Bytes)
    (owner : Option SessionId) : EntryChange s (s.createSequential stem data owner).2 := by
  unfold createSequential
  split
  · exact .refl s
  · next parent _ =>
      apply checkingPath_change
      apply belowParents_change
      intro s'
      -- the sequence number is used up whatever comes of the entry
      let next := (s'.sequences.get? parent).getD 0 + 1
      have hnumber : EntryChange s' { s' with sequences := s'.sequences.insert parent next } :=
        ⟨rfl, rfl, rfl, rfl⟩
      apply hnumber.trans
      apply checkingPath_change
      split
      · exact .refl _
      · exact write_change _ _ _ _

theorem delete_change (s : Store) (path : String) : EntryChange s (s.delete path).2 := by
  apply checkingPath_change
  split
  · exact .refl s
  · split
    · exact .refl s
    · exact s.remove_change path

theorem watch_change (s : Store) (path : String) : EntryChange s (s.watch path).2 := by
  apply checkingPath_change
  exact ⟨rfl, rfl, rfl, rfl⟩

end Store

end FencedPool
