import FencedPool.Proofs.Store.Owners

/-!
# Changes — all that an operation on the tree can do

An operation is refused and changes nothing, or it changes one entry, next to parents that it
creates.  Missing parents are only created below a path where nothing stands yet, because in a tree
without gaps an entry has all its parents.  So parents come together with a new entry or not at all.

This file defines `Store.Refused`.  For each operation there is one statement that lists what it can
do: `put_cases`, `setData_cases`, `delete_cases`, `create_cases`, `watch_cases` and
`heartbeat_cases`.
-/

namespace FencedPool

open FencedPool.Path

/-- Whether an error says that an entry stands in the way. -/
def StoreError.isNodeExists : StoreError → Bool
  | .nodeExists _ => true
  | _ => false

namespace Store

variable {s : Store} {path : String}

/-! ## Parents -/

theorem not_mem_ancestors (path : String) : path ∉ ancestors path := by
  intro hmem
  exact IsAbove.irrefl path (mem_ancestors_iff.1 hmem).1

theorem withParents_of_present {paths : List String}
    (h : ∀ p ∈ paths, s.entries.contains p = true) : s.withParents paths = s := by
  induction paths with
  | nil => rfl
  | cons path rest ih =>
      rcases List.forall_mem_cons.1 h with ⟨hpath, hrest⟩
      unfold withParents
      rw [if_pos hpath]
      exact ih hrest

/-- Above an entry nothing is missing. -/
theorem Rooted.withParents_eq (hs : s.Rooted) {entry : Entry}
    (hentry : s.entries.get? path = some entry) : s.withParents (ancestors path) = s := by
  apply withParents_of_present
  intro above habove
  rcases hs.parents path entry hentry above (mem_ancestors_iff.1 habove).1 with ⟨parent, hparent, -⟩
  exact contains_iff.2 ⟨parent, hparent⟩

/-! ## Writing and deleting -/

/-- An operation was refused, not because an entry stands in its way, and has changed nothing. -/
def Refused {α : Type} (s : Store) (outcome : Outcome α) : Prop :=
  ∃ e, e.isNodeExists = false ∧ outcome = (.error e, s)

theorem put_cases (hs : s.Rooted) (path : String) (data : Bytes) :
    s.Refused (s.put path data) ∨
      (∃ entry, s.entries.get? path = some entry ∧
        s.put path data = (.ok (), s.write path { entry with data := data } (.dataChanged path))) ∨
      s.entries.get? path = none ∧
        s.put path data = (.ok (), (s.withParents (ancestors path)).write path { data := data }
          (.created path)) := by
  unfold put checkingPath
  by_cases hpath : isEntryPath path = true
  · rw [if_pos hpath, belowParents_eq hs]
    cases hblocked : s.blocked? path with
    | some above => exact .inl ⟨_, rfl, rfl⟩
    | none =>
        dsimp only
        rw [get?_withParents_of_not_mem (not_mem_ancestors path)]
        cases hentry : s.entries.get? path with
        | none => exact .inr (.inr ⟨rfl, rfl⟩)
        | some entry =>
            rw [hs.withParents_eq hentry]
            exact .inr (.inl ⟨entry, rfl, rfl⟩)
  · rw [if_neg hpath]
    exact .inl ⟨_, rfl, rfl⟩

theorem setData_cases (s : Store) (path : String) (data : Bytes) :
    s.Refused (s.setData path data) ∨
      ∃ entry, s.entries.get? path = some entry ∧
        s.setData path data =
          (.ok (), s.write path { entry with data := data } (.dataChanged path)) := by
  unfold setData checkingPath
  split
  · cases hentry : s.entries.get? path with
    | none => exact .inl ⟨_, rfl, rfl⟩
    | some entry => exact .inr ⟨entry, rfl, rfl⟩
  · exact .inl ⟨_, rfl, rfl⟩

theorem delete_cases (s : Store) (path : String) :
    s.Refused (s.delete path) ∨
      s.entries.contains path = true ∧ s.delete path = (.ok (), s.remove path) := by
  unfold delete checkingPath
  split
  · by_cases hpresent : s.entries.contains path = true
    · simp only [hpresent, Bool.not_true, Bool.false_eq_true, if_false]
      split
      · exact .inl ⟨_, rfl, rfl⟩
      · exact .inr ⟨trivial, rfl⟩
    · simp only [hpresent, Bool.not_false, if_true]
      exact .inl ⟨_, rfl, rfl⟩
  · exact .inl ⟨_, rfl, rfl⟩

/-! ## Watches and sessions -/

theorem watch_cases (s : Store) (path : String) :
    s.Refused (s.watch path) ∨
      s.watch path =
        (.ok s.watches.length, { s with watches := s.watches ++ [{ path := path }] }) := by
  unfold watch checkingPath
  split
  · exact .inr rfl
  · exact .inl ⟨_, rfl, rfl⟩

theorem heartbeat_cases (s : Store) (id : SessionId) (now : Instant) :
    s.Refused (s.heartbeat id now) ∨
      ∃ sessions, s.heartbeat id now = (.ok (), { s with sessions := sessions }) := by
  unfold heartbeat
  split
  · exact .inl ⟨_, rfl, rfl⟩
  · exact .inr ⟨_, rfl⟩

theorem heartbeat_entries (s : Store) (id : SessionId) (now : Instant) :
    (s.heartbeat id now).2.entries = s.entries := by
  rcases s.heartbeat_cases id now with ⟨e, -, hbeat⟩ | ⟨sessions, hbeat⟩
  · rw [hbeat]
  · rw [hbeat]

/-! ## Creating below a parent -/

/-- A sequential creation that finds an entry in its way has used up a number and changed nothing
else.  One that succeeds creates the parents that are missing and the entry. -/
theorem create_cases (hs : s.Rooted) (stem : String) (data : Bytes) (owner : Option SessionId) :
    s.Refused (s.createSequential stem data owner) ∨
      ∃ parent, parent? stem = some parent ∧ isEntryPath parent = true ∧
        let path := s.nextPath parent stem
        (s.entries.contains path = true ∧
          s.createSequential stem data owner = (.error (.nodeExists path), s.numbering parent)) ∨
        s.entries.get? path = none ∧ path ∉ ancestors stem ∧
          s.createSequential stem data owner =
            (.ok path, ((s.withParents (ancestors stem)).numbering parent).write path ⟨data, owner⟩
              (.created path)) := by
  rcases createSequential_cases hs stem data owner with
    ⟨reason, hrefused⟩ | ⟨parent, hstem, hentry, -, hcreate⟩
  · exact .inl ⟨_, rfl, hrefused⟩
  · refine .inr ⟨parent, hstem, hentry, ?_⟩
    intro path
    dsimp only at hcreate
    cases hfound : s.entries.get? path with
    | none =>
        have habsent : ¬ s.entries.contains path = true := by simp [Table.contains, hfound]
        exact .inr ⟨rfl, nextPath_not_mem_ancestors hentry hstem, hcreate.trans (if_neg habsent)⟩
    | some entry =>
        have habove := (isEntryPath_nextPath (s := s) hentry hstem).2
        have hparents : s.withParents (ancestors stem) = s := by
          apply withParents_of_present
          intro above hmem
          have habovePath := (habove above).2 (mem_ancestors_iff.1 hmem).1
          rcases hs.parents path entry hfound above habovePath with ⟨e, he, -⟩
          exact contains_iff.2 ⟨e, he⟩
        have hpresent : s.entries.contains path = true := contains_iff.2 ⟨entry, hfound⟩
        refine .inl ⟨hpresent, ?_⟩
        rw [hcreate, hparents, if_pos hpresent]

end Store

end FencedPool
