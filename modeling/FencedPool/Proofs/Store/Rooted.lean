import FencedPool.Proofs.Store.Entries
import FencedPool.Proofs.Store.Fencing
import FencedPool.Proofs.Text.Digits

/-!
# Rooted — changes of entries leave no gap in the tree

Writing an entry keeps the tree without gaps when what stands above it is persistent, and, if a
session owns the entry, when nothing stands below it.  Removing one does when nothing stands below
it.  Removing ephemeral entries never leaves a gap, since nothing stands below them.

This file defines:

* `Store.numbering` and `Store.nextPath` — what a sequential creation uses up, and where it creates;
* `Store.createSequential_cases` — what a sequential creation does in a tree without gaps.

The main statements are `put_rooted`, `setData_rooted`, `delete_rooted` and
`createSequential_rooted`, and `Rooted.of_kept` for entries that go with their sessions.
-/

namespace FencedPool

open FencedPool.Path

namespace Store

variable {s s' : Store} {path : String} {entry : Entry}

/-! ## One entry -/

theorem Rooted.write (hs : s.Rooted) (event : WatchEvent) (hpath : isEntryPath path = true)
    (hparents : ∀ above, IsAbove above path →
      ∃ parent, s.entries.get? above = some parent ∧ parent.owner = none)
    (hleaf : entry.owner = none ∨ ∀ below, s.entries.contains below = true → ¬ IsAbove path below) :
    (s.write path entry event).Rooted where
  paths p e he := by
    rw [get?_write] at he
    split at he
    · next hp => rwa [hp]
    · exact hs.paths p e he
  parents p e he above habove := by
    rw [get?_write] at he
    have hold : ∃ parent, s.entries.get? above = some parent ∧ parent.owner = none := by
      split at he
      · next hp => exact hparents above (hp ▸ habove)
      · exact hs.parents p e he above habove
    rw [get?_write]
    split
    · next hwritten =>
        -- the entry that was written has something below it, so no session owns it
        refine ⟨entry, rfl, ?_⟩
        rcases hleaf with hnone | hleaf
        · exact hnone
        · split at he
          · next hp =>
              rw [hp, hwritten] at habove
              exact absurd habove (IsAbove.irrefl path)
          · exact absurd (hwritten ▸ habove) (hleaf p (contains_iff.2 ⟨e, he⟩))
    · exact hold

theorem Rooted.remove (hs : s.Rooted)
    (hleaf : ∀ below, s.entries.contains below = true → ¬ IsAbove path below) :
    (s.remove path).Rooted where
  paths p e he := by
    rw [get?_remove] at he
    split at he
    · cases he
    · exact hs.paths p e he
  parents p e he above habove := by
    rw [get?_remove] at he ⊢
    split at he
    · cases he
    · split
      · next hremoved => exact absurd (hremoved ▸ habove) (hleaf p (contains_iff.2 ⟨e, he⟩))
      · exact hs.parents p e he above habove

/-- Only the root is left out of the ancestors of a path. -/
theorem mem_ancestors_of_isAbove (hpath : isEntryPath path = true) {above : String}
    (habove : IsAbove above path) : above ∈ ancestors path := by
  refine mem_ancestors_iff.2 ⟨habove, ?_⟩
  exact ne_root_of_isEntryPath ((isAbove_iff_names hpath).1 habove).1

theorem Rooted.withParents (hs : s.Rooted) (hfree : s.blocked? path = none)
    (hpaths : ∀ above ∈ ancestors path, isEntryPath above = true) :
    (s.withParents (ancestors path)).Rooted where
  paths p e he := by
    rw [get?_withParents] at he
    rcases Option.or_eq_some_iff.1 he with hold | ⟨-, hnew⟩
    · exact hs.paths p e hold
    · split at hnew
      · next hp => exact hpaths p hp
      · cases hnew
  parents p e he above habove := by
    rw [get?_withParents] at he
    rcases Option.or_eq_some_iff.1 he with hold | ⟨-, hnew⟩
    · rcases hs.parents p e hold above habove with ⟨parent, hparent, hnone⟩
      exact ⟨parent, by rw [get?_withParents, hparent]; rfl, hnone⟩
    · split at hnew
      · next hp =>
          -- what stands above a parent stands above the path as well
          have hmem : above ∈ ancestors path := by
            have hboth := mem_ancestors_iff.1 hp
            have hroot := (mem_ancestors_iff.1 (mem_ancestors_of_isAbove (hpaths p hp) habove)).2
            exact mem_ancestors_iff.2 ⟨habove.trans hboth.1, hroot⟩
          exact get?_withParents_of_mem hfree hmem
      · cases hnew

/-- A tree stays without gaps when only ephemeral entries go. -/
theorem Rooted.of_kept (hs : s.Rooted)
    (hold : ∀ p e, s'.entries.get? p = some e → s.entries.get? p = some e)
    (hkept : ∀ p e, s.entries.get? p = some e → e.owner = none → s'.entries.get? p = some e) :
    s'.Rooted where
  paths p e he := hs.paths p e (hold p e he)
  parents p e he above habove := by
    rcases hs.parents p e (hold p e he) above habove with ⟨parent, hparent, hnone⟩
    exact ⟨parent, hkept above parent hparent hnone, hnone⟩

/-! ## Operations -/

theorem put_rooted (hs : s.Rooted) (path : String) (data : Bytes) : (s.put path data).2.Rooted := by
  unfold put checkingPath
  split
  · next hpath =>
      rw [belowParents_eq hs]
      cases hblocked : s.blocked? path with
      | some above => exact hs
      | none =>
          have hpaths : ∀ above ∈ ancestors path, isEntryPath above = true := fun above habove =>
            ((isAbove_iff_names hpath).1 (mem_ancestors_iff.1 habove).1).1
          have hparented := hs.withParents hblocked hpaths
          have hparents := fun above (habove : IsAbove above path) =>
            get?_withParents_of_mem hblocked (mem_ancestors_of_isAbove hpath habove)
          dsimp only
          split
          · next entry hentry =>
              refine hparented.write _ hpath hparents ?_
              cases howner : entry.owner with
              | none => exact .inl rfl
              | some id =>
                  exact .inr fun below => hparented.not_isAbove_of_owner hentry howner
          · exact hparented.write _ hpath hparents (.inl rfl)
  · exact hs

theorem setData_rooted (hs : s.Rooted) (path : String) (data : Bytes) :
    (s.setData path data).2.Rooted := by
  unfold setData checkingPath
  split
  · next hpath =>
      split
      · next entry hentry =>
          refine hs.write _ hpath (hs.parents path entry hentry) ?_
          cases howner : entry.owner with
          | none => exact .inl rfl
          | some id => exact .inr fun below => hs.not_isAbove_of_owner hentry howner
      · exact hs
  · exact hs

theorem hasDescendant_iff (hpath : isEntryPath path = true) :
    s.hasDescendant path = true ↔
      ∃ below, s.entries.contains below = true ∧ IsAbove path below := by
  have hroot : path ≠ root := ne_root_of_isEntryPath hpath
  have hne : path ≠ "" := ne_empty_of_isEntryPath hpath
  rw [hasDescendant_iff_exists]
  simp only [isBelow, List.isPrefixOf_iff_prefix, stemBelow, if_neg hroot]
  constructor
  · rintro ⟨below, hbelow, rest, hrest⟩
    exact ⟨below, hbelow, hne, rest, by simp [← hrest]⟩
  · rintro ⟨below, hbelow, -, rest, hrest⟩
    exact ⟨below, hbelow, rest, by simp [hrest]⟩

theorem delete_rooted (hs : s.Rooted) (path : String) : (s.delete path).2.Rooted := by
  unfold delete checkingPath
  split
  · next hpath =>
      split
      · exact hs
      · split
        · exact hs
        · next hleaf =>
            refine hs.remove fun below hbelow habove => ?_
            exact hleaf ((hasDescendant_iff hpath).2 ⟨below, hbelow, habove⟩)
  · exact hs

/-! ## Sequential entries -/

/-- The store after the next sequence number below a parent has been used up. -/
def numbering (s : Store) (parent : String) : Store :=
  { s with sequences := s.sequences.insert parent ((s.sequences.get? parent).getD 0 + 1) }

/-- The path of the entry that is created next from a stem below a parent. -/
def nextPath (s : Store) (parent stem : String) : String :=
  stem ++ Text.padded 10 sequenceDigits ((s.sequences.get? parent).getD 0)

theorem withParents_sequences (s : Store) (paths : List String) :
    (s.withParents paths).sequences = s.sequences := by
  induction paths generalizing s with
  | nil => rfl
  | cons path rest ih =>
      unfold withParents
      split
      · exact ih s
      · exact ih (s.write path _ _)

/-- Digits behind a stem complete it to the path of an entry. -/
theorem isEntryPath_nextPath {parent stem : String} (hparent : isEntryPath parent = true)
    (hstem : parent? stem = some parent) :
    isEntryPath (s.nextPath parent stem) = true ∧
      ∀ above, IsAbove above (s.nextPath parent stem) ↔ IsAbove above stem := by
  rcases exists_name_of_parent? hstem (ne_root_of_isEntryPath hparent) with
    ⟨hne, name, hname, hchars⟩
  let digits := (Text.padded 10 sequenceDigits ((s.sequences.get? parent).getD 0)).toList
  have hpath : (s.nextPath parent stem).toList = parent.toList ++ '/' :: (name ++ digits) := by
    simp [nextPath, hchars, digits]
  have hdigits : '/' ∉ digits := by
    intro hslash
    have hdigit := Text.isDigit_of_mem_padded hslash
    cases hdigit
  have hlonger : IsName (name ++ digits) := by
    refine ⟨?_, by simp [hname, hdigits]⟩
    intro hnil
    exact Text.padded_ne_nil _ _ _ (List.append_eq_nil_iff.1 hnil).2
  refine ⟨isEntryPath_child hparent hlonger hpath, fun above => ?_⟩
  rw [isAbove_child_iff hne hlonger.2 hpath, isAbove_child_iff hne hname hchars]

/-- The stem and the next path have the same ancestors, of which the path is none. -/
theorem nextPath_not_mem_ancestors {parent stem : String} (hparent : isEntryPath parent = true)
    (hstem : parent? stem = some parent) : s.nextPath parent stem ∉ ancestors stem := by
  intro hmem
  have habove := (isEntryPath_nextPath (s := s) hparent hstem).2 (s.nextPath parent stem)
  exact IsAbove.irrefl _ (habove.2 (mem_ancestors_iff.1 hmem).1)

/-- Neither the parents nor the number that is used up put an entry at the next path. -/
theorem get?_nextPath {parent stem : String} (hparent : isEntryPath parent = true)
    (hstem : parent? stem = some parent) :
    ((s.withParents (ancestors stem)).numbering parent).entries.get? (s.nextPath parent stem) =
      s.entries.get? (s.nextPath parent stem) :=
  get?_withParents_of_not_mem (nextPath_not_mem_ancestors hparent hstem)

/-- What a sequential creation below an entry's path comes to.  It is refused when a session's entry
stands in the way, or else it uses up a number, and then creates the entry unless one stands there
already. -/
theorem createSequential_eq (hs : s.Rooted) {stem parent : String}
    (hstem : parent? stem = some parent) (hentry : isEntryPath parent = true) (data : Bytes)
    (owner : Option SessionId) :
    s.createSequential stem data owner =
      match s.blocked? stem with
      | some above => (.error (.badPath (above ++ " is ephemeral and cannot have children")), s)
      | none =>
          let path := s.nextPath parent stem
          let numbered := (s.withParents (ancestors stem)).numbering parent
          if s.entries.contains path then (.error (.nodeExists path), numbered)
          else (.ok path, numbered.write path ⟨data, owner⟩ (.created path)) := by
  have hparent : (parent? stem).filter (· ≠ root) = some parent := by
    rw [hstem, Option.filter_some, if_pos (by simpa using ne_root_of_isEntryPath hentry)]
  unfold createSequential
  rw [hparent]
  unfold checkingPath
  simp only [if_pos hentry, belowParents_eq hs]
  cases s.blocked? stem with
  | some above => rfl
  | none =>
      have hpath := (isEntryPath_nextPath (s := s) hentry hstem).1
      have hsame : ((s.withParents (ancestors stem)).numbering parent).entries.contains
          (s.nextPath parent stem) = s.entries.contains (s.nextPath parent stem) :=
        congrArg Option.isSome (get?_nextPath hentry hstem)
      unfold nextPath at hpath hsame
      unfold numbering at hsame
      rw [withParents_sequences] at hsame
      simp only [nextPath, numbering, withParents_sequences, if_pos hpath, hsame]

/-- A sequential creation is refused before anything has changed, or it uses up a number, and then
creates the entry unless one stands there already. -/
theorem createSequential_cases (hs : s.Rooted) (stem : String) (data : Bytes)
    (owner : Option SessionId) :
    (∃ reason, s.createSequential stem data owner = (.error (.badPath reason), s)) ∨
      ∃ parent, parent? stem = some parent ∧ isEntryPath parent = true ∧ s.blocked? stem = none ∧
        let path := s.nextPath parent stem
        let numbered := (s.withParents (ancestors stem)).numbering parent
        s.createSequential stem data owner =
          if s.entries.contains path then (.error (.nodeExists path), numbered)
          else (.ok path, numbered.write path ⟨data, owner⟩ (.created path)) := by
  cases hparent : (parent? stem).filter (· ≠ root) with
  | none =>
      unfold createSequential
      rw [hparent]
      exact .inl ⟨_, rfl⟩
  | some parent =>
      have hstem : parent? stem = some parent := (Option.filter_eq_some_iff.1 hparent).1
      by_cases hentry : isEntryPath parent = true
      · rw [createSequential_eq hs hstem hentry]
        cases hblocked : s.blocked? stem with
        | some above => exact .inl ⟨_, rfl⟩
        | none => exact .inr ⟨parent, hstem, hentry, rfl, rfl⟩
      · unfold createSequential checkingPath
        simp only [hparent, if_neg hentry]
        exact .inl ⟨_, rfl⟩

theorem createSequential_rooted (hs : s.Rooted) (stem : String) (data : Bytes)
    (owner : Option SessionId) : (s.createSequential stem data owner).2.Rooted := by
  rcases createSequential_cases hs stem data owner with ⟨e, hrefused⟩ | ⟨parent, hstem, hentry,
    hblocked, hcreate⟩
  · rw [hrefused]
    exact hs
  · rcases isEntryPath_nextPath (s := s) hentry hstem with ⟨hpath, habove⟩
    have hpaths : ∀ above ∈ ancestors stem, isEntryPath above = true := fun above hmem =>
      ((isAbove_iff_names hpath).1 ((habove above).2 (mem_ancestors_iff.1 hmem).1)).1
    have hparented := hs.withParents hblocked hpaths
    -- a number that is used up changes no entry
    let numbered := (s.withParents (ancestors stem)).numbering parent
    have hnumbered : numbered.Rooted := ⟨hparented.paths, hparented.parents⟩
    dsimp only at hcreate
    rw [hcreate]
    split
    · exact hnumbered
    · next habsent =>
        refine hnumbered.write _ hpath ?_ (.inr fun below => ?_)
        · intro above habovePath
          refine get?_withParents_of_mem hblocked (mem_ancestors_iff.2 ?_)
          have hroot := (mem_ancestors_iff.1 (mem_ancestors_of_isAbove hpath habovePath)).2
          exact ⟨(habove above).1 habovePath, hroot⟩
        · refine hnumbered.not_isAbove_of_absent ?_
          rw [get?_nextPath hentry hstem]
          simpa [Table.contains] using habsent

end Store

end FencedPool
