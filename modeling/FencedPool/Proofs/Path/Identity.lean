import FencedPool.Path

/-!
# Identity — where in a path the identity of a request stands

The identity is what follows the last separator of the whole path.  If the last segment has a
separator, this is the sequence number at the end of the segment.  If only what stands above has
one, the identity reaches over at least one slash.

This file defines `Path.Sequenced`, the paths that end in a sequence number.  The main statements
are `Path.identity?_eq_some_iff_sequenced` and `Path.exists_identity?_of_above`.
-/

namespace FencedPool

namespace Path

/-- Whether the last segment of a path ends in a separator and a number, which is any text without a
separator. -/
def Sequenced (path number : String) : Prop :=
  number ≠ "" ∧ sequenceSeparator ∉ number.toList ∧
    ∃ stem, (lastSegment path).toList = stem ++ sequenceSeparator :: number.toList

variable {path : String}

/-- What stands above the last segment ends in a slash. -/
theorem exists_above_lastSegment (path : String) :
    ∃ above, path.toList = above ++ (lastSegment path).toList ∧ '/' ∉ (lastSegment path).toList ∧
      (above = [] ∨ ∃ before, above = before ++ ['/']) := by
  unfold lastSegment
  cases hcut : cutLast '/' path.toList with
  | none => exact ⟨[], rfl, cutLast_eq_none_iff.1 hcut, .inl rfl⟩
  | some parts =>
      rcases parts with ⟨before, name⟩
      rcases cutLast_eq_some_iff.1 hcut with ⟨hpath, hname⟩
      dsimp only
      rw [String.toList_ofList]
      refine ⟨before ++ ['/'], ?_, hname, .inr ⟨before, rfl⟩⟩
      rw [List.append_assoc]
      exact hpath

theorem exists_last {sep : Char} {l : List Char} (h : sep ∈ l) :
    ∃ before after, l = before ++ sep :: after ∧ sep ∉ after := by
  cases hcut : cutLast sep l with
  | none => exact absurd h (cutLast_eq_none_iff.1 hcut)
  | some parts => exact ⟨parts.1, parts.2, cutLast_eq_some_iff.1 hcut⟩

/-- There is only one last separator. -/
theorem last_unique {sep : Char} {before after before' after' : List Char}
    (heq : before ++ sep :: after = before' ++ sep :: after') (h : sep ∉ after)
    (h' : sep ∉ after') : before = before' ∧ after = after' := by
  have hcut := cutLast_append before h
  rw [heq, cutLast_append before' h'] at hcut
  cases hcut
  exact ⟨rfl, rfl⟩

theorem identity?_eq_some_iff {number : String} :
    identity? path = some number ↔ number ≠ "" ∧ sequenceSeparator ∉ number.toList ∧
      ∃ before, path.toList = before ++ sequenceSeparator :: number.toList := by
  have hcut : identity? path = some number ↔
      number ≠ "" ∧
        ∃ before, cutLast sequenceSeparator path.toList = some (before, number.toList) := by
    unfold identity?
    split
    · next before first rest hparts =>
        simp only [hparts, Option.some.injEq, Prod.mk.injEq]
        constructor
        · rintro rfl
          exact ⟨by simp, before, rfl, String.toList_ofList.symm⟩
        · rintro ⟨-, _, rfl, hlist⟩
          rw [hlist, String.ofList_toList]
    · next hnone =>
        refine iff_of_false nofun ?_
        rintro ⟨hempty, before, hparts⟩
        cases hlist : number.toList with
        | nil => exact hempty (String.toList_eq_nil_iff.1 hlist)
        | cons first rest => exact hnone before first rest (hlist ▸ hparts)
  rw [hcut]
  refine and_congr_right fun _ => ?_
  constructor
  · rintro ⟨before, hparts⟩
    exact ⟨(cutLast_eq_some_iff.1 hparts).2, before, (cutLast_eq_some_iff.1 hparts).1⟩
  · rintro ⟨hnumber, before, hpath⟩
    exact ⟨before, cutLast_eq_some_iff.2 ⟨hpath, hnumber⟩⟩

theorem mem_lastSegment_of_sequenced {number : String} (h : Sequenced path number) :
    sequenceSeparator ∈ (lastSegment path).toList := by
  rcases h with ⟨-, -, stem, hstem⟩
  rw [hstem]
  exact List.mem_append_right _ List.mem_cons_self

theorem slash_not_mem_of_sequenced {number : String} (h : Sequenced path number) :
    '/' ∉ number.toList := by
  rcases h with ⟨-, -, stem, hstem⟩
  rcases exists_above_lastSegment path with ⟨above, -, hslash, -⟩
  rw [hstem] at hslash
  exact fun hmem => hslash (List.mem_append_right _ (List.mem_cons_of_mem _ hmem))

/-- A separator in the last segment is behind all separators above, so the identity is the number
there, if that is where the path has its separators at all. -/
theorem identity?_eq_some_iff_sequenced
    (h : sequenceSeparator ∈ (lastSegment path).toList ∨ sequenceSeparator ∉ path.toList)
    {number : String} : identity? path = some number ↔ Sequenced path number := by
  rcases exists_above_lastSegment path with ⟨above, hpath, -, -⟩
  rw [identity?_eq_some_iff]
  refine and_congr_right fun _ => and_congr_right fun hnumber => ?_
  constructor
  · rintro ⟨before, hbefore⟩
    rcases h with hmem | hnone
    · rcases exists_last hmem with ⟨stem, digits, hlast, hdigits⟩
      rw [hbefore, hlast, ← List.append_assoc] at hpath
      rw [(last_unique hpath hnumber hdigits).2]
      exact ⟨stem, hlast⟩
    · rw [hbefore] at hnone
      exact absurd (List.mem_append_right _ List.mem_cons_self) hnone
  · rintro ⟨stem, hstem⟩
    refine ⟨above ++ stem, ?_⟩
    rw [hpath, hstem, List.append_assoc]

/-- Where only the part above the last segment has a separator, the identity has a slash. -/
theorem exists_identity?_of_above (hlast : sequenceSeparator ∉ (lastSegment path).toList)
    (hmem : sequenceSeparator ∈ path.toList) :
    ∃ identity, identity? path = some identity ∧ '/' ∈ identity.toList := by
  rcases exists_above_lastSegment path with ⟨above, hpath, -, hslash⟩
  rw [hpath, List.mem_append] at hmem
  rcases hslash with rfl | ⟨before, rfl⟩
  · rcases hmem with ⟨⟨⟩⟩ | hmem
    exact absurd hmem hlast
  · have hbefore : sequenceSeparator ∈ before := by
      rcases hmem with hmem | hmem
      · rcases List.mem_append.1 hmem with hmem | hmem
        · exact hmem
        · cases List.mem_singleton.1 hmem
      · exact absurd hmem hlast
    rcases exists_last hbefore with ⟨stem, rest, rfl, hrest⟩
    refine ⟨String.ofList (rest ++ '/' :: (lastSegment path).toList),
      identity?_eq_some_iff.2 ⟨?_, ?_, stem, ?_⟩, ?_⟩
    · simp
    · rw [String.toList_ofList, List.mem_append, List.mem_cons]
      rintro (hmem | hmem | hmem)
      · exact hrest hmem
      · cases hmem
      · exact hlast hmem
    · rw [String.toList_ofList, hpath]
      simp
    · rw [String.toList_ofList]
      exact List.mem_append_right _ List.mem_cons_self

end Path

end FencedPool
