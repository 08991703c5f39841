import FencedPool.Proofs.Path.Ancestry
import Mathlib.Data.List.Basic

/-!
# Names — well-formed paths as lists of names

A well-formed path is nothing but the list of the names of its segments, and the empty list is the
root.  So what goes up and down between paths can be told by lists: the parent has all names but the
last, and the last segment is the last name.

This file defines `Path.ofNames`, the path with given names.  The main statements are
`Path.isValid_iff_exists_names`, `Path.parent?_ofNames` and `Path.lastSegment_ofNames`.
-/

namespace FencedPool

namespace Path

/-- The root for an empty text, and else the text itself. -/
def orRoot (text : List Char) : String := if text = [] then root else String.ofList text

/-- The path whose segments have given names. -/
def ofNames (list : List (List Char)) : String := orRoot (spell list)

@[simp] theorem ofNames_nil : ofNames [] = root := rfl

theorem toList_orRoot {text : List Char} (hne : text ≠ []) : (orRoot text).toList = text := by
  unfold orRoot
  rw [if_neg hne]
  exact String.toList_ofList

variable {p q : String} {front list : List (List Char)} {name : List Char}

theorem spell_ne_nil (hne : list ≠ []) : spell list ≠ [] := by
  cases list with
  | nil => exact absurd rfl hne
  | cons name more => exact List.cons_ne_nil _ _

theorem toList_ofNames (hne : list ≠ []) : (ofNames list).toList = spell list :=
  toList_orRoot (spell_ne_nil hne)

theorem toList_ofNames_concat (front : List (List Char)) (name : List Char) :
    (ofNames (front ++ [name])).toList = spell front ++ '/' :: name := by
  rw [toList_ofNames (by simp), spell_append, spell_cons, spell_nil, List.append_nil]

/-! ## Lists of names and well-formed paths -/

theorem isEntryPath_ofNames (hne : list ≠ []) (hnames : ∀ name ∈ list, IsName name) :
    Store.isEntryPath (ofNames list) = true :=
  isEntryPath_iff.2 ⟨list, hne, hnames, toList_ofNames hne⟩

theorem isValid_ofNames (hnames : ∀ name ∈ list, IsName name) : isValid (ofNames list) = true := by
  cases list with
  | nil => rfl
  | cons name more =>
      exact isValid_of_isEntryPath (isEntryPath_ofNames (List.cons_ne_nil name more) hnames)

theorem names_ofNames (hnames : ∀ name ∈ list, IsName name) : names (ofNames list) = list := by
  cases list with
  | nil => rfl
  | cons name more =>
      have hne := List.cons_ne_nil name more
      exact names_of_spell hne hnames (toList_ofNames hne)

theorem eq_or_isEntryPath (hp : isValid p = true) : p = root ∨ Store.isEntryPath p = true := by
  by_cases hroot : p = root
  · exact .inl hroot
  · exact .inr (by simp [Store.isEntryPath, hp, hroot])

theorem isValid_iff_root_or_isEntryPath :
    isValid p = true ↔ p = root ∨ Store.isEntryPath p = true := by
  constructor
  · exact eq_or_isEntryPath
  · rintro (rfl | hp)
    · rfl
    · exact isValid_of_isEntryPath hp

theorem isName_of_mem (hp : isValid p = true) (hname : name ∈ names p) : IsName name := by
  rcases eq_or_isEntryPath hp with rfl | hp
  · cases hname
  · exact isName_of_mem_names hp hname

/-- A well-formed path is the path with its names. -/
theorem ofNames_names (hp : isValid p = true) : ofNames (names p) = p := by
  rcases eq_or_isEntryPath hp with rfl | hp
  · rfl
  · rw [← String.toList_inj, toList_ofNames (names_ne_nil hp), spell_names hp]

/-- The well-formed paths are those with lists of names. -/
theorem isValid_iff_exists_names :
    isValid p = true ↔ ∃ list, (∀ name ∈ list, IsName name) ∧ p = ofNames list := by
  constructor
  · intro hp
    exact ⟨names p, fun name hname => isName_of_mem hp hname, (ofNames_names hp).symm⟩
  · rintro ⟨list, hnames, rfl⟩
    exact isValid_ofNames hnames

/-- The names of a well-formed path determine it, also when it is the root. -/
theorem eq_of_names_eq (hp : isValid p = true) (hq : isValid q = true) (h : names p = names q) :
    p = q := by
  rw [← ofNames_names hp, h, ofNames_names hq]

/-- What goes on behind a slash in a spelled path does so with names. -/
theorem exists_names_behind {above rest : List Char} (hnames : ∀ name ∈ list, IsName name)
    (h : spell list = above ++ '/' :: rest) :
    ∃ back, back ≠ [] ∧ (∀ name ∈ back, IsName name) ∧ spell back = '/' :: rest := by
  rcases spell_eq_append (fun name hname => (hnames name hname).2) h with
    ⟨front, back, rfl, -, hback⟩
  refine ⟨back, ?_, fun name hname => hnames name (List.mem_append_right _ hname), hback⟩
  rintro rfl
  cases hback

/-! ## The last name -/

theorem lastSegment_ofNames (front : List (List Char)) (hname : '/' ∉ name) :
    lastSegment (ofNames (front ++ [name])) = String.ofList name := by
  have hchars : (ofNames (front ++ [name])).toList =
      (String.ofList (spell front)).toList ++ '/' :: name := by
    rw [toList_ofNames_concat, String.toList_ofList]
  exact lastSegment_eq hname hchars

/-- The parent of a path has all of its names but the last. -/
theorem parent?_ofNames (front : List (List Char)) (hname : IsName name) :
    parent? (ofNames (front ++ [name])) = some (ofNames front) := by
  have hchars := toList_ofNames_concat front name
  have hroot : ofNames (front ++ [name]) ≠ root := by
    intro heq
    rw [heq] at hchars
    -- the root has one character, and the name is not empty
    have hlength := congrArg List.length hchars
    have hone : root.toList.length = 1 := rfl
    simp only [hone, List.length_append, List.length_cons] at hlength
    exact hname.1 (List.length_eq_zero_iff.1 (by omega))
  unfold parent?
  rw [if_neg hroot, hchars, cutLast_append _ hname.2]
  cases front with
  | nil => rfl
  | cons first more => rfl

/-- Behind an entry and a slash there is one name more. -/
theorem names_child {parent path : String} {name : List Char}
    (hparent : Store.isEntryPath parent = true) (hname : IsName name)
    (hpath : path.toList = parent.toList ++ '/' :: name) :
    names path = names parent ++ [name] := by
  refine names_of_spell (by simp) (fun n hn => ?_) ?_
  · rcases List.mem_append.1 hn with hn | hn
    · exact isName_of_mem_names hparent hn
    · rw [List.mem_singleton.1 hn]
      exact hname
  · rw [hpath, ← spell_names hparent]
    simp

/-- The parent of an entry is spelled by all of its names but the last. -/
theorem exists_parent? (hq : Store.isEntryPath q = true) :
    ∃ above name, parent? q = some above ∧ isValid above = true ∧
      names q = names above ++ [name] := by
  have hvalid : isValid q = true := isValid_of_isEntryPath hq
  rcases List.eq_nil_or_concat' (names q) with hnil | ⟨front, name, hlist⟩
  · exact absurd hnil (names_ne_nil hq)
  · have hnames : ∀ n ∈ front ++ [name], IsName n := fun n hn =>
      isName_of_mem hvalid (hlist ▸ hn)
    have hfront : ∀ n ∈ front, IsName n := fun n hn => hnames n (List.mem_append_left _ hn)
    refine ⟨ofNames front, name, ?_, isValid_ofNames hfront, ?_⟩
    · rw [← ofNames_names hvalid, hlist]
      exact parent?_ofNames front (hnames name (by simp))
    · rw [names_ofNames hfront, hlist]

theorem parent?_eq_some_iff_names (hp : isValid p = true) (hq : Store.isEntryPath q = true) :
    parent? q = some p ↔ ∃ name, names q = names p ++ [name] := by
  rcases exists_parent? hq with ⟨above, last, hparent, habove, hlast⟩
  rw [hparent, Option.some.injEq]
  constructor
  · rintro rfl
    exact ⟨last, hlast⟩
  · rintro ⟨name, hname⟩
    have hsame := (List.append_inj' (hlast.symm.trans hname) rfl).1
    exact eq_of_names_eq habove hp hsame

end Path

end FencedPool
