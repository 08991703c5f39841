import FencedPool.Proofs.Path.Names
import Mathlib.Data.List.DropRight
import Mathlib.Logic.Relation

/-!
# Joining — paths that are put together in stages

Joining takes off the slashes at the end of the base and those in front of the child, and puts what
is left together with one slash, if there is a child at all.  What is left of the base by one stage
is trimmed once more by the next, and nothing comes of that.  So the order of the stages does not
matter, whatever the texts are.

This file defines:

* `Path.trimStart`, `Path.trimEnd` and `Path.trim` — texts without slashes at their ends;
* `Path.glue` — two trimmed texts with a slash between them, with `join_eq_glue`;
* `Path.ListsNames` — a child that spells a list of names;
* `Path.LeadsUpTo` — a path that is reached by going up.

The main statement is `join_in_stages`.
-/

namespace FencedPool

namespace Path

/-! ## Trimming -/

/-- What is left of a text without the slashes in front. -/
def trimStart (text : List Char) : List Char := text.dropWhile (· == '/')

/-- What is left of a text without the slashes at its end. -/
def trimEnd (text : List Char) : List Char := text.rdropWhile (· == '/')

/-- Two trimmed texts with a slash between them, if there is a second one. -/
def glue (above below : List Char) : List Char :=
  if below = [] then above else above ++ '/' :: below

theorem join_eq_glue (base child : String) :
    join base child = orRoot (glue (trimEnd base.toList) (trimStart child.toList)) := by
  change (if trimStart child.toList = [] then
      if trimEnd base.toList = [] then root else String.ofList (trimEnd base.toList)
    else String.ofList (trimEnd base.toList ++ '/' :: trimStart child.toList)) = _
  unfold glue orRoot
  split
  · rfl
  · rw [if_neg (by simp)]

@[simp] theorem glue_nil (above : List Char) : glue above [] = above := rfl

theorem glue_of_ne {above below : List Char} (h : below ≠ []) :
    glue above below = above ++ '/' :: below := if_neg h

theorem glue_ne_nil {above : List Char} (h : above ≠ []) (below : List Char) :
    glue above below ≠ [] := by
  unfold glue
  split
  · exact h
  · simp

/-- Behind a text that is not empty it does not matter which seam is made first. -/
theorem glue_assoc (a b c : List Char) (hb : b ≠ []) : glue (glue a b) c = glue a (glue b c) := by
  by_cases hc : c = []
  · simp [hc]
  · have hne : glue b c ≠ [] := glue_ne_nil hb c
    calc glue (glue a b) c
        = (a ++ '/' :: b) ++ '/' :: c := by rw [glue_of_ne hc, glue_of_ne hb]
      _ = a ++ '/' :: (b ++ '/' :: c) := by simp
      _ = glue a (glue b c) := by rw [glue_of_ne hne, glue_of_ne hc]

theorem trimStart_append (text more : List Char) :
    trimStart (text ++ more) =
      if trimStart text = [] then trimStart more else trimStart text ++ more := by
  unfold trimStart
  rw [List.dropWhile_append]
  simp only [List.isEmpty_iff]

theorem trimEnd_append (text more : List Char) :
    trimEnd (text ++ more) = if trimEnd more = [] then trimEnd text else text ++ trimEnd more := by
  unfold trimEnd List.rdropWhile
  rw [List.reverse_append, List.dropWhile_append]
  simp only [List.isEmpty_iff, List.reverse_eq_nil_iff]
  split
  · rfl
  · rw [List.reverse_append, List.reverse_reverse]

theorem trimStart_eq_nil_iff {text : List Char} : trimStart text = [] ↔ ∀ c ∈ text, c = '/' := by
  unfold trimStart
  simp [List.dropWhile_eq_nil_iff]

theorem trimEnd_eq_nil_iff {text : List Char} : trimEnd text = [] ↔ ∀ c ∈ text, c = '/' := by
  unfold trimEnd
  simp [List.rdropWhile_eq_nil_iff]

@[simp] theorem trimStart_trimStart (text : List Char) :
    trimStart (trimStart text) = trimStart text :=
  List.dropWhile_idempotent _ _

@[simp] theorem trimEnd_trimEnd (text : List Char) : trimEnd (trimEnd text) = trimEnd text :=
  List.rdropWhile_idempotent _ _

/-- It does not matter at which end the slashes are taken off first. -/
theorem trimEnd_trimStart (text : List Char) :
    trimEnd (trimStart text) = trimStart (trimEnd text) := by
  induction text with
  | nil => rfl
  | cons c rest ih =>
      have hend := trimEnd_append [c] rest
      rw [List.singleton_append] at hend
      by_cases hc : c = '/'
      · subst hc
        have hstart : trimStart ('/' :: rest) = trimStart rest := rfl
        rw [hstart, ih, hend]
        split
        · next hempty => rw [hempty]; rfl
        · rfl
      · have hstart (more : List Char) : trimStart (c :: more) = c :: more :=
          List.dropWhile_cons_of_neg (by simpa using hc)
        rw [hstart, hend]
        split
        · have hlone : trimEnd [c] = [c] := List.rdropWhile_concat_neg _ [] c (by simpa using hc)
          rw [hlone, hstart]
        · exact (hstart _).symm

/-- A text without its slashes at both ends, which is empty if there are only slashes. -/
def trim (text : List Char) : List Char := trimStart (trimEnd text)

theorem trim_eq_nil_iff {text : List Char} : trim text = [] ↔ trimStart text = [] := by
  unfold trim
  rw [← trimEnd_trimStart, trimEnd_eq_nil_iff, ← trimStart_eq_nil_iff, trimStart_trimStart]

/-! ## Stages -/

@[simp] theorem trimStart_orRoot (text : List Char) :
    trimStart (orRoot text).toList = trimStart text := by
  unfold orRoot
  split
  · next hempty => rw [hempty]; rfl
  · rw [String.toList_ofList]

@[simp] theorem trimEnd_orRoot (text : List Char) :
    trimEnd (orRoot text).toList = trimEnd text := by
  unfold orRoot
  split
  · next hempty => rw [hempty]; rfl
  · rw [String.toList_ofList]

/-- What a further stage puts its child behind. -/
theorem trimEnd_join (a b : String) :
    trimEnd (join a b).toList = glue (trimEnd a.toList) (trim b.toList) := by
  rw [join_eq_glue, trimEnd_orRoot]
  by_cases hb : trimStart b.toList = []
  · rw [hb, trim_eq_nil_iff.2 hb, glue_nil, trimEnd_trimEnd]
  · have hne : trim b.toList ≠ [] := fun hempty => hb (trim_eq_nil_iff.1 hempty)
    have hend : trimEnd (trimStart b.toList) = trim b.toList := trimEnd_trimStart b.toList
    rw [glue_of_ne hb, glue_of_ne hne, ← List.singleton_append, ← List.append_assoc,
      trimEnd_append, hend, if_neg hne]
    simp

/-- What an earlier stage puts behind its base. -/
theorem trimStart_join (b c : String) :
    trimStart (join b c).toList =
      if trim b.toList = [] then trimStart c.toList
      else glue (trim b.toList) (trimStart c.toList) := by
  rw [join_eq_glue, trimStart_orRoot]
  by_cases hc : trimStart c.toList = []
  · rw [hc, glue_nil, glue_nil]
    change trim b.toList = _
    split
    · next hb => exact hb
    · rfl
  · have hslash : trimStart ('/' :: trimStart c.toList) = trimStart c.toList :=
      trimStart_trimStart c.toList
    rw [glue_of_ne hc, glue_of_ne hc, trimStart_append, hslash]
    rfl

/-- It does not matter which of two stages comes first. -/
theorem join_assoc (a b c : String) : join (join a b) c = join a (join b c) := by
  have hleft : join (join a b) c =
      orRoot (glue (glue (trimEnd a.toList) (trim b.toList)) (trimStart c.toList)) := by
    rw [join_eq_glue, trimEnd_join]
  have hright : join a (join b c) =
      orRoot (glue (trimEnd a.toList) (trimStart (join b c).toList)) := join_eq_glue a (join b c)
  rw [hleft, hright, trimStart_join]
  -- a text of slashes in the middle is passed over on both sides
  by_cases hb : trim b.toList = []
  · rw [if_pos hb, hb, glue_nil]
  · rw [if_neg hb, glue_assoc _ _ _ hb]

/-! ## Names in a row -/

variable {front list : List (List Char)} {name : List Char} {base child : String}

theorem trimStart_of_isName (hname : IsName name) : trimStart name = name := by
  cases name with
  | nil => rfl
  | cons c rest =>
      have hc : c ≠ '/' := fun heq => hname.2 (by simp [heq])
      exact List.dropWhile_cons_of_neg (by simpa using hc)

theorem trimEnd_of_isName (hname : IsName name) : trimEnd name = name := by
  refine List.rdropWhile_eq_self_iff.2 fun hne hlast => hname.2 ?_
  have hslash : name.getLast hne = '/' := by simpa using hlast
  exact hslash ▸ List.getLast_mem hne

theorem trimEnd_spell (hnames : ∀ name ∈ list, IsName name) :
    trimEnd (spell list) = spell list := by
  rcases List.eq_nil_or_concat' list with rfl | ⟨front, name, rfl⟩
  · rfl
  · have hname : IsName name := hnames name (by simp)
    rw [spell_append, spell_cons, spell_nil, List.append_nil, ← List.singleton_append,
      ← List.append_assoc, trimEnd_append, trimEnd_of_isName hname, if_neg hname.1]

/-- Whatever a name is put behind, it is the last segment. -/
theorem lastSegment_join (base : String) (hchild : IsName child.toList) :
    lastSegment (join base child) = child := by
  have hchars : (join base child).toList =
      (String.ofList (trimEnd base.toList)).toList ++ '/' :: child.toList := by
    rw [join_eq_glue, trimStart_of_isName hchild, glue_of_ne hchild.1, toList_orRoot (by simp),
      String.toList_ofList]
  rw [lastSegment_eq hchild.2 hchars]
  exact String.ofList_toList

/-- What is put behind the path of an entry is the child without its leading slashes, if anything of
it is left. -/
theorem toList_join_base (hbase : Store.isEntryPath base = true) (child : String) :
    (join base child).toList = glue base.toList (trimStart child.toList) := by
  have hnames : ∀ name ∈ names base, IsName name := fun name hname =>
    isName_of_mem_names hbase hname
  have hne : base.toList ≠ [] := spell_names hbase ▸ spell_ne_nil (names_ne_nil hbase)
  have htrimmed : trimEnd base.toList = base.toList := by
    rw [← spell_names hbase]
    exact trimEnd_spell hnames
  rw [join_eq_glue, htrimmed, toList_orRoot (glue_ne_nil hne _)]

/-- A name is put behind the path of an entry and a slash. -/
theorem toList_join (hbase : Store.isEntryPath base = true) (hchild : IsName child.toList) :
    (join base child).toList = base.toList ++ '/' :: child.toList := by
  rw [toList_join_base hbase, trimStart_of_isName hchild, glue_of_ne hchild.1]

/-- Whether a child, without the slashes in front, is a list of names with slashes between them. -/
def ListsNames (child : String) (list : List (List Char)) : Prop :=
  (∀ name ∈ list, IsName name) ∧ trimStart child.toList = ['/'].intercalate list

theorem spell_eq_cons (hne : list ≠ []) : spell list = '/' :: ['/'].intercalate list := by
  induction list with
  | nil => exact absurd rfl hne
  | cons name more ih =>
      cases more with
      | nil => simp
      | cons next more =>
          rw [spell_cons, ih (List.cons_ne_nil next more), List.intercalate_cons_cons]
          simp

theorem intercalate_ne_nil (hne : list ≠ []) (hnames : ∀ name ∈ list, IsName name) :
    ['/'].intercalate list ≠ [] := by
  intro hempty
  have hspell := spell_eq_cons hne
  rw [hempty] at hspell
  cases list with
  | nil => exact hne rfl
  | cons name more =>
      have htext : name ++ spell more = [] := (List.cons.inj hspell).2
      exact (hnames name List.mem_cons_self).1 (List.append_eq_nil_iff.1 htext).1

/-- A list of names goes behind a spelled text as the names do. -/
theorem glue_spell (front : List (List Char)) (hnames : ∀ name ∈ list, IsName name) :
    glue (spell front) (['/'].intercalate list) = spell (front ++ list) := by
  rw [spell_append]
  by_cases hne : list = []
  · simp [hne]
  · rw [glue_of_ne (intercalate_ne_nil hne hnames), spell_eq_cons hne]

/-- A child with a list of names is put behind the names of the base. -/
theorem join_ofNames (hfront : ∀ name ∈ front, IsName name) (hchild : ListsNames child list) :
    join (ofNames front) child = ofNames (front ++ list) := by
  rw [join_eq_glue, ofNames, trimEnd_orRoot, trimEnd_spell hfront, hchild.2,
    glue_spell front hchild.1, ofNames]

/-- What is put behind the names of a base spells a well-formed path only as a list of names. -/
theorem exists_listsNames (hfront : ∀ name ∈ front, IsName name)
    (h : isValid (join (ofNames front) child) = true) : ∃ list, ListsNames child list := by
  by_cases hbelow : trimStart child.toList = []
  · exact ⟨[], nofun, hbelow⟩
  · rcases isValid_iff_exists_names.1 h with ⟨list, hnames, hjoined⟩
    have hchars : (ofNames list).toList = spell front ++ '/' :: trimStart child.toList := by
      rw [← hjoined, join_eq_glue, ofNames, trimEnd_orRoot, trimEnd_spell hfront,
        glue_of_ne hbelow, toList_orRoot (by simp)]
    have hne : list ≠ [] := by
      rintro rfl
      -- the root has nothing behind its slash
      rcases List.append_eq_cons_iff.1 hchars.symm with ⟨-, htail⟩ | ⟨more, -, htail⟩
      · exact hbelow (List.cons.inj htail).2
      · simp at htail
    rw [toList_ofNames hne] at hchars
    rcases exists_names_behind hnames hchars with ⟨back, hbackNe, hbackNames, hback⟩
    rw [spell_eq_cons hbackNe] at hback
    exact ⟨back, hbackNames, (List.cons.inj hback).2.symm⟩

/-! ## Going up -/

/-- Whether going up from a path, any number of times, leads to another. -/
def LeadsUpTo (path above : String) : Prop :=
  Relation.ReflTransGen (fun lower upper => parent? lower = some upper) path above

theorem leadsUpTo_ofNames (front : List (List Char)) (hnames : ∀ name ∈ list, IsName name) :
    LeadsUpTo (ofNames (front ++ list)) (ofNames front) := by
  induction list using List.reverseRecOn with
  | nil =>
      rw [List.append_nil]
      exact .refl
  | append_singleton list name ih =>
      have hup := parent?_ofNames (front ++ list) (hnames name (by simp))
      rw [List.append_assoc] at hup
      exact .head hup (ih fun n hn => hnames n (List.mem_append_left _ hn))

/-- Leading names are those of an ancestor, unless there are none or all. -/
theorem ofNames_mem_ancestors (hfront : front ≠ []) (hlist : list ≠ [])
    (hnames : ∀ name ∈ front, IsName name) :
    ofNames front ∈ ancestors (ofNames (front ++ list)) := by
  have hentry := isEntryPath_ofNames hfront hnames
  refine mem_ancestors_iff.2 ⟨⟨ne_empty_of_isEntryPath hentry, ?_⟩, ne_root_of_isEntryPath hentry⟩
  cases list with
  | nil => exact absurd rfl hlist
  | cons name more =>
      refine ⟨name ++ spell more, ?_⟩
      rw [toList_ofNames hfront, toList_ofNames (by simp), spell_append, spell_cons]

/-- A path is the root, or the path that it goes on to, or one of its ancestors. -/
theorem leading_cases (hfront : ∀ name ∈ front, IsName name) (list : List (List Char)) :
    ofNames front = root ∨ ofNames front = ofNames (front ++ list) ∨
      ofNames front ∈ ancestors (ofNames (front ++ list)) := by
  by_cases hroot : front = []
  · exact .inl (by rw [hroot, ofNames_nil])
  · by_cases hself : list = []
    · exact .inr (.inl (by rw [hself, List.append_nil]))
    · exact .inr (.inr (ofNames_mem_ancestors hroot hself hfront))

end Path

open FencedPool.Path

/-- Paths are joined in stages, in any order: whatever the three texts are, the first two may be
joined first or the last two.  What is joined with a well-formed path is well formed exactly when
the child, without the slashes in front, is empty or a list of names with slashes between them.
Then the names are put behind those of the path, so that going up leads to the path, which is either
the root, or the very path that has come out, or one of its ancestors. -/
theorem join_in_stages (a b c : String) :
    join (join a b) c = join a (join b c) ∧
      (isValid a = true →
        (isValid (join a b) = true ↔ ∃ list, ListsNames b list) ∧
          ∀ list, ListsNames b list →
            names (join a b) = names a ++ list ∧ LeadsUpTo (join a b) a ∧
              (a = root ∨ a = join a b ∨ a ∈ ancestors (join a b))) := by
  refine ⟨join_assoc a b c, fun ha => ?_⟩
  rcases isValid_iff_exists_names.1 ha with ⟨front, hfront, rfl⟩
  have hall {list : List (List Char)} (hb : ListsNames b list) :
      ∀ name ∈ front ++ list, IsName name :=
    fun name hname => (List.mem_append.1 hname).elim (hfront name) (hb.1 name)
  refine ⟨⟨exists_listsNames hfront, ?_⟩, fun list hb => ?_⟩
  · rintro ⟨list, hb⟩
    rw [join_ofNames hfront hb]
    exact isValid_ofNames (hall hb)
  · rw [join_ofNames hfront hb, names_ofNames (hall hb), names_ofNames hfront]
    exact ⟨rfl, leadsUpTo_ofNames front hb.1, leading_cases hfront list⟩

/-- A child with slashes in front is put behind the base with all of its names. -/
theorem join_in_stages_padded :
    isValid "/pool" = true ∧ ListsNames "//nodes/1" ["nodes".toList, "1".toList] ∧
      names (join "/pool" "//nodes/1") =
        names "/pool" ++ ["nodes".toList, "1".toList] ∧
      LeadsUpTo (join "/pool" "//nodes/1") "/pool" ∧
      join (join "/pool" "//nodes/1") "/" = join "/pool" (join "//nodes/1" "/") := by
  have hvalid : isValid "/pool" = true := by decide
  have hlisted : ListsNames "//nodes/1" ["nodes".toList, "1".toList] := by
    unfold ListsNames IsName
    decide
  have hjoined := join_in_stages "/pool" "//nodes/1" "/"
  have hbelow := (hjoined.2 hvalid).2 _ hlisted
  exact ⟨hvalid, hlisted, hbelow.1, hbelow.2.1, hjoined.1⟩

end FencedPool
