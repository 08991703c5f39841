import FencedPool.Proofs.Path.Joining

/-!
# Decomposition — what stands above a path, and what it is made of

A well-formed path is taken apart into its parent and its last segment and put together again from
these, and the paths above it are those with fewer of its names.  On other texts the parent is what
stands before the last slash.  It is shorter than the text, so going up comes to an end on every
text, and what is passed on the way begins every text passed before.

This file defines:

* `Path.Decomposes` — the parts of a path with given names;
* `Path.Climbs` — a walk up from a text, with the texts that it passes;
* `Path.IsProperPrefix`.

The main statements are `Path.ancestors_eq` and `path_decomposition`.
-/

namespace FencedPool

namespace Path

/-- Whether a text begins another and is not all of it. -/
def IsProperPrefix (above path : String) : Prop := above.toList <+: path.toList ∧ above ≠ path

theorem IsAbove.isProperPrefix {above path : String} (h : IsAbove above path) :
    IsProperPrefix above path := by
  refine ⟨?_, fun heq => IsAbove.irrefl path (heq ▸ h)⟩
  rcases h with ⟨-, rest, hrest⟩
  exact ⟨'/' :: rest, hrest.symm⟩

/-! ## Walks -/

/-- A walk up from a text, with the texts that it passes, nearest first.  It ends where there is no
parent, or where the parent is the root. -/
inductive Climbs : String → List String → Prop
  | stop {path : String} (top : parent? path = none) : Climbs path []
  | arrive {path : String} (top : parent? path = some root) : Climbs path []
  | pass {path above : String} {passed : List String} (up : parent? path = some above)
      (below : above ≠ root) (rest : Climbs above passed) : Climbs path (above :: passed)

theorem beforeSlashes_append (text more : List Char) :
    beforeSlashes (text ++ more) =
      beforeSlashes text ++ (beforeSlashes more).map (text ++ ·) := by
  induction text with
  | nil => simp [beforeSlashes]
  | cons c text ih =>
      by_cases hc : c = '/'
      · simp [beforeSlashes, hc, ih]
      · simp [beforeSlashes, hc, ih]

theorem beforeSlashes_of_not_mem {text : List Char} (h : '/' ∉ text) : beforeSlashes text = [] := by
  refine List.eq_nil_iff_forall_not_mem.2 fun above habove => h ?_
  rcases mem_beforeSlashes_iff.1 habove with ⟨rest, rfl⟩
  exact List.mem_append_right _ List.mem_cons_self

/-- What stands before the last slash of a text is the last of its ancestors, unless it is empty or
the root. -/
theorem ancestors_eq_of_toList {path : String} {above name : List Char} (hname : '/' ∉ name)
    (hpath : path.toList = above ++ '/' :: name) :
    ancestors path =
      if above = [] ∨ above = ['/'] then []
      else ancestors (String.ofList above) ++ [String.ofList above] := by
  have hlast : beforeSlashes ('/' :: name) = [[]] := by
    simp [beforeSlashes, beforeSlashes_of_not_mem hname]
  unfold ancestors
  rw [hpath, beforeSlashes_append, hlast, String.toList_ofList]
  split
  · next htop =>
      rcases htop with rfl | rfl
      · rfl
      · rfl
  · next hbelow =>
      rw [not_or] at hbelow
      simp [List.filter_append, hbelow]

/-- Above a text stands its parent, unless that is the root, and what stands above the parent. -/
theorem ancestors_eq (path : String) :
    ancestors path = match parent? path with
      | none => []
      | some above => if above = root then [] else ancestors above ++ [above] := by
  unfold parent?
  by_cases hroot : path = root
  · rw [if_pos hroot, hroot]
    rfl
  · rw [if_neg hroot]
    cases hcut : cutLast '/' path.toList with
    | none =>
        have hnone := beforeSlashes_of_not_mem (cutLast_eq_none_iff.1 hcut)
        unfold ancestors
        rw [hnone]
        rfl
    | some parts =>
        rcases parts with ⟨above, name⟩
        rcases cutLast_eq_some_iff.1 hcut with ⟨hpath, hname⟩
        rw [ancestors_eq_of_toList hname hpath]
        cases above with
        | nil => rfl
        | cons c more =>
            have htop : String.ofList (c :: more) = root ↔ c :: more = ['/'] := by
              rw [← String.toList_inj, String.toList_ofList]
              rfl
            simp only [reduceCtorEq, false_or, htop]

theorem length_lt_of_parent? {path above : String} (h : parent? path = some above)
    (hroot : above ≠ root) : above.toList.length < path.toList.length := by
  rcases exists_name_of_parent? h hroot with ⟨-, name, -, hpath⟩
  rw [hpath, List.length_append, List.length_cons]
  omega

/-- Every walk passes the ancestors, from the nearest to the outermost. -/
theorem Climbs.eq_ancestors {path : String} {passed : List String} (h : Climbs path passed) :
    passed = (ancestors path).reverse := by
  induction h with
  | stop top => rw [ancestors_eq, top]; rfl
  | arrive top => rw [ancestors_eq, top]; rfl
  | @pass path above passed up below rest ih =>
      rw [ancestors_eq path, up]
      simp [below, ih]

/-- Every text has a walk up to its end. -/
theorem climbs_ancestors (path : String) : Climbs path (ancestors path).reverse := by
  -- the induction is on the length, since the parent is shorter than the text
  induction hlength : path.toList.length using Nat.strongRecOn generalizing path with
  | ind length ih =>
      rw [ancestors_eq]
      cases hparent : parent? path with
      | none => exact .stop hparent
      | some above =>
          by_cases hroot : above = root
          · subst hroot
            exact .arrive hparent
          · have hshorter := hlength ▸ length_lt_of_parent? hparent hroot
            have hrest := ih _ hshorter above rfl
            simp only [if_neg hroot, List.reverse_append, List.reverse_singleton,
              List.singleton_append]
            exact .pass hparent hroot hrest

/-! ## Paths with names -/

theorem ofNames_ne_root {list : List (List Char)} (hne : list ≠ [])
    (hnames : ∀ name ∈ list, IsName name) : ofNames list ≠ root :=
  ne_root_of_isEntryPath (isEntryPath_ofNames hne hnames)

/-- A further name behind a list is none of the leading names. -/
theorem map_take_concat (front : List (List Char)) (name : List Char) :
    ((List.range' 1 front.length).map fun k => ofNames ((front ++ [name]).take k)) =
      (List.range' 1 front.length).map fun k => ofNames (front.take k) := by
  refine List.map_congr_left fun k hk => ?_
  have hshort : k ≤ front.length := by
    have hbound := (List.mem_range'_1.1 hk).2
    omega
  rw [List.take_append_of_le_length hshort]

/-- The ancestors of a path have its leading names, one at least and not all. -/
theorem ancestors_ofNames {front : List (List Char)} {name : List Char}
    (hnames : ∀ n ∈ front ++ [name], IsName n) :
    ancestors (ofNames (front ++ [name])) =
      (List.range' 1 front.length).map fun k => ofNames (front.take k) := by
  induction front using List.reverseRecOn generalizing name with
  | nil =>
      rw [ancestors_eq, parent?_ofNames [] (hnames name (by simp))]
      rfl
  | append_singleton front last ih =>
      have hfront : ∀ n ∈ front ++ [last], IsName n := fun n hn =>
        hnames n (List.mem_append_left _ hn)
      -- the parent is an ancestor itself, behind those that it has
      rw [ancestors_eq, parent?_ofNames _ (hnames name (by simp))]
      simp only [if_neg (ofNames_ne_root (by simp) hfront)]
      have hall : (front ++ [last]).take (1 + front.length) = front ++ [last] :=
        List.take_of_length_le (by simp [Nat.add_comm])
      rw [ih hfront, List.length_append, List.length_singleton, List.range'_1_concat,
        List.map_append, map_take_concat, List.map_singleton, hall]

/-- The parts of a path with given names: the last name, the path of the others, what comes of
joining these, and the paths of the leading names. -/
structure Decomposes (path : String) (list : List (List Char)) : Prop where
  lastSegment : list.getLast? = some (lastSegment path).toList
  parent : parent? path = some (ofNames list.dropLast)
  parent_valid : isValid (ofNames list.dropLast) = true
  joined : join (ofNames list.dropLast) (Path.lastSegment path) = path
  ancestors : ancestors path =
    (List.range' 1 (list.length - 1)).map fun k => ofNames (list.take k)

theorem decomposes_ofNames {list : List (List Char)} (hne : list ≠ [])
    (hnames : ∀ name ∈ list, IsName name) : Decomposes (ofNames list) list := by
  rcases List.eq_nil_or_concat' list with rfl | ⟨front, name, rfl⟩
  · exact absurd rfl hne
  · have hname : IsName name := hnames name (by simp)
    have hfront : ∀ n ∈ front, IsName n := fun n hn => hnames n (List.mem_append_left _ hn)
    have hlast := lastSegment_ofNames front hname.2
    have hlisted : ListsNames (String.ofList name) [name] := by
      refine ⟨by simpa using hname, ?_⟩
      rw [String.toList_ofList, trimStart_of_isName hname, List.intercalate_singleton]
    constructor
    · rw [hlast, List.getLast?_concat, String.toList_ofList]
    · rw [List.dropLast_concat]
      exact parent?_ofNames front hname
    · rw [List.dropLast_concat]
      exact isValid_ofNames hfront
    · rw [List.dropLast_concat, hlast]
      exact join_ofNames hfront hlisted
    · have hlength : (front ++ [name]).length - 1 = front.length := by simp
      rw [hlength, map_take_concat]
      exact ancestors_ofNames hnames

end Path

open FencedPool.Path

/-- The parts of paths.  A text is a well-formed path exactly when it is the root or a run of one
name or more, each led by a slash.  Then its last segment is the last of the names, its parent is
the well-formed path of the others, the two are joined to the path again, and its ancestors are the
paths of the leading names, one at least and not all, from the outermost on.  On every text, well
formed or not, the walk up ends after passing just the ancestors, the nearest first, and each
ancestor is a proper prefix of the text and of all later ancestors. -/
theorem path_decomposition (path : String) :
    (isValid path = true ↔ path = root ∨
        ∃ list, list ≠ [] ∧ (∀ name ∈ list, IsName name) ∧ path.toList = spell list) ∧
      (∀ list, list ≠ [] → (∀ name ∈ list, IsName name) → path.toList = spell list →
        Decomposes path list) ∧
      (∀ passed, Climbs path passed ↔ passed = (ancestors path).reverse) ∧
      (∀ above ∈ ancestors path, IsProperPrefix above path) ∧
      (ancestors path).Pairwise IsProperPrefix := by
  refine ⟨?_, fun list hne hnames hpath => ?_, fun passed => ?_, fun above habove => ?_, ?_⟩
  · rw [isValid_iff_root_or_isEntryPath, isEntryPath_iff]
  · have hofNames : path = ofNames list := by
      rw [← String.toList_inj, hpath, toList_ofNames hne]
    rw [hofNames]
    exact decomposes_ofNames hne hnames
  · constructor
    · exact Climbs.eq_ancestors
    · rintro rfl
      exact climbs_ancestors path
  · exact (mem_ancestors_iff.1 habove).1.isProperPrefix
  · exact (pairwise_ancestors path).imp IsAbove.isProperPrefix

/-- A path with three names has two ancestors, which are passed on the way up. -/
theorem path_decomposition_nested :
    let list := ["pool".toList, "nodes".toList, "1".toList]
    list ≠ [] ∧ (∀ name ∈ list, IsName name) ∧ "/pool/nodes/1".toList = spell list ∧
      Decomposes "/pool/nodes/1" list ∧ Climbs "/pool/nodes/1" ["/pool/nodes", "/pool"] := by
  intro list
  have hne : list ≠ [] := by decide
  have hnames : ∀ name ∈ list, IsName name := by
    unfold IsName
    decide
  have hpath : "/pool/nodes/1".toList = spell list := by decide
  have hparts := path_decomposition "/pool/nodes/1"
  exact ⟨hne, hnames, hpath, hparts.2.1 list hne hnames hpath, (hparts.2.2.1 _).2 (by decide)⟩

/-- A text of slashes is no path, and above it stand the shorter ones that are no path either. -/
example : isValid "////" = false ∧ ancestors "////" = ["//", "///"] := by decide

end FencedPool
