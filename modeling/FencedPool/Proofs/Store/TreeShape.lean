import Mathlib.Data.List.Nodup
import FencedPool.Proofs.Store.Owners
import FencedPool.Store.Walk

/-!
# TreeShape — the tree has no gaps, and a walk visits it once

An entry is one name longer than its parent, and all its leading names are entries.  So from any
path a walk reaches exactly the entries whose names go on from there, each on one way only, and it
is never deeper than there are entries.

This file defines:

* `Store.Visits` — the order in which the entries below some siblings are visited, depth first;
* `Store.TreeShaped` — the shape of the tree.

The main statement is `tree_shape`.
-/

namespace FencedPool

open FencedPool.Path

namespace Store

variable {s : Store} {path child : String}

/-- The order of a depth-first visit: each entry is followed by what stands below it, and then by
its siblings. -/
inductive Visits (s : Store) : List String → List String → Prop
  | nil : Visits s [] []
  | cons {path : String} {siblings below rest : List String} :
      Visits s (s.children path) below → Visits s siblings rest →
      Visits s (path :: siblings) (path :: (below ++ rest))

/-- A depth-first visit has one order only. -/
theorem Visits.unique {siblings first second : List String} (hfirst : s.Visits siblings first)
    (hsecond : s.Visits siblings second) : first = second := by
  induction hfirst generalizing second with
  | nil =>
      cases hsecond
      rfl
  | cons _ _ ihbelow ihrest =>
      cases hsecond with
      | cons hbelow hrest => rw [ihbelow hbelow, ihrest hrest]

/-! ## Names of children -/

theorem mem_children_iff_names (hs : s.Rooted) (hpath : isValid path = true) :
    child ∈ s.children path ↔
      s.entries.contains child = true ∧ ∃ name, names child = names path ++ [name] := by
  rw [mem_children_iff]
  constructor
  · rintro ⟨hentry, hchild⟩
    rcases contains_iff.1 hentry with ⟨entry, hget⟩
    exact ⟨hentry, (isChild_iff hpath (hs.paths child entry hget)).1 hchild⟩
  · rintro ⟨hentry, hname⟩
    rcases contains_iff.1 hentry with ⟨entry, hget⟩
    exact ⟨hentry, (isChild_iff hpath (hs.paths child entry hget)).2 hname⟩

theorem isEntryPath_of_contains (hs : s.Rooted) (hentry : s.entries.contains path = true) :
    isEntryPath path = true := by
  rcases contains_iff.1 hentry with ⟨entry, hget⟩
  exact hs.paths path entry hget

theorem isValid_of_contains (hs : s.Rooted) (hentry : s.entries.contains path = true) :
    isValid path = true := by
  have hpath := isEntryPath_of_contains hs hentry
  simp only [isEntryPath, Bool.and_eq_true] at hpath
  exact hpath.1

/-- Every run of leading names of an entry is an entry. -/
theorem exists_entry_of_prefix (hs : s.Rooted) (hentry : s.entries.contains path = true)
    {leading : List (List Char)} (hne : leading ≠ []) (hleading : leading <+: names path) :
    ∃ above, s.entries.contains above = true ∧ names above = leading := by
  have hpath := isEntryPath_of_contains hs hentry
  have hnames : ∀ name ∈ leading, IsName name := fun name hname =>
    isName_of_mem_names hpath (hleading.subset hname)
  let above := String.ofList (spell leading)
  have hspell : above.toList = spell leading := String.toList_ofList
  have habove : names above = leading := names_of_spell hne hnames hspell
  refine ⟨above, ?_, habove⟩
  by_cases hall : leading = names path
  · have hsame : above = path :=
      names_injective (isEntryPath_iff.2 ⟨leading, hne, hnames, hspell⟩) hpath
        (habove.trans hall)
    rw [hsame]
    exact hentry
  · rcases contains_iff.1 hentry with ⟨entry, hget⟩
    have hisAbove : IsAbove above path := by
      refine (isAbove_iff_names hpath).2 ⟨isEntryPath_iff.2 ⟨leading, hne, hnames, hspell⟩, ?_⟩
      rw [habove]
      exact ⟨hleading, hall⟩
    rcases hs.parents path entry hget above hisAbove with ⟨parent, hparent, -⟩
    exact contains_iff.2 ⟨parent, hparent⟩

/-- A path has no more names than the store has entries. -/
theorem length_names_le (hs : s.Rooted) (hentry : s.entries.contains path = true) :
    (names path).length ≤ s.entries.toList.length := by
  -- the runs of leading names have different lengths, and each belongs to an entry
  let runs := (List.range' 1 (names path).length).map (names path).take
  have hlength : ∀ k ∈ List.range' 1 (names path).length, ((names path).take k).length = k := by
    intro k hk
    have hle := (List.mem_range'_1.1 hk).2
    rw [List.length_take]
    omega
  have hlengths : runs.map List.length = List.range' 1 (names path).length := by
    rw [List.map_map]
    calc (List.range' 1 (names path).length).map (List.length ∘ (names path).take)
        = (List.range' 1 (names path).length).map id := List.map_congr_left hlength
      _ = List.range' 1 (names path).length := List.map_id _
  have hnodup : runs.Nodup := by
    refine List.Nodup.of_map List.length ?_
    rw [hlengths]
    exact List.nodup_range'
  have hsubset : runs ⊆ s.entries.keys.map names := by
    intro leading hleading
    rcases List.mem_map.1 hleading with ⟨k, hk, rfl⟩
    have hne : (names path).take k ≠ [] := by
      have hone := (List.mem_range'_1.1 hk).1
      intro hnil
      rcases List.take_eq_nil_iff.1 hnil with hzero | hnone
      · omega
      · exact names_ne_nil (isEntryPath_of_contains hs hentry) hnone
    rcases exists_entry_of_prefix hs hentry hne (List.take_prefix k _) with ⟨above, habove, hname⟩
    exact List.mem_map.2 ⟨above, Table.mem_keys_iff.2 habove, hname⟩
  calc (names path).length
      = runs.length := by simp [runs]
    _ ≤ (s.entries.keys.map names).length := hnodup.length_le_of_subset hsubset
    _ = s.entries.toList.length := by simp [Table.keys]

/-! ## What a walk reaches -/

/-- Down to some levels a walk reaches the entries whose names go on from a path by so many. -/
theorem mem_walkBelow_iff (hs : s.Rooted) (hpath : isValid path = true) (levels : Nat)
    {below : String} :
    below ∈ s.walkBelow levels path ↔ s.entries.contains below = true ∧
      names path <+: names below ∧ names path ≠ names below ∧
        (names below).length ≤ (names path).length + levels := by
  induction levels generalizing path with
  | zero =>
      simp only [walkBelow, List.not_mem_nil, false_iff]
      rintro ⟨-, hstart, hne, hlength⟩
      exact hne (hstart.eq_of_length_le hlength)
  | succ levels ih =>
      unfold walkBelow
      simp only [List.mem_flatMap, List.mem_cons]
      constructor
      · rintro ⟨child, hchild, hbelow⟩
        rcases (mem_children_iff_names hs hpath).1 hchild with ⟨hentry, name, hname⟩
        have hstart : names path <+: names child := hname ▸ List.prefix_append _ _
        rcases hbelow with rfl | hbelow
        · refine ⟨hentry, hstart, ?_, ?_⟩
          · simp [hname]
          · simp only [hname, List.length_append, List.length_singleton]
            omega
        · rcases (ih (isValid_of_contains hs hentry)).1 hbelow with ⟨hget, hmore, -, hlength⟩
          have hlonger := hmore.length_le
          simp only [hname, List.length_append, List.length_singleton] at hlength hlonger
          refine ⟨hget, hstart.trans hmore, ?_, by omega⟩
          intro heq
          rw [heq] at hlonger
          omega
      · rintro ⟨hget, ⟨rest, hrest⟩, hne, hlength⟩
        cases rest with
        | nil => exact absurd (by simpa using hrest) hne
        | cons name more =>
            -- the child on the way is the entry with the next name
            have hleading : names path ++ [name] <+: names below := ⟨more, by simp [← hrest]⟩
            rcases exists_entry_of_prefix hs hget (by simp) hleading with ⟨child, hentry, hname⟩
            refine ⟨child, (mem_children_iff_names hs hpath).2 ⟨hentry, name, hname⟩, ?_⟩
            cases more with
            | nil =>
                refine .inl (names_injective (isEntryPath_of_contains hs hget)
                  (isEntryPath_of_contains hs hentry) ?_)
                rw [hname, ← hrest]
            | cons next more =>
                refine .inr ((ih (isValid_of_contains hs hentry)).2 ⟨hget, ?_, ?_, ?_⟩)
                · rw [hname]
                  exact hleading
                · rw [hname, ← hrest]
                  simp
                · rw [hname, ← hrest]
                  rw [← hrest] at hlength
                  simp only [List.length_append, List.length_cons, List.length_nil] at hlength ⊢
                  omega

/-- No entry is reached on two ways. -/
theorem nodup_walkBelow (hs : s.Rooted) (hpath : isValid path = true) (levels : Nat) :
    (s.walkBelow levels path).Nodup := by
  induction levels generalizing path with
  | zero => exact List.nodup_nil
  | succ levels ih =>
      unfold walkBelow
      rw [List.nodup_flatMap]
      constructor
      · intro child hchild
        have hentry := ((mem_children_iff_names hs hpath).1 hchild).1
        have hvalid := isValid_of_contains hs hentry
        refine List.nodup_cons.2 ⟨?_, ih hvalid⟩
        intro hself
        exact ((mem_walkBelow_iff hs hvalid levels).1 hself).2.2.1 rfl
      · refine (s.nodup_children path).imp_of_mem ?_
        intro first second hfirst hsecond hne below hbelowFirst hbelowSecond
        rcases (mem_children_iff_names hs hpath).1 hfirst with ⟨hentry, name, hname⟩
        rcases (mem_children_iff_names hs hpath).1 hsecond with ⟨hentry', name', hname'⟩
        -- both children have the leading names of what is below them, and equally many
        have hleading : ∀ {child : String}, s.entries.contains child = true →
            below ∈ child :: s.walkBelow levels child → names child <+: names below := by
          intro child hchild hbelow
          rcases List.mem_cons.1 hbelow with rfl | hbelow
          · exact List.prefix_refl _
          · exact ((mem_walkBelow_iff hs (isValid_of_contains hs hchild) levels).1 hbelow).2.1
        have hstart := List.prefix_of_prefix_length_le (hleading hentry hbelowFirst)
          (hleading hentry' hbelowSecond) (by simp [hname, hname'])
        refine hne (names_injective (isEntryPath_of_contains hs hentry)
          (isEntryPath_of_contains hs hentry') (hstart.eq_of_length ?_))
        simp [hname, hname']

/-- A walk that may go as deep as the tree is a depth-first visit. -/
theorem visits_walkBelow (hs : s.Rooted) (hpath : isValid path = true) (levels : Nat)
    (hdeep : ∀ below, s.entries.contains below = true →
      names path <+: names below → (names below).length ≤ (names path).length + levels) :
    s.Visits (s.children path) (s.walkBelow levels path) := by
  induction levels generalizing path with
  | zero =>
      have hleaf : s.children path = [] := by
        refine List.eq_nil_iff_forall_not_mem.2 fun child hchild => ?_
        rcases (mem_children_iff_names hs hpath).1 hchild with ⟨hentry, name, hname⟩
        have hlength := hdeep child hentry (hname ▸ List.prefix_append _ _)
        simp only [hname, List.length_append, List.length_singleton] at hlength
        omega
      rw [hleaf]
      exact .nil
  | succ levels ih =>
      have hbelow : ∀ child ∈ s.children path,
          s.Visits (s.children child) (s.walkBelow levels child) := by
        intro child hchild
        rcases (mem_children_iff_names hs hpath).1 hchild with ⟨hentry, name, hname⟩
        refine ih (isValid_of_contains hs hentry) fun below hget hstart => ?_
        have hlength := hdeep below hget ((hname ▸ List.prefix_append _ _).trans hstart)
        simp only [hname, List.length_append, List.length_singleton]
        omega
      unfold walkBelow
      -- by induction on the siblings that are left
      generalize s.children path = siblings at hbelow
      induction siblings with
      | nil => exact .nil
      | cons child siblings ihsiblings =>
          rcases List.forall_mem_cons.1 hbelow with ⟨hchild, hsiblings⟩
          rw [List.flatMap_cons, List.cons_append]
          exact .cons hchild (ihsiblings hsiblings)

/-! ## The whole tree -/

theorem visits_walk (hs : s.Rooted) : s.Visits (s.children root) s.walk := by
  refine visits_walkBelow hs rfl _ fun below hbelow _ => ?_
  exact Nat.le_add_left_of_le (length_names_le hs hbelow)

theorem mem_walk_iff (hs : s.Rooted) : path ∈ s.walk ↔ s.entries.contains path = true := by
  unfold walk
  rw [mem_walkBelow_iff hs rfl]
  have hroot : names root = [] := rfl
  constructor
  · rintro ⟨hentry, -⟩
    exact hentry
  · intro hentry
    refine ⟨hentry, by simp [hroot], ?_, Nat.le_add_left_of_le (length_names_le hs hentry)⟩
    rw [hroot]
    exact (names_ne_nil (isEntryPath_of_contains hs hentry)).symm

/-- The shape of the tree: entries stand at well-formed paths other than the root, everything above
an entry is a persistent entry, nothing stands below an ephemeral entry, and a depth-first visit
from the root comes to an end and meets every entry once. -/
structure TreeShaped (s : Store) : Prop where
  valid : ∀ path, s.entries.contains path = true → isValid path = true ∧ path ≠ root
  persistent_above : ∀ path, s.entries.contains path = true → ∀ above, IsAbove above path →
    ∃ entry, s.entries.get? above = some entry ∧ entry.owner = none
  bare_below : ∀ path entry id, s.entries.get? path = some entry → entry.owner = some id →
    s.hasDescendant path = false ∧ ∀ below, s.entries.contains below = true → ¬ IsAbove path below
  visited : s.Visits (s.children root) s.walk
  visited_once : ∀ order, s.Visits (s.children root) order →
    order.Nodup ∧ ∀ path, path ∈ order ↔ s.entries.contains path = true

theorem Rooted.treeShaped (hs : s.Rooted) : s.TreeShaped where
  valid path hentry := by
    have hpath := isEntryPath_of_contains hs hentry
    simpa [isEntryPath] using hpath
  persistent_above path hentry above habove := by
    rcases contains_iff.1 hentry with ⟨entry, hget⟩
    exact hs.parents path entry hget above habove
  bare_below path entry id hget howner := by
    have hbare : ∀ below, s.entries.contains below = true → ¬ IsAbove path below := fun below =>
      hs.not_isAbove_of_owner hget howner
    refine ⟨Bool.eq_false_iff.2 fun hdescendant => ?_, hbare⟩
    rcases (hasDescendant_iff (hs.paths path entry hget)).1 hdescendant with
      ⟨below, hbelow, habove⟩
    exact hbare below hbelow habove
  visited := visits_walk hs
  visited_once order horder := by
    rw [horder.unique (visits_walk hs)]
    exact ⟨nodup_walkBelow hs rfl _, fun path => mem_walk_iff hs⟩

end Store

/-- The tree has its shape in every store that a run leads to. -/
theorem tree_shape (clock : Clock) (timeout : Duration) (actions : List ServiceAction) :
    ((Service.fresh clock timeout).after actions).store.TreeShaped := by
  have hreachable : ((Service.fresh clock timeout).after actions).store.Reachable :=
    ⟨clock, timeout, actions, rfl⟩
  exact hreachable.entriesSound.rooted.treeShaped

/-- A parent that is missing is created first, and visited first. -/
example :
    let actions := [.openSession, .put "/a/c" [], .call ⟨1⟩ (.create "/b/r-" []), .put "/a/b" []]
    ((Service.fresh {} .halfMinute).after actions).store.walk =
      ["/a", "/a/b", "/a/c", "/b", "/b/r-0000000000"] := by decide

end FencedPool
