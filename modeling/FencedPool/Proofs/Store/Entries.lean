import FencedPool.Proofs.Path.Ancestry
import FencedPool.Proofs.Text.Order

/-!
# Entries — what the operations do to the tree

An entry can be created anywhere below persistent entries, and the parents that are missing are
created with it.  In a store whose tree has no gaps, a session's entry above the new one is found
before any parent has been created, so a refused creation leaves no parents behind.

This file defines:

* `Store.isEphemeral` and `Store.blocked?` — what stands in the way of an entry;
* `Store.withParents` — the missing ones among given paths created;
* `Store.Rooted` — a tree without gaps;
* `Store.belowParents_eq` — what creating below missing parents comes to.

The lookup equations `get?_write`, `get?_remove`, `get?_removeAll` and `get?_withParents` say what
becomes of each entry.
-/

namespace FencedPool

open FencedPool.Path

/-! ## Lookups -/

theorem Table.get?_foldl_erase {α : Type} (t : Table String α) (keys : List String) (k : String) :
    (keys.foldl erase t).get? k = if k ∈ keys then none else t.get? k := by
  induction keys generalizing t with
  | nil => rfl
  | cons key rest ih =>
      rw [List.foldl_cons, ih, get?_erase]
      by_cases hrest : k ∈ rest
      · simp [hrest]
      · by_cases hkey : k = key <;> simp [hrest, hkey]

namespace Store

variable {s s' : Store} {path : String}

theorem contains_iff : s.entries.contains path = true ↔ ∃ entry, s.entries.get? path = some entry :=
  Option.isSome_iff_exists

theorem get?_write (s : Store) (path : String) (entry : Entry) (event : WatchEvent) (p : String) :
    (s.write path entry event).entries.get? p =
      if p = path then some entry else s.entries.get? p :=
  s.entries.get?_insert path p entry

theorem get?_remove (s : Store) (path p : String) :
    (s.remove path).entries.get? p = if p = path then none else s.entries.get? p :=
  s.entries.get?_erase path p

theorem get?_removeAll (s : Store) (paths : List String) (p : String) :
    (paths.foldl remove s).entries.get? p = if p ∈ paths then none else s.entries.get? p := by
  have hentries : paths.foldl Table.erase s.entries = (paths.foldl remove s).entries :=
    List.foldl_hom entries fun _ _ => rfl
  rw [← hentries, Table.get?_foldl_erase]

/-! ## Children -/

theorem pairwise_keys {α : Type} (t : Table String α) : t.keys.Pairwise (· < ·) := by
  unfold Table.keys
  rw [List.pairwise_map]
  refine t.ascending.imp fun {a b} hab => ?_
  exact compareOfLessAndEq_eq_lt.1 hab

/-- The descendants of a path are the first ones from where they would begin. -/
theorem takeWhile_pathsFrom (s : Store) (path : String) :
    (s.pathsFrom path).takeWhile (isBelow path) = s.entries.keys.filter (isBelow path) := by
  refine Text.scan_eq_filter (fun p => ?_) (fun p => List.isPrefixOf_iff_prefix)
    (pairwise_keys s.entries)
  rw [beq_iff_eq, show compare p _ = compareOfLessAndEq p _ from rfl, compareOfLessAndEq_eq_lt,
    String.lt_iff, String.toList_ofList]

theorem hasDescendant_iff_exists :
    s.hasDescendant path = true ↔
      ∃ below, s.entries.contains below = true ∧ isBelow path below = true := by
  have hfirst : s.hasDescendant path = true ↔
      (s.pathsFrom path).takeWhile (isBelow path) ≠ [] := by
    unfold hasDescendant
    cases s.pathsFrom path with
    | nil => simp
    | cons first rest =>
        by_cases hbelow : isBelow path first = true
        · simp [hbelow]
        · simp [hbelow]
  rw [hfirst, takeWhile_pathsFrom, ← List.isEmpty_eq_false_iff,
    List.isEmpty_eq_false_iff_exists_mem]
  simp only [List.mem_filter, Table.mem_keys_iff]

/-- The children of a path are listed in the order of their paths, each once. -/
theorem pairwise_children (s : Store) (path : String) : (s.children path).Pairwise (· < ·) := by
  unfold children
  rw [takeWhile_pathsFrom]
  exact ((pairwise_keys s.entries).filter _).filter _

theorem nodup_children (s : Store) (path : String) : (s.children path).Nodup := by
  refine (s.pairwise_children path).imp fun {a b} hab => ?_
  rintro rfl
  exact String.lt_irrefl a hab

theorem mem_children_iff {parent : String} :
    path ∈ s.children parent ↔ s.entries.contains path = true ∧ isChild parent path = true := by
  unfold children
  rw [takeWhile_pathsFrom, List.filter_filter, List.mem_filter, Table.mem_keys_iff]
  -- a child is a descendant in particular
  simp only [isChild, Bool.and_eq_true]
  exact ⟨fun h => ⟨h.1, h.2.1⟩, fun h => ⟨h.1, h.2, h.2.1⟩⟩

/-! ## Parents -/

/-- Whether the entry at a path belongs to a session. -/
def isEphemeral (s : Store) (path : String) : Bool :=
  (s.entries.get? path).any (·.owner.isSome)

theorem isEphemeral_iff :
    s.isEphemeral path = true ↔
      ∃ entry id, s.entries.get? path = some entry ∧ entry.owner = some id := by
  unfold isEphemeral
  cases hentry : s.entries.get? path with
  | none => simp
  | some entry => simp [Option.isSome_iff_exists]

/-- The outermost entry above a path that belongs to a session. -/
def blocked? (s : Store) (path : String) : Option String :=
  (ancestors path).find? s.isEphemeral

/-- The store after the missing ones among given paths have been created. -/
def withParents (s : Store) : List String → Store
  | [] => s
  | path :: rest =>
      if s.entries.contains path then s.withParents rest
      else (s.write path { data := [] } (.created path)).withParents rest

/-- Entries that exist stay as they are, and the missing ones are empty and persistent. -/
theorem get?_withParents (s : Store) (paths : List String) (p : String) :
    (s.withParents paths).entries.get? p =
      (s.entries.get? p).or (if p ∈ paths then some { data := [] } else none) := by
  induction paths generalizing s with
  | nil => simp [withParents]
  | cons path rest ih =>
      unfold withParents
      cases hentry : s.entries.get? path with
      | none =>
          have hmissing : ¬ s.entries.contains path = true := by simp [Table.contains, hentry]
          rw [if_neg hmissing, ih, get?_write]
          by_cases hp : p = path
          · simp [hp, hentry]
          · simp [hp]
      | some entry =>
          have hpresent : s.entries.contains path = true := contains_iff.2 ⟨entry, hentry⟩
          rw [if_pos hpresent, ih]
          by_cases hp : p = path
          · simp [hp, hentry]
          · simp [hp]

/-- The creation of parents changes nothing at a path that is none of them. -/
theorem get?_withParents_of_not_mem {paths : List String} (h : path ∉ paths) :
    (s.withParents paths).entries.get? path = s.entries.get? path := by
  rw [get?_withParents, if_neg h, Option.or_none]

theorem ensureParents_of_persistent {paths : List String}
    (h : ∀ above ∈ paths, s.isEphemeral above = false) :
    s.ensureParents paths = (.ok (), s.withParents paths) := by
  induction paths generalizing s with
  | nil => rfl
  | cons path rest ih =>
      unfold ensureParents withParents
      rcases List.forall_mem_cons.1 h with ⟨hpath, hrest⟩
      cases hentry : s.entries.get? path with
      | none =>
          have hmissing : ¬ s.entries.contains path = true := by simp [Table.contains, hentry]
          rw [if_neg hmissing]
          refine ih fun above habove => ?_
          -- the new parent is persistent, and no other entry has changed
          have hsame := hrest above habove
          unfold isEphemeral at hsame ⊢
          rw [get?_write]
          split
          · rfl
          · exact hsame
      | some entry =>
          have hpresent : s.entries.contains path = true := contains_iff.2 ⟨entry, hentry⟩
          have howner : ¬ entry.owner.isSome = true := by
            simpa [isEphemeral, hentry] using hpath
          rw [if_pos hpresent]
          simp only [if_neg howner]
          exact ih hrest

/-- Where the paths before an ephemeral entry are persistent entries, nothing is created. -/
theorem ensureParents_of_ephemeral {before after : List String} {above : String}
    (hbefore : ∀ p ∈ before, s.entries.contains p = true ∧ s.isEphemeral p = false)
    (habove : s.isEphemeral above = true) :
    s.ensureParents (before ++ above :: after) =
      (.error (.badPath (above ++ " is ephemeral and cannot have children")), s) := by
  induction before with
  | nil =>
      rcases isEphemeral_iff.1 habove with ⟨entry, id, hentry, howner⟩
      simp [ensureParents, hentry, howner]
  | cons path before ih =>
      rcases List.forall_mem_cons.1 hbefore with ⟨⟨hpresent, hpersistent⟩, hrest⟩
      rcases contains_iff.1 hpresent with ⟨entry, hentry⟩
      have howner : entry.owner.isSome = false := by
        simpa [isEphemeral, hentry] using hpersistent
      rw [List.cons_append]
      unfold ensureParents
      simp only [hentry, howner]
      exact ih hrest

/-- A tree without gaps: its paths are well-formed, and above every entry there are persistent
entries. -/
structure Rooted (s : Store) : Prop where
  paths : ∀ path entry, s.entries.get? path = some entry → isEntryPath path = true
  parents : ∀ path entry, s.entries.get? path = some entry → ∀ above, IsAbove above path →
    ∃ parent, s.entries.get? above = some parent ∧ parent.owner = none

/-- A tree without gaps has nothing below an ephemeral entry. -/
theorem Rooted.not_isAbove_of_owner (hs : s.Rooted) {entry : Entry} {id : SessionId}
    (hentry : s.entries.get? path = some entry) (howner : entry.owner = some id) {below : String}
    (hbelow : s.entries.contains below = true) : ¬ IsAbove path below := by
  intro habove
  rcases contains_iff.1 hbelow with ⟨entry', hentry'⟩
  rcases hs.parents below entry' hentry' path habove with ⟨parent, hparent, hnone⟩
  obtain rfl : entry = parent := Option.some.inj (hentry.symm.trans hparent)
  rw [howner] at hnone
  cases hnone

theorem Rooted.not_isAbove_of_absent (hs : s.Rooted) (habsent : s.entries.get? path = none)
    {below : String} (hbelow : s.entries.contains below = true) : ¬ IsAbove path below := by
  intro habove
  rcases contains_iff.1 hbelow with ⟨entry, hentry⟩
  rcases hs.parents below entry hentry path habove with ⟨parent, hparent, -⟩
  rw [habsent] at hparent
  cases hparent

/-- A creation below parents is refused and changes nothing, or goes on with all parents there. -/
theorem belowParents_eq {α : Type} (hs : s.Rooted) (path : String) (next : Store → Outcome α) :
    s.belowParents path next =
      match s.blocked? path with
      | some above => (.error (.badPath (above ++ " is ephemeral and cannot have children")), s)
      | none => next (s.withParents (ancestors path)) := by
  unfold belowParents
  cases hblocked : s.blocked? path with
  | none =>
      have hpersistent : ∀ above ∈ ancestors path, s.isEphemeral above = false := by
        intro above habove
        simpa using List.find?_eq_none.1 hblocked above habove
      rw [ensureParents_of_persistent hpersistent]
  | some above =>
      rcases List.find?_eq_some_iff_append.1 hblocked with ⟨habove, before, after, hlist, hbefore⟩
      have horder := pairwise_ancestors path
      rw [hlist] at horder
      rcases isEphemeral_iff.1 habove with ⟨entry, -, hentry, -⟩
      have hpresent : ∀ p ∈ before, s.entries.contains p = true ∧ s.isEphemeral p = false := by
        intro p hp
        -- what comes before the ephemeral entry stands above it, so it exists
        have hpAbove : IsAbove p above := (List.pairwise_append.1 horder).2.2 p hp above (by simp)
        rcases hs.parents above entry hentry p hpAbove with ⟨parent, hparent, -⟩
        exact ⟨contains_iff.2 ⟨parent, hparent⟩, by simpa using hbefore p hp⟩
      rw [hlist, ensureParents_of_ephemeral hpresent habove]

/-- When nothing stands in the way, all paths above are persistent entries afterwards. -/
theorem get?_withParents_of_mem {above : String} (hfree : s.blocked? path = none)
    (habove : above ∈ ancestors path) :
    ∃ parent, (s.withParents (ancestors path)).entries.get? above = some parent ∧
      parent.owner = none := by
  rw [get?_withParents]
  cases hentry : s.entries.get? above with
  | none => exact ⟨{ data := [] }, by simp [habove], rfl⟩
  | some entry =>
      have hpersistent := List.find?_eq_none.1 hfree above habove
      refine ⟨entry, rfl, ?_⟩
      simpa [isEphemeral, hentry] using hpersistent

end Store

end FencedPool
