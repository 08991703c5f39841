/-!
# Path — names of entries in the coordination store

A path is absolute and `/`-separated: it is the root `/`, or a run of non-empty segments each led by
one slash.  The operations below are total on every text, well formed or not, because paths also
come from configurations and from stored records.

This file defines:

* `Path.join`, `Path.parent?`, `Path.lastSegment`, `Path.ancestors` — composition and decomposition;
* `Path.isValid` — the well-formed paths;
* `Path.identity?` — what follows the last sequence separator;
* `cutLast_eq_some_iff`, which says what the cut at the last occurrence of a character is.
-/

namespace FencedPool

namespace Path

/-! ## Cutting at a character -/

/-- What stands before and after the last occurrence of a character. -/
def cutLast (sep : Char) : List Char → Option (List Char × List Char)
  | [] => none
  | c :: rest =>
      match cutLast sep rest with
      | some (before, after) => some (c :: before, after)
      | none => if c = sep then some ([], rest) else none

theorem cutLast_eq_none_iff {sep : Char} {s : List Char} : cutLast sep s = none ↔ sep ∉ s := by
  induction s with
  | nil => simp [cutLast]
  | cons c rest ih =>
      cases h : cutLast sep rest with
      | some p =>
          have hmem : sep ∈ rest := Decidable.of_not_not fun hn => by simp [ih.2 hn] at h
          simp [cutLast, h, hmem]
      | none =>
          have hc : (sep = c) = (c = sep) := propext eq_comm
          simp [cutLast, h, ih.1 h, hc]

theorem cutLast_append {sep : Char} (before : List Char) {after : List Char} (h : sep ∉ after) :
    cutLast sep (before ++ sep :: after) = some (before, after) := by
  induction before with
  | nil => simp [cutLast, cutLast_eq_none_iff.2 h]
  | cons c before ih => simp [cutLast, ih]

theorem eq_append_of_cutLast {sep : Char} {s before after : List Char}
    (h : cutLast sep s = some (before, after)) : s = before ++ sep :: after ∧ sep ∉ after := by
  induction s generalizing before with
  | nil => simp [cutLast] at h
  | cons c rest ih =>
      simp only [cutLast] at h
      split at h
      · next hr =>
          obtain ⟨rfl, rfl⟩ := Prod.mk.inj (Option.some.inj h)
          exact (ih hr).imp (congrArg (c :: ·)) id
      · next hr =>
          split at h
          · next hc =>
              obtain ⟨rfl, rfl⟩ := Prod.mk.inj (Option.some.inj h)
              exact ⟨by simp only [hc, List.nil_append], cutLast_eq_none_iff.1 hr⟩
          · cases h

/-- The cut is at the one occurrence that has none after it. -/
theorem cutLast_eq_some_iff {sep : Char} {s before after : List Char} :
    cutLast sep s = some (before, after) ↔ s = before ++ sep :: after ∧ sep ∉ after :=
  ⟨eq_append_of_cutLast, fun h => h.1 ▸ cutLast_append before h.2⟩

def segments : List Char → List (List Char)
  | [] => [[]]
  | c :: rest =>
      if c = '/' then [] :: segments rest
      else
        match segments rest with
        | [] => [[c]]
        | first :: more => (c :: first) :: more

/-- What stands before each slash, shortest first. -/
def beforeSlashes : List Char → List (List Char)
  | [] => []
  | c :: rest =>
      let longer := (beforeSlashes rest).map (c :: ·)
      if c = '/' then [] :: longer else longer

/-! ## Operations -/

def root : String := "/"

/-- Whether a text is the root, or a run of non-empty segments each led by one slash. -/
def isValid (path : String) : Bool :=
  path == root ||
    match path.toList with
    | '/' :: rest => (segments rest).all (· ≠ [])
    | _ => false

/-- Puts a child below a base.  Slashes at the seam are trimmed, whatever their number; an empty
child gives the base, and an empty base with an empty child gives the root. -/
def join (base child : String) : String :=
  let above := (base.toList.reverse.dropWhile (· == '/')).reverse
  let below := child.toList.dropWhile (· == '/')
  if below = [] then
    if above = [] then root else String.ofList above
  else String.ofList (above ++ '/' :: below)

/-- The path above, up to the last slash; the root and a text without a slash have none. -/
def parent? (path : String) : Option String :=
  if path = root then none
  else
    match cutLast '/' path.toList with
    | none => none
    | some ([], _) => some root
    | some (above, _) => some (String.ofList above)

/-- What follows the last slash, or the whole text when it has none. -/
def lastSegment (path : String) : String :=
  match cutLast '/' path.toList with
  | none => path
  | some (_, name) => String.ofList name

/-- The paths strictly between the root and a path, outermost first. -/
def ancestors (path : String) : List String :=
  ((beforeSlashes path.toList).filter fun p => p ≠ [] ∧ p ≠ ['/']).map String.ofList

/-- Stands between a request's name and the number that the store appends. -/
def sequenceSeparator : Char := '-'

/-- What follows the last sequence separator, if anything does. -/
def identity? (path : String) : Option String :=
  match cutLast sequenceSeparator path.toList with
  | some (_, c :: rest) => some (String.ofList (c :: rest))
  | _ => none

end Path

structure InvalidPath where
  path : String
  deriving DecidableEq, Repr

def InvalidPath.message (e : InvalidPath) : String := "invalid request path: " ++ e.path

end FencedPool
