import FencedPool.Proofs.Json.Strings

/-!
# Layout — arrays and objects are read item by item and member by member

A value that is written without blanks has its items and members one behind the other, with a comma
between any two and a bracket at the end.  Where every single item or member can be read at its
place, the loop over all of them reads the whole and stops behind the closing bracket.

This file defines:

* `Json.Ends` — how a text goes on behind a value;
* `Json.ReadsItems` and `Json.ReadsMembers` — what a loop gathers from values that are written.

The main statements are `Json.items_written` and `Json.members_written`.
-/

namespace FencedPool

namespace Json

variable {σ : Type}

/-- Whether a text goes on as it does behind a value: with a comma, with a closing bracket, or not
at all. -/
def Ends : List Symbol → Prop
  | [] => True
  | x :: _ => x = some ',' ∨ x = some ']' ∨ x = some '\x7d'

/-- Whether the text of a value begins so that it can be an item. -/
def Opens (v : Json) : Prop :=
  ∃ c more, v.compact = c :: more ∧ isSpace (some c) = false ∧ c ≠ ']' ∧ c ≠ ','

theorem opens_str (s : String) : Opens (.str s) :=
  ⟨'"', _, rfl, by decide, by decide, by decide⟩

theorem skipSpace_of_not_isSpace {x : Symbol} (hx : isSpace x = false) (rest : List Symbol) :
    skipSpace (x :: rest) = x :: rest := by
  simp [skipSpace, hx]

/-! ## Items -/

/-- What a loop over items gathers from given values. -/
inductive ReadsItems (item : σ → Reader σ) : σ → List Json → σ → Prop
  | nil (acc : σ) : ReadsItems item acc [] acc
  | cons {acc next last : σ} {v : Json} {values : List Json} (opens : Opens v)
      (head : ∀ rest, Ends rest → item acc (v.compact.map some ++ rest) = .ok (next, rest))
      (tail : ReadsItems item next values last) : ReadsItems item acc (v :: values) last

/-- An item is left to its reader, from its first symbol on. -/
theorem nextItem_first {v : Json} (h : Opens v) (rest : List Symbol) :
    nextItem true (v.compact.map some ++ rest) = .ok (.item (v.compact.map some ++ rest)) := by
  rcases h with ⟨c, more, hv, hspace, hclose, hcomma⟩
  rw [hv, List.map_cons, List.cons_append]
  unfold nextItem
  rw [skipSpace_of_not_isSpace hspace]
  split
  · next h => cases h
  · next h =>
      cases h
      exact absurd rfl hclose
  · next h =>
      cases h
      exact absurd rfl hcomma
  · rfl

theorem nextItem_later {v : Json} (h : Opens v) (rest : List Symbol) :
    nextItem false (some ',' :: v.compact.map some ++ rest) =
      .ok (.item (v.compact.map some ++ rest)) := by
  rcases h with ⟨c, more, hv, hspace, hclose, -⟩
  rw [hv, List.map_cons, List.cons_append, List.cons_append]
  unfold nextItem
  rw [skipSpace_of_not_isSpace (by decide)]
  split
  · next h => cases h
  · next h => cases h
  · next h =>
      cases h
      rw [if_neg Bool.false_ne_true, skipSpace_of_not_isSpace hspace]
      split
      · next h => cases h
      · next h =>
          cases h
          exact absurd rfl hclose
      · rfl
  · next _ hcomma =>
      exact absurd rfl (hcomma _)

theorem ends_compactItems (values : List Json) (rest : List Symbol) :
    Ends ((compactItems values).map some ++ rest) := by
  cases values with
  | nil => exact .inr (.inl rfl)
  | cons v values => exact .inl rfl

theorem length_le_compactItems (values : List Json) :
    values.length ≤ (compactItems values).length := by
  induction values with
  | nil => exact Nat.zero_le _
  | cons v values ih =>
      simp only [compactItems, List.length_cons, List.length_append]
      omega

variable {item : σ → Reader σ} {acc last : σ}

/-- The items after the first are read up to the closing bracket. -/
theorem foldItems_compactItems {values : List Json} (h : ReadsItems item acc values last)
    {rounds : Nat} (hrounds : values.length < rounds) (rest : List Symbol) :
    foldItems item rounds false acc ((compactItems values).map some ++ rest) =
      .ok (last, rest) := by
  -- every round takes one item, and the last one the bracket
  induction h generalizing rounds with
  | nil acc =>
      cases rounds with
      | zero => exact absurd hrounds (Nat.not_lt_zero _)
      | succ rounds => rfl
  | @cons acc next last v values opens head tail ih =>
      cases rounds with
      | zero => exact absurd hrounds (Nat.not_lt_zero _)
      | succ rounds =>
          have hlater := ih (Nat.lt_of_succ_lt_succ hrounds)
          have hnext := nextItem_later opens ((compactItems values).map some ++ rest)
          have hitem := head _ (ends_compactItems values rest)
          simp only [compactItems, List.cons_append, List.map_cons, List.map_append,
            List.append_assoc] at hnext ⊢
          rw [foldItems, hnext]
          dsimp only
          rw [hitem]
          exact hlater

/-- The items of an array are read from behind its opening bracket. -/
theorem items_written {values : List Json} (h : ReadsItems item acc values last)
    (rest : List Symbol) :
    items item acc ((compact (.arr values)).tail.map some ++ rest) = .ok (last, rest) := by
  unfold items
  cases h with
  | nil => rfl
  | @cons _ next _ v values opens head tail =>
      have hitem := head _ (ends_compactItems values rest)
      have hlength := length_le_compactItems values
      have htext : (compact (.arr (v :: values))).tail.map some ++ rest =
          v.compact.map some ++ ((compactItems values).map some ++ rest) := by
        simp [compact]
      rw [htext, foldItems, nextItem_first opens]
      dsimp only
      rw [hitem]
      refine foldItems_compactItems tail ?_ rest
      simp only [List.length_append, List.length_map]
      rcases opens with ⟨c, more, hv, -⟩
      rw [hv, List.length_cons]
      omega

/-! ## Members -/

/-- What a loop over members gathers from given members. -/
inductive ReadsMembers (member : σ → String → Reader σ) : σ → List (String × Json) → σ → Prop
  | nil (acc : σ) : ReadsMembers member acc [] acc
  | cons {acc next last : σ} {key : String} {v : Json} {rest : List (String × Json)}
      (head : ∀ more, Ends more →
        member acc key (some ':' :: v.compact.map some ++ more) = .ok (next, more))
      (tail : ReadsMembers member next rest last) : ReadsMembers member acc ((key, v) :: rest) last

theorem ends_compactMembers (members : List (String × Json)) (rest : List Symbol) :
    Ends ((compactMembers members).map some ++ rest) := by
  cases members with
  | nil => exact .inr (.inr rfl)
  | cons m members => exact .inl rfl

theorem length_le_compactMembers (members : List (String × Json)) :
    members.length ≤ (compactMembers members).length := by
  induction members with
  | nil => exact Nat.zero_le _
  | cons m members ih =>
      simp only [compactMembers, List.length_cons, List.length_append]
      omega

variable {member : σ → String → Reader σ}

/-- A key is read from behind its opening quote. -/
theorem read_key (key : String) (rest : List Symbol) :
    Text.read ((Text.render key).tail.map some ++ rest) = .ok (key, rest) :=
  Text.read_written key rest

/-- The members after the first are read up to the closing brace. -/
theorem foldMembers_compactMembers {written : List (String × Json)}
    (h : ReadsMembers member acc written last) {rounds : Nat} (hrounds : written.length < rounds)
    (rest : List Symbol) :
    foldMembers member rounds false acc ((compactMembers written).map some ++ rest) =
      .ok (last, rest) := by
  -- every round takes one member, and the last one the brace
  induction h generalizing rounds with
  | nil acc =>
      cases rounds with
      | zero => exact absurd hrounds (Nat.not_lt_zero _)
      | succ rounds => rfl
  | @cons acc next last key v written head tail ih =>
      cases rounds with
      | zero => exact absurd hrounds (Nat.not_lt_zero _)
      | succ rounds =>
          have hlater := ih (Nat.lt_of_succ_lt_succ hrounds)
          have hmember := head _ (ends_compactMembers written rest)
          have htext : (compactMembers ((key, v) :: written)).map some ++ rest =
              some ',' :: some '"' :: ((Text.render key).tail.map some ++
                (some ':' :: v.compact.map some ++
                  ((compactMembers written).map some ++ rest))) := by
            simp [compactMembers, Text.render]
          have hnext : ∀ more, nextKey false (some ',' :: some '"' :: more) = .ok (.item more) :=
            fun more => rfl
          rw [htext, foldMembers, hnext]
          dsimp only
          rw [read_key]
          dsimp only
          rw [hmember]
          exact hlater

/-- The members of an object are read from behind its opening brace. -/
theorem members_written {written : List (String × Json)}
    (h : ReadsMembers member acc written last) (rest : List Symbol) :
    members member acc ((compact (.obj written)).tail.map some ++ rest) = .ok (last, rest) := by
  unfold members
  cases h with
  | nil => rfl
  | @cons _ next _ key v written head tail =>
      have hmember := head _ (ends_compactMembers written rest)
      have hlength := length_le_compactMembers written
      have htext : (compact (.obj ((key, v) :: written))).tail.map some ++ rest =
          some '"' :: ((Text.render key).tail.map some ++
            (some ':' :: v.compact.map some ++ ((compactMembers written).map some ++ rest))) := by
        simp [compact, Text.render]
      have hnext : ∀ more, nextKey true (some '"' :: more) = .ok (.item more) := fun more => rfl
      rw [htext, foldMembers, hnext]
      dsimp only
      rw [read_key]
      dsimp only
      rw [hmember]
      refine foldMembers_compactMembers tail ?_ rest
      simp only [List.length_cons, List.length_append, List.length_map]
      omega

end Json

end FencedPool
