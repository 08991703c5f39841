import FencedPool.Decimal.Binary64
import FencedPool.Table

/-!
# Value — decoded JSON

A value keeps the members of an object in the order in which they are written.  Reading without a
schema puts them in ascending key order, so what was read is `Canonical`; records are written in the
order of their fields.

This file defines `Json`, its decidable equality, `Json.Canonical` and `Json.member?`.
-/

namespace FencedPool

/-- A number: an integer, or a binary64 value when it was written with a fraction or an exponent or
does not fit 64 bits. -/
inductive Json.Number
  | integer (i : Int)
  | double (x : Binary64)
  deriving DecidableEq, Repr

inductive Json
  | null
  | bool (b : Bool)
  | num (n : Json.Number)
  | str (s : String)
  | arr (items : List Json)
  | obj (members : List (String × Json))
  deriving Repr, Inhabited

namespace Json

mutual

def decEq : (a b : Json) → Decidable (a = b)
  | .null, .null => isTrue rfl
  | .bool x, .bool y => decidable_of_iff (x = y) (by simp)
  | .num x, .num y => decidable_of_iff (x = y) (by simp)
  | .str x, .str y => decidable_of_iff (x = y) (by simp)
  | .arr x, .arr y =>
      match decEqItems x y with
      | isTrue h => isTrue (by rw [h])
      | isFalse h => isFalse (by simpa using h)
  | .obj x, .obj y =>
      match decEqMembers x y with
      | isTrue h => isTrue (by rw [h])
      | isFalse h => isFalse (by simpa using h)
  | .null, .bool _ | .null, .num _ | .null, .str _ | .null, .arr _ | .null, .obj _
  | .bool _, .null | .bool _, .num _ | .bool _, .str _ | .bool _, .arr _ | .bool _, .obj _
  | .num _, .null | .num _, .bool _ | .num _, .str _ | .num _, .arr _ | .num _, .obj _
  | .str _, .null | .str _, .bool _ | .str _, .num _ | .str _, .arr _ | .str _, .obj _
  | .arr _, .null | .arr _, .bool _ | .arr _, .num _ | .arr _, .str _ | .arr _, .obj _
  | .obj _, .null | .obj _, .bool _ | .obj _, .num _ | .obj _, .str _ | .obj _, .arr _ =>
      isFalse nofun

def decEqItems : (a b : List Json) → Decidable (a = b)
  | [], [] => isTrue rfl
  | x :: xs, y :: ys =>
      match decEq x y, decEqItems xs ys with
      | isTrue h, isTrue hs => isTrue (by rw [h, hs])
      | isFalse h, _ => isFalse (by simp [h])
      | _, isFalse hs => isFalse (by simp [hs])
  | [], _ :: _ | _ :: _, [] => isFalse nofun

def decEqMembers : (a b : List (String × Json)) → Decidable (a = b)
  | [], [] => isTrue rfl
  | (k, x) :: xs, (j, y) :: ys =>
      match decEq x y, decEqMembers xs ys with
      | isTrue h, isTrue hs =>
          decidable_of_iff (k = j) (by simp [h, hs])
      | isFalse h, _ => isFalse (by simp [h])
      | _, isFalse hs => isFalse (by simp [hs])
  | [], _ :: _ | _ :: _, [] => isFalse nofun

end

instance : DecidableEq Json := decEq

/-- Every object in a value has its members in strictly ascending key order. -/
inductive Canonical : Json → Prop
  | null : Canonical .null
  | bool (b : Bool) : Canonical (.bool b)
  | num (n : Number) : Canonical (.num n)
  | str (s : String) : Canonical (.str s)
  | arr {items : List Json} (h : ∀ v ∈ items, Canonical v) : Canonical (.arr items)
  | obj {members : List (String × Json)} (order : Entries.Ascending members)
      (h : ∀ e ∈ members, Canonical e.2) : Canonical (.obj members)

/-- The member of a value that may be absent. -/
def member? {α : Type} (key : String) (value : Option α) (toJson : α → Json) :
    List (String × Json) :=
  (value.map fun a => (key, toJson a)).toList

end Json

end FencedPool
