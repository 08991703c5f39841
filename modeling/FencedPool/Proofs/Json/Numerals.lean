import FencedPool.Json.Reader
import FencedPool.Proofs.Text.Digits

/-!
# Numerals — an integer is read back from its digits

A number goes on as long as its text does with digits, a point or an exponent.  Where the text stops
doing so, the reader has taken exactly the digits that were written, and they give the integer as
long as that has 64 bits.

This file defines:

* `Json.Numeral.Stops` — that a text does not go on with a number;
* `Json.Number.IsWord` — the integers that are read as integers.

The main statement is `Json.readValue_integer`.
-/

namespace FencedPool

namespace Json

namespace Numeral

/-- Whether the symbols are the digits of a list. -/
def Spells (s : List Symbol) (digits : List Nat) : Prop := s.map digit? = digits.map some

def NoDigit (s : List Symbol) : Prop := ∀ x ∈ s.head?, digit? x = none

/-- Whether a text does not go on with a number. -/
def Stops (s : List Symbol) : Prop :=
  ∀ x ∈ s.head?, digit? x = none ∧ x ≠ some '.' ∧ x ≠ some 'e' ∧ x ≠ some 'E'

theorem Stops.noDigit {s : List Symbol} (h : Stops s) : NoDigit s := fun x hx => (h x hx).1

/-! ## Digits -/

/-- All digits are taken that stand at the head of a text. -/
theorem spanDigits_append {s rest : List Symbol} {digits : List Nat} (hs : Spells s digits)
    (hrest : NoDigit rest) : spanDigits (s ++ rest) = (digits, rest) := by
  induction s generalizing digits with
  | nil =>
      obtain rfl : digits = [] := List.map_eq_nil_iff.1 hs.symm
      cases rest with
      | nil => rfl
      | cons x rest =>
          have hx : digit? x = none := hrest x rfl
          simp only [List.nil_append, spanDigits, hx]
  | cons x s ih =>
      cases digits with
      | nil => cases hs
      | cons d digits =>
          rcases List.cons.inj hs with ⟨hx, hmore⟩
          simp only [List.cons_append, spanDigits, hx, ih hmore]

theorem digit?_of_isDigit {c : Char} (h : c.isDigit = true) :
    digit? (some c) = some (c.toNat - '0'.toNat) := by
  rcases Text.digit_bounds h with ⟨hlow, hhigh⟩
  have hdigit : '0' ≤ c ∧ c ≤ '9' := ⟨hlow, hhigh⟩
  simp only [digit?, if_pos hdigit]

theorem spells_toDigits (n : Nat) :
    Spells ((Nat.toDigits 10 n).map some)
      ((Nat.toDigits 10 n).map fun c => c.toNat - '0'.toNat) := by
  unfold Spells
  rw [List.map_map, List.map_map]
  exact List.map_congr_left fun c hc =>
    digit?_of_isDigit (Nat.isDigit_of_mem_toDigits (by decide) (by decide) hc)

/-- The value of digits, each of which moves those before it up by one place. -/
def valueFrom (start : Nat) (digits : List Nat) : Nat :=
  digits.foldl (fun n d => n * 10 + d) start

theorem le_valueFrom (start : Nat) (digits : List Nat) : start ≤ valueFrom start digits := by
  induction digits generalizing start with
  | nil => exact Nat.le_refl _
  | cons d digits ih =>
      have hmore : start * 10 + d ≤ valueFrom start (d :: digits) := ih (start * 10 + d)
      omega

theorem valueFrom_toDigits (n : Nat) :
    valueFrom 0 ((Nat.toDigits 10 n).map fun c => c.toNat - '0'.toNat) = n :=
  Text.foldl_toDigits n

/-- All digits fit as long as their value has 64 bits. -/
theorem absorb_eq {start : Nat} {digits : List Nat}
    (h : valueFrom start digits < Power.two 64) :
    absorb start digits = (valueFrom start digits, []) := by
  induction digits generalizing start with
  | nil => rfl
  | cons d digits ih =>
      have hfits : start * 10 + d < Power.two 64 :=
        Nat.lt_of_le_of_lt (le_valueFrom (start * 10 + d) digits) h
      rw [absorb, if_pos hfits]
      exact ih h

/-! ## Integers -/

/-- The digits of a number of 64 bits are read as this number. -/
theorem read_decimal {n : Nat} (hn : n < Power.two 64) (negative : Bool) {rest : List Symbol}
    (hrest : Stops rest) :
    read negative ((Text.decimal n).toList.map some ++ rest) =
      (whole negative n).map (·, rest) := by
  have hspan := spanDigits_append (spells_toDigits n) hrest.noDigit
  have hvalue := valueFrom_toDigits n
  have habsorb := @absorb_eq 0 ((Nat.toDigits 10 n).map fun c => c.toNat - '0'.toNat)
    (by rwa [hvalue])
  rw [hvalue] at habsorb
  have htail : readTail negative n 0 rest = (whole negative n).map (·, rest) := by
    cases rest with
    | nil => rfl
    | cons x rest =>
        rcases hrest x rfl with ⟨-, hpoint, he, hE⟩
        have hmark : exponentMark (x :: rest) = none := by
          unfold exponentMark
          split
          · next h => exact absurd (List.cons.inj h).1 he
          · next h => exact absurd (List.cons.inj h).1 hE
          · rfl
        unfold readTail
        split
        · next h => exact absurd (List.cons.inj h).1 hpoint
        · simp only [hmark, if_true]
  unfold read Text.decimal
  rw [String.toList_ofList, hspan]
  dsimp only
  split
  · next h => exact absurd (List.map_eq_nil_iff.1 h) Nat.toDigits_ne_nil
  · next d more h =>
      -- more than one digit, so the number is not zero
      rcases List.map_eq_cons_iff.1 h with ⟨c, chars, hdigits, hc, hmore⟩
      have hpos : 0 < n := by
        refine Nat.pos_of_ne_zero fun hzero => ?_
        rw [hzero, Nat.toDigits_zero] at hdigits
        cases hdigits
        cases hmore
      exact absurd hc (Text.toDigits_head hpos hdigits)
  · rw [habsorb]
    exact htail

end Numeral

/-- The integers that are read as integers: those of 64 bits, signed or not. -/
def IsWord (i : Int) : Prop := -(Power.two 63 : Int) ≤ i ∧ i < Power.two 64

instance (i : Int) : Decidable (IsWord i) := inferInstanceAs (Decidable (_ ∧ _))

/-- A value that begins with a digit is a number. -/
theorem readValue_digit {x : Symbol} {d : Nat} (hx : Numeral.digit? x = some d) (depth : Nat)
    (rest : List Symbol) :
    readValue depth (x :: rest) =
      (Numeral.read false (x :: rest)).map fun r => (.num r.1, r.2) := by
  have hother : ∀ c : Char, Numeral.digit? (some c) = none → x ≠ some c := by
    rintro c hc rfl
    rw [hc] at hx
    cases hx
  have hspace : isSpace x = false := by
    unfold isSpace
    simp only [Bool.or_eq_false_iff, beq_eq_false_iff_ne]
    exact ⟨⟨⟨hother ' ' (by decide), hother '\n' (by decide)⟩, hother '\t' (by decide)⟩,
      hother '\r' (by decide)⟩
  have hskip : skipSpace (x :: rest) = x :: rest := by simp [skipSpace, hspace]
  rw [readValue, hskip]
  split
  · next h => cases h
  · next h => exact absurd (List.cons.inj h).1 (hother 'n' (by decide))
  · next h => exact absurd (List.cons.inj h).1 (hother 't' (by decide))
  · next h => exact absurd (List.cons.inj h).1 (hother 'f' (by decide))
  · next h => exact absurd (List.cons.inj h).1 (hother '-' (by decide))
  · next h => exact absurd (List.cons.inj h).1 (hother '"' (by decide))
  · next h => exact absurd (List.cons.inj h).1 (hother '[' (by decide))
  · next h => exact absurd (List.cons.inj h).1 (hother '\x7b' (by decide))
  · next h =>
      cases h
      rw [hx]
      rfl

/-- An integer of 64 bits is read back as it was written. -/
theorem readValue_integer {i : Int} (hi : IsWord i) (depth : Nat) {rest : List Symbol}
    (hrest : Numeral.Stops rest) :
    readValue depth ((Text.signedDecimal i).toList.map some ++ rest) =
      .ok (.num (.integer i), rest) := by
  rcases hi with ⟨hlow, hhigh⟩
  have hwidth : Power.two 63 < Power.two 64 := by decide
  unfold Text.signedDecimal
  by_cases hneg : i < 0
  · have hread := Numeral.read_decimal (n := i.natAbs) (by omega) true hrest
    have hwhole : Numeral.whole true i.natAbs = .ok (.integer i) := by
      unfold Numeral.whole
      rw [if_pos rfl, if_neg (by omega)]
      congr 2
      omega
    rw [hwhole] at hread
    rw [if_pos hneg, String.toList_append, List.map_append, List.append_assoc]
    change readValue depth (some '-' :: ((Text.decimal i.natAbs).toList.map some ++ rest)) = _
    rw [readValue]
    change (Numeral.read true ((Text.decimal i.natAbs).toList.map some ++ rest)).map _ = _
    rw [hread]
    rfl
  · have hread := Numeral.read_decimal (n := i.natAbs) (by omega) false hrest
    have hwhole : Numeral.whole false i.natAbs = .ok (.integer i) := by
      unfold Numeral.whole
      rw [if_neg Bool.false_ne_true]
      congr 2
      omega
    rw [hwhole] at hread
    rw [if_neg hneg]
    cases hdigits : (Text.decimal i.natAbs).toList with
    | nil =>
        rw [Text.decimal, String.toList_ofList] at hdigits
        exact absurd hdigits Nat.toDigits_ne_nil
    | cons c more =>
        have hc : c.isDigit = true := by
          refine Nat.isDigit_of_mem_toDigits (by decide) (by decide : 10 ≤ 10) (n := i.natAbs) ?_
          rw [← String.toList_ofList (l := Nat.toDigits 10 i.natAbs)]
          change c ∈ (Text.decimal i.natAbs).toList
          rw [hdigits]
          exact List.mem_cons_self
        rw [hdigits] at hread
        rw [List.map_cons, List.cons_append] at hread ⊢
        rw [readValue_digit (Numeral.digit?_of_isDigit hc), hread]
        rfl

end Json

end FencedPool
