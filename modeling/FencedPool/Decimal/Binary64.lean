import FencedPool.Power

/-!
# Binary64 — finite double-precision numbers in exact arithmetic

A stored attribute may be a number with a fraction.  Such a number is kept as the binary64 value
that its text rounds to, and every rounding is done on natural numbers, so a value is an integer
times a power of two and nothing hangs on a machine's arithmetic.

This file defines:

* `Binary64` — a sign, a mantissa and a binary exponent;
* `Binary64.nearest?` — the value nearest to a quotient, ties to the even mantissa;
* `Binary64.mul?`, `Binary64.div?`, `Binary64.ofDecimal?` — what is computed with it.
-/

namespace FencedPool

/-- A finite binary64 number, `mantissa * 2 ^ exponent` with a sign.  The mantissa of a rounded
value has at most 53 bits, and fewer than 53 only at the least exponent. -/
structure Binary64 where
  negative : Bool
  mantissa : Nat
  exponent : Int
  deriving DecidableEq, Repr

namespace Binary64

def leastExponent : Int := -1074

def greatestExponent : Int := 971

def zero (negative : Bool) : Binary64 := ⟨negative, 0, leastExponent⟩

/-- The integer nearest to a quotient; of two that are equally near, the even one. -/
def roundHalfEven (num den : Nat) : Nat :=
  let q := num / den
  let r := num % den
  if den < 2 * r ∨ (2 * r = den ∧ q % 2 = 1) then q + 1 else q

def overPowerOfTwo (num den : Nat) (e : Int) : Nat × Nat :=
  if 0 ≤ e then (num, den * Power.two e.toNat) else (num * Power.two (-e).toNat, den)

/-- The value nearest to `num / den`, or `none` when that is beyond the greatest one. -/
def nearest? (negative : Bool) (num den : Nat) : Option Binary64 :=
  if num = 0 then some (zero negative)
  else
    -- the exponent for 53 bits, or one too large
    let guess : Int := (num.log2 : Int) - den.log2 - 52
    let trial := overPowerOfTwo num den guess
    let fit := if trial.1 / trial.2 < Power.two 52 then guess - 1 else guess
    -- below this the mantissa gets shorter instead
    let e := max fit leastExponent
    let exact := overPowerOfTwo num den e
    let m := roundHalfEven exact.1 exact.2
    -- rounding up can give one bit too many
    let carried := if m = Power.two 53 then (Power.two 52, e + 1) else (m, e)
    if greatestExponent < carried.2 then none else some ⟨negative, carried.1, carried.2⟩

/-- The size of a value as a quotient of naturals. -/
def ratio (x : Binary64) : Nat × Nat :=
  if 0 ≤ x.exponent then (x.mantissa * Power.two x.exponent.toNat, 1)
  else (x.mantissa, Power.two (-x.exponent).toNat)

def mul? (x y : Binary64) : Option Binary64 :=
  nearest? (x.negative != y.negative) (x.ratio.1 * y.ratio.1) (x.ratio.2 * y.ratio.2)

def div? (x y : Binary64) : Option Binary64 :=
  nearest? (x.negative != y.negative) (x.ratio.1 * y.ratio.2) (x.ratio.2 * y.ratio.1)

/-- The value nearest to `digits * 10 ^ e`.  Far outside the range the answer is known without the
power: nothing above, zero below. -/
def ofDecimal? (negative : Bool) (digits : Nat) (e : Int) : Option Binary64 :=
  let size : Int := (Nat.toDigits 10 digits).length + e
  if digits = 0 ∨ size < -400 then some (zero negative)
  else if 400 < size then none
  else if 0 ≤ e then nearest? negative (digits * Power.ten e.toNat) 1
  else nearest? negative digits (Power.ten (-e).toNat)

end Binary64

end FencedPool
