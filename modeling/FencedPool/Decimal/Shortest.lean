import FencedPool.Decimal.Binary64
import FencedPool.Text.Padded

/-!
# Shortest — the fewest digits that read back

A binary64 value is written with the fewest decimal digits that still round to it, and of those with
the nearest; where two are equally near, a format says which one counts.  A value owns an interval
of reals, half way to each neighbour; its ends belong to it exactly when its mantissa is even.  For
one digit, two digits and so on, the grid of decimals with that many digits has at most two
candidates, the neighbours of the value.

This file defines:

* `Shortest.Tie` — which of two equally near decimals counts;
* `Shortest.digits` — the digits and the place of the last one;
* `FloatStyle` and `FloatStyle.render` — how digits are laid out around the point.
-/

namespace FencedPool

namespace Shortest

/-- A decimal number, `digits * 10 ^ place`. -/
structure Numeral where
  digits : Nat
  place : Int
  deriving DecidableEq, Repr

/-- Which of two neighbours counts that are equally near: the one with the even last digit, or the
one farther from zero. -/
inductive Tie
  | toEven
  | away
  deriving DecidableEq, Repr

def Tie.takesBelow (tie : Tie) (below : Nat) : Bool :=
  match tie with
  | .toEven => below % 2 == 0
  | .away => false

/-- Three points on a scale of quarter units in the last place, as multiples of `num / den`: the
value and the ends of its interval. -/
structure Interval where
  low : Nat
  value : Nat
  high : Nat
  closed : Bool
  num : Nat
  den : Nat

/-- The reals that round to a positive value.  The lower neighbour of a power of two is at half the
distance. -/
def interval (x : Binary64) : Interval :=
  let quarter := x.exponent - 2
  -- at the least exponent the spacing below is the same as above
  let atPowerOfTwo := x.mantissa = Power.two 52 ∧ Binary64.leastExponent < x.exponent
  { low := if atPowerOfTwo then 4 * x.mantissa - 1 else 4 * x.mantissa - 2
    value := 4 * x.mantissa
    high := 4 * x.mantissa + 2
    -- the ends of the interval round to the even mantissa
    closed := x.mantissa % 2 = 0
    num := if 0 ≤ quarter then Power.two quarter.toNat else 1
    den := if 0 ≤ quarter then 1 else Power.two (-quarter).toNat }

/-- The power of ten at the first digit of `num / den`. -/
def leadingPlace (num den : Nat) : Int :=
  if den ≤ num then (Nat.toDigits 10 (num / den)).length - 1
  else
    -- 400 is beyond the place of the least positive value
    match (List.range 400).find? fun k => den ≤ num * Power.ten k with
    | some k => -(k : Int)
    | none => -400

/-- The candidate on the grid `10 ^ place` that lies in the interval.  When both of the value's
neighbours do, the nearer one counts. -/
def candidate? (tie : Tie) (i : Interval) (place : Int) : Option Nat :=
  let up := if 0 ≤ place then Power.ten place.toNat else 1
  let down := if 0 ≤ place then 1 else Power.ten (-place).toNat
  -- all comparisons are between naturals, over one denominator
  let scale := fun (p : Nat) => p * i.num * down
  let step := up * i.den
  let below := scale i.value / step
  let fits := fun (c : Nat) =>
    if i.closed then decide (scale i.low ≤ c * step ∧ c * step ≤ scale i.high)
    else decide (scale i.low < c * step ∧ c * step < scale i.high)
  -- twice the point halfway between the neighbours
  let middle := (2 * below + 1) * step
  let nearerBelow : Bool :=
    2 * scale i.value < middle || (2 * scale i.value == middle && tie.takesBelow below)
  match fits below, fits (below + 1) with
  | true, true => some (if nearerBelow then below else below + 1)
  | true, false => some below
  | false, true => some (below + 1)
  | false, false => none

def trim (digits : Nat) (place : Int) : Numeral :=
  let ds := (Nat.toDigits 10 digits).reverse
  let zeros := (ds.takeWhile (· == '0')).length
  ⟨digits / Power.ten zeros, place + zeros⟩

/-- The shortest decimal that rounds to a positive value; seventeen digits always suffice. -/
def digits (tie : Tie) (x : Binary64) : Numeral :=
  let i := interval x
  let lead := leadingPlace x.ratio.1 x.ratio.2
  -- the coarsest grid with a candidate has the fewest digits
  let found := (List.range 17).findSome? fun (n : Nat) =>
    (candidate? tie i (lead - n)).map fun c => trim c (lead - n)
  found.getD ⟨0, 0⟩

end Shortest

/-- How values are written: at which powers of ten of the first digit without an exponent, and
which of two equally near decimals counts. -/
structure FloatStyle where
  positional : Int → Bool
  tie : Shortest.Tie

namespace FloatStyle

/-- Digits around a point, always with one digit on each side of it. -/
def plain (digits : List Char) (lead : Int) : List Char :=
  if lead < 0 then '0' :: '.' :: List.replicate (-lead - 1).toNat '0' ++ digits
  else
    let whole := lead.toNat + 1
    if digits.length ≤ whole then
      digits ++ List.replicate (whole - digits.length) '0' ++ ['.', '0']
    else digits.take whole ++ '.' :: digits.drop whole

def scientific (digits : List Char) (lead : Int) : List Char :=
  let mantissa :=
    match digits with
    | [] => []
    | [d] => [d]
    | d :: rest => d :: '.' :: rest
  mantissa ++ 'e' :: (if lead < 0 then '-' else '+') :: Nat.toDigits 10 lead.natAbs

def render (style : FloatStyle) (x : Binary64) : String :=
  let body :=
    if x.mantissa = 0 then ['0', '.', '0']
    else
      let n := Shortest.digits style.tie x
      let ds := Nat.toDigits 10 n.digits
      let lead := n.place + ds.length - 1
      if style.positional lead then plain ds lead else scientific ds lead
  String.ofList (if x.negative then '-' :: body else body)

end FloatStyle

end FencedPool
