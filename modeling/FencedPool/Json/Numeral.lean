import FencedPool.Decimal.Shortest
import FencedPool.Json.Fault
import FencedPool.Json.Value
import FencedPool.Text.Utf8

/-!
# Numeral — numbers in JSON text

An integer of 64 bits, signed or not, stays an integer; every other number becomes a binary64 value.
Its digits are gathered into a significand of at most 64 bits: integer digits that no longer fit
count as powers of ten, fraction digits that no longer fit are dropped.  The significand is rounded,
then multiplied or divided by the rounded power of ten, so a value can be one unit off the nearest.

This file defines:

* `Numeral.read`, which gives the number, and `Numeral.skip`, which only checks its form;
* `numberStyle` and `Number.render` — how a number is written.
-/

namespace FencedPool

namespace Json

namespace Numeral

def digit? : Symbol → Option Nat
  | some c => if '0' ≤ c ∧ c ≤ '9' then some (c.toNat - '0'.toNat) else none
  | none => none

/-- The digits at the head of a text, and what follows them. -/
def spanDigits : List Symbol → List Nat × List Symbol
  | [] => ([], [])
  | x :: rest =>
      match digit? x with
      | some d =>
          let more := spanDigits rest
          (d :: more.1, more.2)
      | none => ([], x :: rest)

/-- Appends digits to a significand as long as it has at most 64 bits, and gives those left over. -/
def absorb (significand : Nat) : List Nat → Nat × List Nat
  | [] => (significand, [])
  | d :: rest =>
      if significand * 10 + d < Power.two 64 then absorb (significand * 10 + d) rest
      else (significand, d :: rest)

/-- The rounded power of ten; all up to this exponent have one. -/
def tenTo (k : Nat) : Binary64 :=
  (Binary64.nearest? false (Power.ten k) 1).getD (.zero false)

def greatestTenPower : Nat := 308

/-- A value times a power of ten.  A power below the least one is divided out in steps. -/
def scale (x : Binary64) (e : Int) : Except Fault Binary64 :=
  if e.natAbs ≤ greatestTenPower then
    if 0 ≤ e then
      match x.mul? (tenTo e.toNat) with
      | some y => .ok y
      | none => .error .numberOutOfRange
    else .ok ((x.div? (tenTo (-e).toNat)).getD (.zero x.negative))
  else if x.mantissa = 0 then .ok x
  else if 0 ≤ e then .error .numberOutOfRange
  else scale ((x.div? (tenTo greatestTenPower)).getD (.zero x.negative)) (e + greatestTenPower)
termination_by (-e).toNat
decreasing_by simp only [greatestTenPower] at *; omega

def double (negative : Bool) (significand : Nat) (e : Int) : Except Fault Number :=
  (scale ((Binary64.nearest? negative significand 1).getD (.zero negative)) e).map .double

def whole (negative : Bool) (significand : Nat) : Except Fault Number :=
  if negative then
    -- negative zero and what does not fit 64 bits are no integers
    if significand = 0 ∨ Power.two 63 < significand then double true significand 0
    else .ok (.integer (-(significand : Int)))
  else .ok (.integer significand)

def greatestExponent : Nat := Power.two 31 - 1

/-- The value of a significand with an exponent part.  An exponent without bound gives zero when it
is negative or the significand is zero, and is out of range otherwise. -/
def withExponent (negative : Bool) (significand : Nat) (e : Int) (minus : Bool) (ds : List Nat) :
    Except Fault Number :=
  -- without bound here, where a reader of 32 bits would stop
  let n := ds.foldl (fun n d => n * 10 + d) 0
  if greatestExponent < n then
    if significand ≠ 0 ∧ minus = false then .error .numberOutOfRange
    else .ok (.double (.zero negative))
  else double negative significand (if minus then e - n else e + n)

def exponentSign : List Symbol → Bool × List Symbol
  | some '+' :: rest => (false, rest)
  | some '-' :: rest => (true, rest)
  | rest => (false, rest)

def exponentMark : List Symbol → Option (List Symbol)
  | some 'e' :: rest | some 'E' :: rest => some rest
  | _ => none

def digitWanted : List Symbol → Fault
  | [] => .endInValue
  | _ => .badNumber

def readExponent (negative : Bool) (significand : Nat) (e : Int) (s : List Symbol) :
    Except Fault (Number × List Symbol) :=
  let sign := exponentSign s
  let span := spanDigits sign.2
  if span.1 = [] then .error (digitWanted sign.2)
  else (withExponent negative significand e sign.1 span.1).map (·, span.2)

/-- Reads what may follow the integer digits; `carried` of those are not in the significand. -/
def readTail (negative : Bool) (significand carried : Nat) (s : List Symbol) :
    Except Fault (Number × List Symbol) :=
  match s with
  | some '.' :: rest =>
      let span := spanDigits rest
      if span.1 = [] then .error (digitWanted rest)
      else
        let kept := absorb significand span.1
        -- only digits that have entered the significand shift the point
        let e : Int := carried - ((span.1.length : Int) - kept.2.length)
        match exponentMark span.2 with
        | some after => readExponent negative kept.1 e after
        | none => (double negative kept.1 e).map (·, span.2)
  | _ =>
      match exponentMark s with
      | some after => readExponent negative significand carried after
      | none =>
          -- an integer that is too long becomes a double
          if carried = 0 then (whole negative significand).map (·, s)
          else (double negative significand carried).map (·, s)

/-- Reads a number after its sign.  A zero at the front stands alone. -/
def read (negative : Bool) (s : List Symbol) : Except Fault (Number × List Symbol) :=
  let span := spanDigits s
  match span.1 with
  | [] => .error (digitWanted s)
  | 0 :: _ :: _ => .error .badNumber
  | ds =>
      let kept := absorb 0 ds
      readTail negative kept.1 kept.2.length span.2

def skipExponent (s : List Symbol) : Except Fault (List Symbol) :=
  let span := spanDigits (exponentSign s).2
  if span.1 = [] then .error .badNumber else .ok span.2

def skip (s : List Symbol) : Except Fault (List Symbol) :=
  let span := spanDigits s
  match span.1 with
  | [] => .error .badNumber
  | 0 :: _ :: _ => .error .badNumber
  | _ =>
      match span.2 with
      | some '.' :: rest =>
          let fraction := spanDigits rest
          if fraction.1 = [] then .error .badNumber
          else
            match exponentMark fraction.2 with
            | some after => skipExponent after
            | none => .ok fraction.2
      | after =>
          match exponentMark after with
          | some more => skipExponent more
          | none => .ok after

end Numeral

/-- Doubles are written without an exponent from `1e-5` up to sixteen integer digits, and of two
equally near decimals the one with the even last digit counts. -/
def numberStyle : FloatStyle := ⟨fun lead => -5 ≤ lead ∧ lead ≤ 15, .toEven⟩

def Number.render : Number → String
  | .integer i => Text.signedDecimal i
  | .double x => numberStyle.render x

end Json

end FencedPool
