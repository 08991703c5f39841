import FencedPool.Duration
import FencedPool.Text.Blank
import FencedPool.Text.Padded

/-!
# Text — durations as people write them

A duration is written as its parts from years down to nanoseconds, each a number and a unit, with
the parts that are zero left out.  It is read as the sum of any number of such items in any order;
blanks may stand around them and even between the digits of a number.  A number may have a fraction,
which must come out in whole nanoseconds, or in whole seconds for units from the hour up.

This file defines `Duration.text` and `Duration.read?`.
-/

namespace FencedPool

inductive TimeUnit
  | nano
  | micro
  | milli
  | second
  | minute
  | hour
  | day
  | week
  | month
  | year
  deriving DecidableEq, Repr

namespace TimeUnit

def named? : String → Option TimeUnit
  | "nanos" | "nsec" | "ns" => some .nano
  | "usec" | "us" | "µs" => some .micro
  | "millis" | "msec" | "ms" => some .milli
  | "seconds" | "second" | "secs" | "sec" | "s" => some .second
  | "minutes" | "minute" | "min" | "mins" | "m" => some .minute
  | "hours" | "hour" | "hr" | "hrs" | "h" => some .hour
  | "days" | "day" | "d" => some .day
  | "weeks" | "week" | "wk" | "wks" | "w" => some .week
  | "months" | "month" | "M" => some .month
  | "years" | "year" | "yr" | "yrs" | "y" => some .year
  | _ => none

/-- The whole seconds of a unit; a month is a twelfth of a year of 365.25 days. -/
def seconds : TimeUnit → Nat
  | .nano | .micro | .milli => 0
  | .second => 1
  | .minute => 60
  | .hour => 3600
  | .day => 86400
  | .week => 604800
  | .month => 2630016
  | .year => 31557600

def nanos : TimeUnit → Nat
  | .nano => 1
  | .micro => 1000
  | .milli => 1000000
  | _ => 0

/-- What a fraction of a unit is counted in: seconds and nanoseconds of the whole unit.  There is no
fraction of a nanosecond. -/
def parts? : TimeUnit → Option (Nat × Nat)
  | .nano => none
  | .micro => some (0, 1000)
  | .milli => some (0, 1000000)
  | .second => some (0, nanosPerSecond)
  | .minute => some (0, 60 * nanosPerSecond)
  | u => some (u.seconds, 0)

end TimeUnit

namespace Duration

/-! ## Writing -/

def part (n : Nat) (unit : String) : List String :=
  if n = 0 then [] else [Text.decimal n ++ unit]

def pluralPart (n : Nat) (unit : String) : List String :=
  part n (if 1 < n then unit ++ "s" else unit)

/-- The parts of a duration that are not zero. -/
def parts (d : Duration) : List String :=
  let inYear := d.seconds % TimeUnit.year.seconds
  let inMonth := inYear % TimeUnit.month.seconds
  let inDay := inMonth % TimeUnit.day.seconds
  pluralPart (d.seconds / TimeUnit.year.seconds) "year"
    ++ pluralPart (inYear / TimeUnit.month.seconds) "month"
    ++ pluralPart (inMonth / TimeUnit.day.seconds) "day"
    ++ part (inDay / 3600) "h" ++ part (inDay % 3600 / 60) "m" ++ part (inDay % 60) "s"
    ++ part (d.nanos / 1000000) "ms" ++ part (d.nanos / 1000 % 1000) "us"
    ++ part (d.nanos % 1000) "ns"

def text (d : Duration) : String :=
  if d.isZero then "0s" else " ".intercalate d.parts

/-! ## Reading -/

/-- A fraction in lowest digits, `numerator / denominator` with a power of ten below. -/
structure Fraction where
  numerator : Nat
  denominator : Nat

def word? (n : Nat) : Option Nat := if n < Power.two 64 then some n else none

/-- A share of a unit that comes out whole. -/
def share? (f : Fraction) (whole : Nat) : Option Nat := do
  -- the product may not exceed 64 bits, even if the share would not
  let product ← word? (f.numerator * whole)
  if product % f.denominator = 0 then some (product / f.denominator) else none

def addItem? (sum : Duration) (n : Nat) (f : Option Fraction) (unit : List Char) :
    Option Duration := do
  let u ← TimeUnit.named? (String.ofList unit)
  let seconds ← word? (n * u.seconds)
  let nanos ← word? (n * u.nanos)
  -- the nanoseconds are added as 64-bit words before any carry
  let _ ← word? (sum.nanos + nanos)
  let whole ← sum.add? seconds nanos
  match f with
  | none => some whole
  | some f =>
      let (inSeconds, inNanos) ← u.parts?
      let seconds ← share? f inSeconds
      let nanos ← share? f inNanos
      whole.add? seconds nanos

/-- Where a reader stands: before a number, in its digits, in its fraction, or in its unit. -/
inductive Stage
  | number
  | whole (n : Nat)
  | fraction (n : Nat) (f : Fraction)
  | unit (n : Nat) (f : Option Fraction) (name : List Char)

def digit? (c : Char) : Option Nat :=
  if '0' ≤ c ∧ c ≤ '9' then some (c.toNat - '0'.toNat) else none

def isUnitLetter (c : Char) : Bool :=
  ('a' ≤ c && c ≤ 'z') || ('A' ≤ c && c ≤ 'Z') || c == 'µ'

def Fraction.push? (f : Fraction) (d : Nat) : Option Fraction := do
  let denominator ← word? (f.denominator * 10)
  let numerator ← word? (f.numerator * 10 + d)
  some ⟨numerator, denominator⟩

def readFrom (sum : Duration) : Stage → List Char → Option Duration
  | .number, [] => some sum
  -- digits without a unit are no item
  | .whole _, [] => none
  | .fraction _ _, [] => none
  | .unit n f name, [] => addItem? sum n f name
  | .number, c :: rest =>
      match digit? c with
      | some d => readFrom sum (.whole d) rest
      | none => if Text.isBlank c then readFrom sum .number rest else none
  | .whole n, c :: rest =>
      match digit? c with
      | some d =>
          match word? (n * 10 + d) with
          | some m => readFrom sum (.whole m) rest
          | none => none
      | none =>
          -- blanks may stand between the digits and the unit, and between digits
          if Text.isBlank c then readFrom sum (.whole n) rest
          else if isUnitLetter c then readFrom sum (.unit n none [c]) rest
          else if c = '.' then readFrom sum (.fraction n ⟨0, 1⟩) rest
          else none
  | .fraction n f, c :: rest =>
      match digit? c with
      | some d =>
          match f.push? d with
          | some g => readFrom sum (.fraction n g) rest
          | none => none
      | none =>
          if Text.isBlank c then readFrom sum (.fraction n f) rest
          -- a point needs at least one digit after it
          else if isUnitLetter c ∧ f.denominator ≠ 1 then readFrom sum (.unit n (some f) [c]) rest
          else none
  | .unit n f name, c :: rest =>
      match digit? c with
      | some d =>
          match addItem? sum n f name with
          -- a digit starts the next item at once
          | some sum' => readFrom sum' (.whole d) rest
          | none => none
      | none =>
          if Text.isBlank c then
            match addItem? sum n f name with
            | some sum' => readFrom sum' .number rest
            | none => none
          else if isUnitLetter c then readFrom sum (.unit n f (name ++ [c])) rest
          else none

/-- The duration that a text stands for.  A bare zero needs no unit; blanks alone are no item. -/
def read? (s : String) : Option Duration :=
  if s = "0" then some zero
  else if Text.isAllBlank s then none
  else readFrom zero .number s.toList

end Duration

end FencedPool
