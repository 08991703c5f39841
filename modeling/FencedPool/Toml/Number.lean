import FencedPool.Toml.Text
import FencedPool.Toml.Value

/-!
# Number — numbers, dates and times in TOML

An integer fits 64 bits with its sign; it is decimal with an optional sign, or hexadecimal, octal or
binary without one.  A number with a fraction or an exponent is a double.  An underscore may stand
between two digits.  A moment is a date, a time of day, or a date with a time and perhaps an offset.

This file defines `Number.read` and `Moment.read`.
-/

namespace FencedPool

namespace Toml

namespace Number

def digit? (base : Nat) (c : Char) : Option Nat := (hexValue? c).filter (· < base)

/-- The digits at the head of a text, with underscores between them, and what follows. -/
def spanDigits (base : Nat) : List Char → List Nat × List Char
  | [] => ([], [])
  | '_' :: c :: rest =>
      match digit? base c with
      | some d =>
          let more := spanDigits base rest
          (d :: more.1, more.2)
      | none => ([], '_' :: c :: rest)
  | c :: rest =>
      match digit? base c with
      | some d =>
          let more := spanDigits base rest
          (d :: more.1, more.2)
      | none => ([], c :: rest)

/-- At least one digit, none of them led by an underscore but those after the first. -/
def digits? (base : Nat) : List Char → Option (List Nat × List Char)
  | [] => none
  | c :: rest => (digit? base c).map fun d =>
      let more := spanDigits base rest
      (d :: more.1, more.2)

def valueOf (base : Nat) (digits : List Nat) : Nat := digits.foldl (fun n d => n * base + d) 0

def integer? (i : Int) : Option Value :=
  if -(Power.two 63 : Int) ≤ i ∧ i < Power.two 63 then some (.integer i) else none

def readBase (base : Nat) (s : List Char) : Option (Value × List Char) := do
  let (ds, rest) ← digits? base s
  (integer? (valueOf base ds)).map (·, rest)

/-- The integer part of a decimal number: a zero stands alone. -/
def whole? : List Char → Option (List Nat × List Char)
  | '0' :: rest => some ([0], rest)
  | s => digits? 10 s

def sign : List Char → Bool × List Char
  | '+' :: rest => (false, rest)
  | '-' :: rest => (true, rest)
  | rest => (false, rest)

def fraction? : List Char → Option (List Nat × List Char)
  | '.' :: rest => digits? 10 rest
  | s => some ([], s)

def exponentAfter? (s : List Char) : Option (Int × List Char) := do
  let (minus, s) := sign s
  let (ds, rest) ← digits? 10 s
  let n : Int := valueOf 10 ds
  some (if minus then -n else n, rest)

def exponent? : List Char → Option (Option Int × List Char)
  | 'e' :: rest | 'E' :: rest => (exponentAfter? rest).map fun r => (some r.1, r.2)
  | s => some (none, s)

/-- The double of a decimal.  One that is too large is refused when it is positive and infinite when
it is negative. -/
def double? (negative : Bool) (digits : Nat) (e : Int) : Option Real :=
  match Binary64.ofDecimal? negative digits e with
  | some x => some (.finite x)
  | none => if negative then some (.infinite true) else none

def readDecimal (negative : Bool) (s : List Char) : Option (Value × List Char) := do
  let (whole, s) ← whole? s
  let (fraction, s) ← fraction? s
  let (exponent, s) ← exponent? s
  if fraction = [] ∧ exponent = none then
    let n : Int := valueOf 10 whole
    (integer? (if negative then -n else n)).map (·, s)
  else
    let x ← double? negative (valueOf 10 (whole ++ fraction))
      (exponent.getD 0 - fraction.length)
    some (.float x, s)

def read (s : List Char) : Option (Value × List Char) :=
  match s with
  | '0' :: 'x' :: rest => readBase 16 rest
  | '0' :: 'o' :: rest => readBase 8 rest
  | '0' :: 'b' :: rest => readBase 2 rest
  | _ =>
      let (negative, rest) := sign s
      match rest with
      | 'i' :: 'n' :: 'f' :: after => some (.float (.infinite negative), after)
      | 'n' :: 'a' :: 'n' :: after => some (.float .notANumber, after)
      | _ => readDecimal negative rest

end Number

namespace Moment

/-- Reads two digits with a value between bounds. -/
def two? (low high : Nat) : List Char → Option (Nat × List Char)
  | a :: b :: rest => do
      let n := (← Number.digit? 10 a) * 10 + (← Number.digit? 10 b)
      if low ≤ n ∧ n ≤ high then some (n, rest) else none
  | _ => none

def char? (c : Char) : List Char → Option (List Char)
  | x :: rest => if x = c then some rest else none
  | [] => none

def isLeap (year : Nat) : Bool := year % 4 == 0 && (year % 100 != 0 || year % 400 == 0)

def daysIn (year month : Nat) : Nat :=
  if month = 2 then (if isLeap year then 29 else 28)
  else if month = 4 ∨ month = 6 ∨ month = 9 ∨ month = 11 then 30
  else 31

def date? (s : List Char) : Option (List Char) := do
  let (century, s) ← two? 0 99 s
  let (year, s) ← two? 0 99 s
  let (month, s) ← two? 1 12 (← char? '-' s)
  let (_, s) ← two? 1 (daysIn (century * 100 + year) month) (← char? '-' s)
  some s

def fraction (s : List Char) : List Char :=
  let isDigit := fun (c : Char) => (Number.digit? 10 c).isSome
  match s with
  | '.' :: rest => if rest.takeWhile isDigit = [] then s else rest.dropWhile isDigit
  | _ => s

/-- Passes over a time of day.  A minute may have a leap second. -/
def time? (s : List Char) : Option (List Char) := do
  let (_, s) ← two? 0 23 s
  let (_, s) ← two? 0 59 (← char? ':' s)
  let (_, s) ← two? 0 60 (← char? ':' s)
  some (fraction s)

def offset (s : List Char) : List Char :=
  match s with
  | 'Z' :: rest | 'z' :: rest => rest
  | '+' :: rest | '-' :: rest =>
      let clock? := do
        let (_, r) ← two? 0 23 rest
        let (_, r) ← two? 0 59 (← char? ':' r)
        some r
      clock?.getD s
  | _ => s

def timeAfterDate (s : List Char) : List Char :=
  match s with
  | 'T' :: rest | 't' :: rest | ' ' :: rest => ((time? rest).map offset).getD s
  | _ => s

def read (s : List Char) : Option (Value × List Char) :=
  match date? s with
  | some rest => some (.moment, timeAfterDate rest)
  | none => (time? s).map (.moment, ·)

end Moment

end Toml

end FencedPool
