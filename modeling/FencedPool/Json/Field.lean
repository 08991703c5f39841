import FencedPool.Json.Printer
import FencedPool.Json.Reader

/-!
# Field — reading a value of a known type

A record is read straight from the text: each field wants a value of its type and refuses any other
with a mismatch.  A value of another type must itself be well formed as far as it is named in the
mismatch, so a misspelt word or number is reported before its type.

This file defines:

* `Field.text`, `Field.optional`, `Field.texts`, `Field.natural`, `Field.choice` — field readers;
* `Field.once` and `Field.skip` — a field that must not be repeated, and a member to pass over;
* `Field.item` — the next field of a record that is written as an array.
-/

namespace FencedPool

namespace Json

def found : Json → Found
  | .null => .null
  | .bool b => .boolean b
  | .num (.integer i) => .integer i
  | .num (.double x) => .float (numberStyle.render x)
  | .str s => .text s
  | .arr _ => .sequence
  | .obj _ => .map

namespace Field

/-- The fault of a value of another type at the head of a text. -/
def wrongType (wanted : String) (s : List Symbol) : Fault :=
  let scalar := fun (r : Except Fault (Json × List Symbol)) =>
    match r with
    | .error e => e
    | .ok (v, _) => .mismatch (.wrongType v.found wanted)
  match s with
  | some '[' :: _ => .mismatch (.wrongType .sequence wanted)
  | some '\x7b' :: _ => .mismatch (.wrongType .map wanted)
  | _ => scalar (readValue 0 s)

def text : Reader String := fun s =>
  match skipSpace s with
  | [] => .error .endInValue
  | some '"' :: rest => Text.read rest
  | more => .error (wrongType "a string" more)

def optional {α : Type} (read : Reader α) : Reader (Option α) := fun s =>
  match skipSpace s with
  | some 'n' :: rest => (word ['u', 'l', 'l'] rest).map (none, ·)
  | more => (read more).map fun r => (some r.1, r.2)

def texts : Reader (List String) := fun s =>
  match skipSpace s with
  | [] => .error .endInValue
  | some '[' :: rest =>
      let item := fun (acc : List String) s => (text s).map fun r => (r.1 :: acc, r.2)
      (items item [] rest).map fun r => (r.1.reverse, r.2)
  | more => .error (wrongType "a sequence" more)

/-- A number as a natural below a bound, where `wanted` names the type with this bound. -/
def bounded (wanted : String) (bound : Nat) : Number → Except Mismatch Nat
  | .integer i =>
      if 0 ≤ i ∧ i < bound then .ok i.toNat else .error (.wrongValue (.integer i) wanted)
  | .double x => .error (.wrongType (.float (numberStyle.render x)) wanted)

def natural : Reader Nat := fun s =>
  let check := fun (r : Number × List Symbol) =>
    match bounded "u64" (Power.two 64) r.1 with
    | .ok n => .ok (n, r.2)
    | .error m => .error (.mismatch m)
  match skipSpace s with
  | [] => .error .endInValue
  | some '-' :: rest => (Numeral.read true rest).bind check
  | x :: rest =>
      if (Numeral.digit? x).isSome then (Numeral.read false (x :: rest)).bind check
      else .error (wrongType "u64" (x :: rest))

/-- Reads `null` as the last member of an object, with the closing brace. -/
def closingNull (s : List Symbol) : Except Fault (List Symbol) :=
  match skipSpace s with
  | [] => .error .endInValue
  | some 'n' :: rest =>
      match word ['u', 'l', 'l'] rest with
      | .error e => .error e
      | .ok after =>
          match skipSpace after with
          | some '\x7d' :: last => .ok last
          | [] => .error .endInObject
          | _ => .error .valueWanted
  | more => .error (wrongType "unit" more)

/-- Reads one of a list of names: as a string, or as the only key of an object whose value is
`null`. -/
def choice {α : Type} (known : List String) (named? : String → Option α) : Reader α := fun s =>
  let pick := fun (name : String) =>
    match named? name with
    | some a => .ok a
    | none => .error (.mismatch (.unknownVariant name known))
  match skipSpace s with
  | [] => .error .endInValue
  | some '"' :: rest => do
      let (name, after) ← Text.read rest
      let a ← pick name
      .ok (a, after)
  | some '\x7b' :: rest =>
      match nextKey true rest with
      | .error e => .error e
      | .ok (.done _) => .error .valueWanted
      | .ok (.item key) => do
          let (name, after) ← Text.read key
          let a ← pick name
          .ok (a, ← closingNull (← colon after))
  | _ => .error .valueWanted

/-- Reads a field that has no value yet, from behind its key. -/
def once {α : Type} (name : String) (current : Option α) (read : Reader α) : Reader (Option α) :=
  fun s =>
    if current.isSome then .error (.mismatch (.duplicateField name))
    else do
      let (v, rest) ← read (← colon s)
      .ok (some v, rest)

def skip {σ : Type} (acc : σ) : Reader σ := fun s => do
  let rest ← skipValue (← colon s)
  .ok (acc, rest)

def required {α : Type} (name : String) : Option α → Except Fault α
  | some a => .ok a
  | none => .error (.mismatch (.missingField name))

/-! ## Records written as arrays -/

/-- The next field of an array, if it has one; the symbols stay before a closing bracket. -/
def item? {α : Type} (first : Bool) (read : Reader α) : Reader (Option α) := fun s =>
  match nextItem first s with
  | .error e => .error e
  | .ok (.done _) => .ok (none, s)
  | .ok (.item s') => (read s').map fun r => (some r.1, r.2)

/-- The next field of an array, the `index`-th of a record described by `wanted`. -/
def item {α : Type} (index : Nat) (wanted : String) (read : Reader α) : Reader α := fun s =>
  match item? (index == 0) read s with
  | .error e => .error e
  | .ok (some a, rest) => .ok (a, rest)
  | .ok (none, _) => .error (.mismatch (.wrongLength index wanted))

/-- The closing bracket of an array that holds no further field. -/
def closeArray (s : List Symbol) : Except Fault (List Symbol) :=
  match skipSpace s with
  | [] => .error .endInList
  | some ']' :: rest => .ok rest
  | some ',' :: rest =>
      match skipSpace rest with
      | some ']' :: _ => .error .trailingComma
      | _ => .error .trailingCharacters
  | _ => .error .trailingCharacters

/-- Reads a record that is written as an object or as an array; `wanted` names it. -/
def record {α : Type} (wanted : String) (fromObject fromArray : Reader α) : Reader α := fun s =>
  match skipSpace s with
  | [] => .error .endInValue
  | some '[' :: rest => do
      let (a, after) ← fromArray rest
      .ok (a, ← closeArray after)
  | some '\x7b' :: rest => fromObject rest
  | more => .error (wrongType wanted more)

end Field

end Json

end FencedPool
