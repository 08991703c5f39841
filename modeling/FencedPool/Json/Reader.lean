import FencedPool.Json.Numeral
import FencedPool.Json.Text

/-!
# Reader — JSON text without a schema

A reader takes the symbols of a text and gives a result and the symbols after it, or the first
fault.  The whole value is decoded: a repeated member keeps its last value, members end up in
ascending key order, and at most 127 arrays and objects may be nested.

A value that a schema does not know is passed over instead: its brackets must match and its words,
numbers and strings must have the right form, and nothing else is looked at.

This file defines:

* `Reader`, and the loops `foldItems` and `foldMembers` over arrays and objects;
* `readValue` and `skipValue`;
* `Json.parse` — a whole text.
-/

namespace FencedPool

namespace Json

/-- Takes symbols, gives a result and what is left of them. -/
abbrev Reader (α : Type) := List Symbol → Except Fault (α × List Symbol)

/-! ## Tokens -/

def isSpace (x : Symbol) : Bool :=
  x == some ' ' || x == some '\n' || x == some '\t' || x == some '\r'

def skipSpace (s : List Symbol) : List Symbol := s.dropWhile isSpace

def word : List Char → List Symbol → Except Fault (List Symbol)
  | [], s => .ok s
  | _ :: _, [] => .error .endInValue
  | c :: cs, x :: rest => if x = some c then word cs rest else .error .wordWanted

def colon (s : List Symbol) : Except Fault (List Symbol) :=
  match skipSpace s with
  | some ':' :: rest => .ok rest
  | [] => .error .endInObject
  | _ => .error .colonWanted

/-! ## Arrays and objects -/

inductive Next
  | item (s : List Symbol)
  | done (s : List Symbol)

/-- Looks for the next item of an array. -/
def nextItem (first : Bool) (s : List Symbol) : Except Fault Next :=
  match skipSpace s with
  | [] => .error .endInList
  | some ']' :: rest => .ok (.done rest)
  | some ',' :: rest =>
      -- the comma is left to the reader of the item, which refuses it
      if first then .ok (.item (some ',' :: rest))
      else
        match skipSpace rest with
        | [] => .error .endInValue
        | some ']' :: _ => .error .trailingComma
        | more => .ok (.item more)
  | more => if first then .ok (.item more) else .error .listCommaOrEndWanted

/-- Looks for the next key of an object; an item stands after the opening quote of its key. -/
def nextKey (first : Bool) (s : List Symbol) : Except Fault Next :=
  match skipSpace s with
  | [] => .error .endInObject
  | some '\x7d' :: rest => .ok (.done rest)
  | some '"' :: rest => if first then .ok (.item rest) else .error .objectCommaOrEndWanted
  | some ',' :: rest =>
      if first then .error .textKeyWanted
      else
        match skipSpace rest with
        | [] => .error .endInValue
        | some '\x7d' :: _ => .error .trailingComma
        | some '"' :: more => .ok (.item more)
        | _ => .error .textKeyWanted
  | _ => .error (if first then .textKeyWanted else .objectCommaOrEndWanted)

variable {σ : Type}

/-- Reads items after the opening bracket.  Every round takes a symbol, so there are no more rounds
than symbols. -/
def foldItems (item : σ → Reader σ) : Nat → Bool → σ → Reader σ
  | 0, _, _, _ => .error .endInList
  | rounds + 1, first, acc, s =>
      match nextItem first s with
      | .error e => .error e
      | .ok (.done rest) => .ok (acc, rest)
      | .ok (.item s') =>
          match item acc s' with
          | .error e => .error e
          | .ok (acc', s'') => foldItems item rounds false acc' s''

/-- Reads members after the opening brace; a member is read from behind its key. -/
def foldMembers (member : σ → String → Reader σ) : Nat → Bool → σ → Reader σ
  | 0, _, _, _ => .error .endInObject
  | rounds + 1, first, acc, s =>
      match nextKey first s with
      | .error e => .error e
      | .ok (.done rest) => .ok (acc, rest)
      | .ok (.item s') =>
          match Text.read s' with
          | .error e => .error e
          | .ok (key, s'') =>
              match member acc key s'' with
              | .error e => .error e
              | .ok (acc', rest) => foldMembers member rounds false acc' rest

def items (item : σ → Reader σ) (start : σ) : Reader σ := fun s =>
  foldItems item (s.length + 1) true start s

def members (member : σ → String → Reader σ) (start : σ) : Reader σ := fun s =>
  foldMembers member (s.length + 1) true start s

/-! ## Values -/

/-- Reads a value in which at most `depth` more arrays and objects may be nested. -/
def readValue : Nat → Reader Json
  | depth, s =>
      match skipSpace s with
      | [] => .error .endInValue
      | some 'n' :: rest => (word ['u', 'l', 'l'] rest).map (.null, ·)
      | some 't' :: rest => (word ['r', 'u', 'e'] rest).map (.bool true, ·)
      | some 'f' :: rest => (word ['a', 'l', 's', 'e'] rest).map (.bool false, ·)
      | some '-' :: rest => (Numeral.read true rest).map fun r => (.num r.1, r.2)
      | some '"' :: rest => (Text.read rest).map fun r => (.str r.1, r.2)
      | some '[' :: rest =>
          match depth with
          | 0 => .error .tooDeep
          | inner + 1 =>
              let item := fun (acc : List Json) s =>
                (readValue inner s).map fun r => (r.1 :: acc, r.2)
              -- the items were gathered in reverse
              (items item [] rest).map fun r => (.arr r.1.reverse, r.2)
      | some '\x7b' :: rest =>
          match depth with
          | 0 => .error .tooDeep
          | inner + 1 =>
              let member := fun (acc : List (String × Json)) key s =>
                match colon s with
                | .error e => .error e
                -- of members with one key the last counts
                | .ok s' => (readValue inner s').map fun r => (Entries.insert key r.1 acc, r.2)
              (members member [] rest).map fun r => (.obj r.1, r.2)
      | x :: rest =>
          if (Numeral.digit? x).isSome then
            (Numeral.read false (x :: rest)).map fun r => (.num r.1, r.2)
          else .error .valueWanted

/-- The greatest number of nested arrays and objects. -/
def maxDepth : Nat := 127

def finish {α : Type} : α × List Symbol → Except Fault α
  | (v, s) => if skipSpace s = [] then .ok v else .error .trailingCharacters

def parse (data : Bytes) : Except Fault Json :=
  (readValue maxDepth (Utf8.symbols data)).bind finish

/-! ## Passing over a value -/

inductive Bracket
  | list
  | object
  deriving DecidableEq

def Bracket.close : Bracket → Char
  | .list => ']'
  | .object => '\x7d'

def skipKey (s : List Symbol) : Except Fault (List Symbol) :=
  match skipSpace s with
  | [] => .error .endInObject
  | some '"' :: rest =>
      match Text.skip rest with
      | .error e => .error e
      | .ok after => colon after
  | _ => .error .textKeyWanted

/-- From behind a value or an opening bracket to the next value, closing what ends on the way; the
result holds the brackets that are still open. -/
def skipToValue : Bool → List Bracket → List Symbol → Except Fault (List Bracket × List Symbol)
  | _, [], s => .ok ([], s)
  | comma, b :: outer, s =>
      -- inside an object a value comes after its key
      let ready := fun s' =>
        match b with
        | .list => .ok (b :: outer, s')
        | .object => (skipKey s').map (b :: outer, ·)
      match skipSpace s with
      | [] => .error (match b with | .list => .endInList | .object => .endInObject)
      | x :: rest =>
          if x = some b.close then skipToValue true outer rest
          else if comma then
            if x = some ',' then ready rest
            else .error (match b with
              | .list => .listCommaOrEndWanted
              | .object => .objectCommaOrEndWanted)
          else ready (x :: rest)

/-- Passes over a word, a number or a string at the head of a text, or over an opening bracket,
which is then given. -/
def skipToken (s : List Symbol) : Except Fault (Option Bracket × List Symbol) :=
  match s with
  | [] => .error .endInValue
  | some 'n' :: rest => (word ['u', 'l', 'l'] rest).map (none, ·)
  | some 't' :: rest => (word ['r', 'u', 'e'] rest).map (none, ·)
  | some 'f' :: rest => (word ['a', 'l', 's', 'e'] rest).map (none, ·)
  | some '-' :: rest => (Numeral.skip rest).map (none, ·)
  | some '"' :: rest => (Text.skip rest).map (none, ·)
  | some '[' :: rest => .ok (some .list, rest)
  | some '\x7b' :: rest => .ok (some .object, rest)
  | x :: rest =>
      if (Numeral.digit? x).isSome then (Numeral.skip (x :: rest)).map (none, ·)
      else .error .valueWanted

/-- Passes over values until no bracket is open; every round takes a symbol. -/
def skipOpen : Nat → List Bracket → List Symbol → Except Fault (List Symbol)
  | 0, _, _ => .error .endInValue
  | rounds + 1, opened, s =>
      match skipToken (skipSpace s) with
      | .error e => .error e
      | .ok (bracket, rest) =>
          let inside := match bracket with | some b => b :: opened | none => opened
          -- an opening bracket is followed by an item or its end, not by a comma
          match skipToValue bracket.isNone inside rest with
          | .error e => .error e
          | .ok ([], after) => .ok after
          | .ok (b :: outer, after) => skipOpen rounds (b :: outer) after

def skipValue (s : List Symbol) : Except Fault (List Symbol) := skipOpen (s.length + 1) [] s

end Json

end FencedPool
