import FencedPool.Toml.Number
import FencedPool.Toml.Tables
import FencedPool.Toml.Text

/-!
# Reader — TOML documents

A document is a list of lines: pairs, headers, comments and empty lines.  Pairs belong to the header
above them.  A reader gives nothing when the text is not well formed, and does not say why.

This file defines:

* `Toml.Reader`, and the readers of blanks, comments, dotted keys and values;
* `Statement`, `statements` and `sections` — the lines of a document, and their grouping;
* `Toml.parse` — the entries of a whole text.
-/

namespace FencedPool

namespace Toml

/-- Takes characters, gives a result and what is left of them. -/
abbrev Reader (α : Type) := List Char → Option (α × List Char)

/-! ## Blanks and comments -/

def skipSpace (s : List Char) : List Char := s.dropWhile isSpace

/-- Passes over blanks, line breaks and comments, from inside a comment or not; it stops at a
character that may not stand in a comment. -/
def skipVoid : Bool → List Char → List Char
  | _, [] => []
  | _, '\n' :: rest => skipVoid false rest
  | _, '\r' :: '\n' :: rest => skipVoid false rest
  | true, c :: rest => if isPlain c then skipVoid true rest else c :: rest
  | false, c :: rest =>
      if isSpace c then skipVoid false rest
      else if c = '#' then skipVoid true rest
      else c :: rest

/-- Passes over the rest of a line that holds nothing but perhaps a comment. -/
def lineEnd? (s : List Char) : Option (List Char) :=
  let after :=
    match skipSpace s with
    | '#' :: rest => rest.dropWhile isPlain
    | rest => rest
  if after = [] ∨ Text.startsWithBreak after then some (Text.dropBreak after) else none

/-! ## Keys -/

def isKeyChar (c : Char) : Bool :=
  ('a' ≤ c && c ≤ 'z') || ('A' ≤ c && c ≤ 'Z') || ('0' ≤ c && c ≤ '9') || c == '_' || c == '-'

def keyPart (s : List Char) : Option (String × List Char) :=
  match s with
  | [] => none
  | c :: _ =>
      if Text.isQuote c then Text.readLine s
      else if isKeyChar c then some (String.ofList (s.takeWhile isKeyChar), s.dropWhile isKeyChar)
      else none

/-- Reads the parts of a dotted key; every round takes a character. -/
def keyParts : Nat → Reader (List String)
  | 0, _ => none
  | rounds + 1, s => do
      let (part, rest) ← keyPart (skipSpace s)
      match skipSpace rest with
      | '.' :: more => (keyParts rounds more).map fun r => (part :: r.1, r.2)
      | after => some ([part], after)

/-- Neither the parts of a dotted key nor the brackets around a value may reach this number. -/
def maxDepth : Nat := 80

def place (s : List Char) : Option (Place × List Char) := do
  let (parts, rest) ← keyParts (s.length + 1) s
  if parts.length < maxDepth then some (⟨parts.dropLast, ← parts.getLast?⟩, rest) else none

def pair (value : Reader Value) : Reader (Place × Value) := fun s => do
  let (key, rest) ← place s
  match rest with
  | '=' :: more =>
      let (v, after) ← value (skipSpace more)
      some ((key, v), after)
  | _ => none

/-! ## Values -/

/-- Reads the items of an array after its opening bracket; every round takes a character. -/
def items (value : Reader Value) : Nat → Reader (List Value)
  | 0, _ => none
  | rounds + 1, s =>
      match skipVoid false s with
      | ']' :: rest => some ([], rest)
      | more => do
          let (v, rest) ← value more
          match skipVoid false rest with
          | ',' :: after => (items value rounds after).map fun r => (v :: r.1, r.2)
          | ']' :: after => some ([v], after)
          | _ => none

/-- Reads the pairs of a table between braces, of which there is at least one. -/
def inlinePairs (value : Reader Value) : Nat → Reader (List (Place × Value))
  | 0, _ => none
  | rounds + 1, s => do
      let (p, rest) ← pair value s
      match skipSpace rest with
      | ',' :: after => (inlinePairs value rounds after).map fun r => (p :: r.1, r.2)
      | '\x7d' :: after => some ([p], after)
      | _ => none

def inlineTable (value : Reader Value) : Reader Value := fun s =>
  match skipSpace s with
  | '\x7d' :: rest => some (.table .inline [], rest)
  | _ => do
      let (pairs, rest) ← inlinePairs value (s.length + 1) s
      let entries ← addPairs? .braces [] pairs
      some (.table .inline entries, rest)

/-- Reads a value in which fewer than `depth` arrays and tables may be nested. -/
def readValue : Nat → Reader Value
  | 0, _ => none
  | inner + 1, s =>
      match s with
      | '[' :: rest =>
          if inner = 0 then none
          else (items (readValue inner) (rest.length + 1) rest).map fun r => (.array r.1, r.2)
      | '\x7b' :: rest => if inner = 0 then none else inlineTable (readValue inner) rest
      | 't' :: 'r' :: 'u' :: 'e' :: rest => some (.boolean true, rest)
      | 'f' :: 'a' :: 'l' :: 's' :: 'e' :: rest => some (.boolean false, rest)
      | _ =>
          match Text.read s with
          | some (text, rest) => some (.text text, rest)
          | none =>
              match Moment.read s with
              | some r => some r
              | none => Number.read s

/-! ## Lines -/

inductive Statement
  | pair (p : Place × Value)
  | header (h : Header)

def header : Reader Header := fun s =>
  match s with
  | '[' :: rest => do
      match ← place rest with
      | (key, ']' :: ']' :: after) => some (.row key, after)
      | _ => none
  | _ => do
      match ← place s with
      | (key, ']' :: after) => some (.table key, after)
      | _ => none

def line (s : List Char) : Option (Option Statement × List Char) :=
  match s with
  | '[' :: rest => do
      let (h, after) ← header rest
      some (some (.header h), ← lineEnd? after)
  | '#' :: _ | '\n' :: _ | '\r' :: _ => (lineEnd? s).map (none, ·)
  | _ => do
      let (p, after) ← pair (readValue maxDepth) s
      some (some (.pair p), ← lineEnd? after)

def statements : Nat → List Char → Option (List Statement)
  | 0, _ => none
  | rounds + 1, s =>
      match skipSpace s with
      | [] => some []
      | more => do
          let (first, rest) ← line more
          (statements rounds rest).map (first.toList ++ ·)

/-- The pairs before the first header, and the headers with the pairs below them. -/
def sections : List Statement → List (Place × Value) × List Section
  | [] => ([], [])
  | .pair p :: rest =>
      let more := sections rest
      (p :: more.1, more.2)
  | .header h :: rest =>
      let more := sections rest
      ([], ⟨h, more.1⟩ :: more.2)

/-- The mark that may stand at the head of a text to tell its encoding. -/
def byteOrderMark : Char := '\ufeff'

def parse (text : String) : Option Body := do
  let s := text.toList
  let s := if s.head? = some byteOrderMark then s.drop 1 else s
  let parts := sections (← statements (s.length + 1) s)
  build? parts.1 parts.2

end Toml

end FencedPool
