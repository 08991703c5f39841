import FencedPool.Text.Utf8

/-!
# Text — strings in TOML

A string has one of four forms: between double quotes, where escapes are read, or between single
quotes, where every character stands for itself; on one line, or between three quotes over several.
It is written in the first form in which nothing but tabs would need an escape, and between double
quotes with escapes when there is none.

This file defines:

* `Text.Form`, and `Form.piece` — what the head of a string in a form stands for;
* `Text.read` and `Text.readLine` — a string, and one that must stand on one line;
* `Text.render` — the text of a string.
-/

namespace FencedPool

namespace Toml

def isSpace (c : Char) : Bool := c == ' ' || c == '\t'

def isPlain (c : Char) : Bool := c == '\t' || (' ' ≤ c && c ≠ '\x7f')

def hexValue? (c : Char) : Option Nat :=
  if '0' ≤ c ∧ c ≤ '9' then some (c.toNat - '0'.toNat)
  else if 'a' ≤ c ∧ c ≤ 'f' then some (c.toNat - 'a'.toNat + 10)
  else if 'A' ≤ c ∧ c ≤ 'F' then some (c.toNat - 'A'.toNat + 10)
  else none

namespace Text

structure Form where
  quote : Char
  multiLine : Bool
  deriving DecidableEq, Repr

def escaping : Char := '"'

def literal : Char := '\x27'

namespace Form

def all : List Form :=
  [⟨escaping, false⟩, ⟨literal, false⟩, ⟨escaping, true⟩, ⟨literal, true⟩]

/-- How many quotes in a row may stand inside a string. -/
def innerQuotes (form : Form) : Nat := if form.multiLine then 2 else 0

def delimiter (form : Form) : List Char :=
  List.replicate (if form.multiLine then 3 else 1) form.quote

end Form

/-! ## Reading -/

/-- The character of a number in hexadecimal digits, unless it is half of a surrogate pair or beyond
the last code point. -/
def codePoint? (digits : List Char) : Option Char := do
  let n := (← digits.mapM hexValue?).foldl (fun n d => n * 16 + d) 0
  if h : n.isValidChar then some (Char.ofNatAux n h) else none

/-- What an escape stands for, and how many characters it takes after the backslash. -/
def escape? : List Char → Option (Char × Nat)
  | 'b' :: _ => some ('\x08', 1)
  | 't' :: _ => some ('\t', 1)
  | 'n' :: _ => some ('\n', 1)
  | 'f' :: _ => some ('\x0c', 1)
  | 'r' :: _ => some ('\r', 1)
  | '"' :: _ => some ('"', 1)
  | '\\' :: _ => some ('\\', 1)
  | 'u' :: rest =>
      if (rest.take 4).length = 4 then (codePoint? (rest.take 4)).map (·, 5) else none
  | 'U' :: rest =>
      if (rest.take 8).length = 8 then (codePoint? (rest.take 8)).map (·, 9) else none
  | _ => none

def blankRun : List Char → Nat
  | '\r' :: '\n' :: rest => blankRun rest + 2
  | c :: rest => if isSpace c || c == '\n' then blankRun rest + 1 else 0
  | [] => 0

def startsWithBreak : List Char → Bool
  | '\n' :: _ => true
  | '\r' :: '\n' :: _ => true
  | _ => false

/-- What the head of a string is: a part of its content, or its end with the last of its content.
The width counts the characters taken after the first. -/
inductive Piece
  | content (s : List Char) (width : Nat)
  | close (s : List Char) (width : Nat)

/-- What a string that goes on with a character starts with.  Over several lines three quotes end
the string, and up to two more before them belong to it; a backslash at the end of a line takes all
blanks up to the next character. -/
def Form.piece (form : Form) (c : Char) (rest : List Char) : Option Piece :=
  if c = form.quote then
    if form.multiLine then
      let more := (rest.takeWhile (· == form.quote)).length
      -- one or two quotes in a row are content
      if more < 2 then some (.content [c] 0)
      -- of a run of five the first two are content
      else some (.close (List.replicate (min more 4 - 2) c) (min more 4))
    else some (.close [] 0)
  else if c = '\\' ∧ form.quote = escaping then
    if form.multiLine ∧ startsWithBreak (rest.dropWhile isSpace) then
      some (.content [] (blankRun rest))
    else (escape? rest).map fun r => .content [r.1] r.2
  else if isPlain c then some (.content [c] 0)
  else if form.multiLine ∧ startsWithBreak (c :: rest) then
    -- a line break is one line feed, however it was written
    some (.content ['\n'] (if c = '\r' then 1 else 0))
  else none

/-- The content of a string up to its end, and what follows; the count is of characters that a piece
has already taken. -/
def body (form : Form) : Nat → List Char → Option (List Char × List Char)
  | _, [] => none
  | taken + 1, _ :: rest => body form taken rest
  | 0, c :: rest =>
      match form.piece c rest with
      | none => none
      | some (.close s width) => some (s, rest.drop width)
      | some (.content s width) => (body form width rest).map fun r => (s ++ r.1, r.2)

def dropBreak : List Char → List Char
  | '\n' :: rest => rest
  | '\r' :: '\n' :: rest => rest
  | s => s

def isQuote (c : Char) : Bool := c == escaping || c == literal

def readLine : List Char → Option (String × List Char)
  | [] => none
  | q :: rest =>
      if isQuote q then (body ⟨q, false⟩ 0 rest).map fun r => (String.ofList r.1, r.2) else none

/-- Reads a string in any form.  A line break right after three quotes does not belong to it. -/
def read : List Char → Option (String × List Char)
  | [] => none
  | q :: rest =>
      if isQuote q ∧ rest.take 2 = [q, q] then
        (body ⟨q, true⟩ 0 (dropBreak (rest.drop 2))).map fun r => (String.ofList r.1, r.2)
      else readLine (q :: rest)

/-! ## Writing -/

/-- The length of the longest run of a character, given the run that ends before the text. -/
def longestRun (q : Char) : Nat → List Char → Nat
  | run, [] => run
  | run, c :: rest => if c = q then longestRun q (run + 1) rest else max run (longestRun q 0 rest)

/-- Characters that no form takes without an escape.  Line breaks and tabs are not among them: forms
over several lines hold the one, and every form the other. -/
def isControl (c : Char) : Bool := (c < ' ' && c ≠ '\n' && c ≠ '\t') || c == '\x7f'

/-- Whether a form takes a string with no escape, but for its tabs. -/
def Form.fits (form : Form) (s : List Char) : Bool :=
  s.all (fun c => !isControl c) && (form.quote ≠ escaping || !s.contains '\\')
    && longestRun form.quote 0 s ≤ form.innerQuotes && (form.multiLine || !s.contains '\n')

def escaped (c : Char) : List Char :=
  if c = '\\' then ['\\', '\\']
  else if c = '\x08' then ['\\', 'b']
  else if c = '\t' then ['\\', 't']
  else if c = '\x0c' then ['\\', 'f']
  else if c = '\r' then ['\\', 'r']
  else if isControl c then
    let digits := (Nat.toDigits 16 c.toNat).map Char.toUpper
    '\\' :: 'u' :: List.replicate (4 - digits.length) '0' ++ digits
  else [c]

/-- A string with escapes, where only so many quotes in a row stand without one; the run counts
those that were just written. -/
def escapedBody (allowed : Nat) : Nat → List Char → List Char
  | _, [] => []
  | run, c :: rest =>
      if c ≠ escaping then escaped c ++ escapedBody allowed 0 rest
      else if run < allowed then c :: escapedBody allowed (run + 1) rest
      else '\\' :: c :: escapedBody allowed 0 rest

/-- A content between the quotes of a form.  Several lines start on a line of their own. -/
def Form.enclose (form : Form) (severalLines : Bool) (content : List Char) : List Char :=
  form.delimiter ++ (if form.multiLine && severalLines then ['\n'] else []) ++ content
    ++ form.delimiter

/-- The text of a string.  Tabs are escaped where escapes are read. -/
def render (s : String) : List Char :=
  let cs := s.toList
  let severalLines := cs.contains '\n'
  -- the first form that needs no escapes, else the one that can escape all
  let form := (Form.all.find? (·.fits cs)).getD ⟨escaping, severalLines⟩
  form.enclose severalLines
    (if form.quote = escaping then escapedBody form.innerQuotes 0 cs else cs)

end Text

end Toml

end FencedPool
