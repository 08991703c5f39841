import FencedPool.Json.Fault
import FencedPool.Text.Utf8

/-!
# Text — strings in JSON text

A string is written between double quotes with the two characters that would end it and all controls
escaped.  Any escape is read back, a pair of `\u` halves as the one character it stands for.  Stray
bytes are noticed only once the closing quote has been found; a string that nobody looks at is
checked for its form alone.

This file defines:

* `Text.render` — a string between quotes;
* `Text.read` and `Text.skip` — what follows the opening quote.
-/

namespace FencedPool

namespace Json

namespace Text

/-! ## Writing -/

def hexDigit (n : Nat) : Char := Nat.digitChar n

def escaped (c : Char) : List Char :=
  if c = '"' then ['\\', '"']
  else if c = '\\' then ['\\', '\\']
  else if c = '\x08' then ['\\', 'b']
  else if c = '\x0c' then ['\\', 'f']
  else if c = '\n' then ['\\', 'n']
  else if c = '\r' then ['\\', 'r']
  else if c = '\t' then ['\\', 't']
  else if c < ' ' then
    ['\\', 'u', '0', '0', hexDigit (c.toNat / 16), hexDigit (c.toNat % 16)]
  else [c]

def render (s : String) : List Char := '"' :: s.toList.flatMap escaped ++ ['"']

/-! ## Escapes -/

def hexValue? : Symbol → Option Nat
  | some c =>
      if '0' ≤ c ∧ c ≤ '9' then some (c.toNat - '0'.toNat)
      else if 'a' ≤ c ∧ c ≤ 'f' then some (c.toNat - 'a'.toNat + 10)
      else if 'A' ≤ c ∧ c ≤ 'F' then some (c.toNat - 'A'.toNat + 10)
      else none
  | none => none

/-- Four hexadecimal digits.  A text with fewer than four bytes left has ended. -/
def fourHex (s : List Symbol) : Except Fault Nat :=
  match (s.take 4).mapM hexValue? with
  | some [a, b, c, d] => .ok (((a * 16 + b) * 16 + c) * 16 + d)
  | _ => .error (if Utf8.totalWidth s < 4 then .endInText else .badEscape)

def isLeading (n : Nat) : Bool := 0xD800 ≤ n && n ≤ 0xDBFF

def isTrailing (n : Nat) : Bool := 0xDC00 ≤ n && n ≤ 0xDFFF

def paired (first second : Nat) : Char :=
  Char.ofNat ((first - 0xD800) * 0x400 + (second - 0xDC00) + 0x10000)

/-- What a `\u` escape stands for, and how many symbols it takes after the `u`. -/
def unicodeEscape (s : List Symbol) : Except Fault (Char × Nat) := do
  let n ← fourHex s
  if isTrailing n then .error .loneSurrogate
  else if isLeading n then
    -- the second half must follow as an escape of its own
    match s.drop 4 with
    | [] | [some '\\'] => .error .endInText
    | some '\\' :: some 'u' :: rest =>
        let m ← fourHex rest
        -- four digits each, and the backslash and the letter between them
        if isTrailing m then .ok (paired n m, 10) else .error .loneSurrogate
    | _ => .error .surrogateNotPaired
  else .ok (Char.ofNat n, 4)

def letterEscape? : Char → Option Char
  | '"' => some '"'
  | '\\' => some '\\'
  | '/' => some '/'
  | 'b' => some '\x08'
  | 'f' => some '\x0c'
  | 'n' => some '\n'
  | 'r' => some '\r'
  | 't' => some '\t'
  | _ => none

/-- What an escape stands for, and how many symbols it takes after the backslash. -/
def escape : List Symbol → Except Fault (Char × Nat)
  | [] => .error .endInText
  | some 'u' :: rest => (unicodeEscape rest).map fun r => (r.1, r.2 + 1)
  | some c :: _ =>
      match letterEscape? c with
      | some d => .ok (d, 1)
      | none => .error .badEscape
  | none :: _ => .error .badEscape

def skipEscape : List Symbol → Except Fault Nat
  | [] => .error .endInText
  | some 'u' :: rest => (fourHex rest).map fun _ => 5
  | some c :: _ => if (letterEscape? c).isSome then .ok 1 else .error .badEscape
  | none :: _ => .error .badEscape

/-! ## Reading -/

/-- The symbols of a string up to its closing quote, and what follows; the count is of symbols that
an escape has already taken. -/
def body : Nat → List Symbol → Except Fault (List Symbol × List Symbol)
  | _, [] => .error .endInText
  | taken + 1, _ :: rest => body taken rest
  | 0, some '"' :: rest => .ok ([], rest)
  | 0, some '\\' :: rest =>
      match escape rest with
      | .error e => .error e
      | .ok (c, n) => (body n rest).map fun r => (some c :: r.1, r.2)
  | 0, some c :: rest =>
      if c < ' ' then .error .bareControl else (body 0 rest).map fun r => (some c :: r.1, r.2)
  | 0, none :: rest => (body 0 rest).map fun r => (none :: r.1, r.2)

def read (s : List Symbol) : Except Fault (String × List Symbol) :=
  match body 0 s with
  | .error e => .error e
  | .ok (content, rest) =>
      match Utf8.spelled? content with
      | some text => .ok (String.ofList text, rest)
      | none => .error .badCodePoint

def skipBody : Nat → List Symbol → Except Fault (List Symbol)
  | _, [] => .error .endInText
  | taken + 1, _ :: rest => skipBody taken rest
  | 0, some '"' :: rest => .ok rest
  | 0, some '\\' :: rest =>
      match skipEscape rest with
      | .error e => .error e
      | .ok n => skipBody n rest
  | 0, some c :: rest => if c < ' ' then .error .bareControl else skipBody 0 rest
  | 0, none :: rest => skipBody 0 rest

def skip (s : List Symbol) : Except Fault (List Symbol) := skipBody 0 s

end Text

end Json

end FencedPool
