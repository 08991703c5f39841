/-!
# Utf8 — bytes and the characters they stand for

Entry data are bytes, and most of them are text.  A reader must also cope with bytes that are not:
`symbols` never fails, and marks each byte that belongs to no character.

This file defines:

* `Utf8.encode`, `Utf8.bytes` — the bytes of a text;
* `Utf8.symbols` — the characters of a byte list, with `none` for a byte that belongs to none;
* `Utf8.decode?` — the text, when every byte belongs to a character.
-/

namespace FencedPool

abbrev Bytes := List UInt8

/-- A character, or a byte that belongs to none. -/
abbrev Symbol := Option Char

namespace Utf8

def encodeChar (c : Char) : Bytes :=
  let n := c.toNat
  if n < 0x80 then [n.toUInt8]
  else if n < 0x800 then [(0xC0 + n / 0x40).toUInt8, (0x80 + n % 0x40).toUInt8]
  else if n < 0x10000 then
    [(0xE0 + n / 0x1000).toUInt8, (0x80 + n / 0x40 % 0x40).toUInt8, (0x80 + n % 0x40).toUInt8]
  else
    [(0xF0 + n / 0x40000).toUInt8, (0x80 + n / 0x1000 % 0x40).toUInt8,
      (0x80 + n / 0x40 % 0x40).toUInt8, (0x80 + n % 0x40).toUInt8]

def encode (text : List Char) : Bytes := text.flatMap encodeChar

def bytes (text : String) : Bytes := encode text.toList

/-- How many bytes the first byte of a character announces. -/
def announced (lead : UInt8) : Nat :=
  if lead < 0x80 then 1 else if lead < 0xE0 then 2 else if lead < 0xF0 then 3 else 4

/-- The number that bytes carry: the bits of the first below its mark, six bits of each other. -/
def carried : Bytes → Nat
  | [a] => a.toNat
  | [a, b] => a.toNat % 0x20 * 0x40 + b.toNat % 0x40
  | [a, b, c] => a.toNat % 0x10 * 0x1000 + b.toNat % 0x40 * 0x40 + c.toNat % 0x40
  | [a, b, c, d] =>
      a.toNat % 0x08 * 0x40000 + b.toNat % 0x40 * 0x1000 + c.toNat % 0x40 * 0x40 + d.toNat % 0x40
  | _ => 0

/-- The character at the head of a byte list.  Only its one encoding counts, so overlong forms,
halves of surrogate pairs and numbers beyond the last code point are refused. -/
def head? (lead : UInt8) (rest : Bytes) : Option Char :=
  let unit := lead :: rest.take (announced lead - 1)
  let c := Char.ofNat (carried unit)
  if encodeChar c = unit then some c else none

/-- Reads symbols after passing over the bytes of a character already taken. -/
def symbolsAfter : Nat → Bytes → List Symbol
  | _, [] => []
  | skip + 1, _ :: rest => symbolsAfter skip rest
  | 0, lead :: rest =>
      match head? lead rest with
      | some c => some c :: symbolsAfter (announced lead - 1) rest
      | none => none :: symbolsAfter 0 rest

/-- The characters of a byte list, with `none` for each byte that belongs to no character. -/
def symbols (data : Bytes) : List Symbol := symbolsAfter 0 data

/-- The text that symbols spell when none of them is a stray byte. -/
def spelled? : List Symbol → Option (List Char)
  | [] => some []
  | none :: _ => none
  | some c :: rest => (spelled? rest).map (c :: ·)

def decode? (data : Bytes) : Option String := (spelled? (symbols data)).map String.ofList

def width : Symbol → Nat
  | none => 1
  | some c => (encodeChar c).length

def totalWidth : List Symbol → Nat
  | [] => 0
  | x :: rest => width x + totalWidth rest

end Utf8

end FencedPool
