import FencedPool.Text.Invisible

/-!
# Quoted — texts as messages quote them

A message that names a text of unknown content puts it between double quotes.  What could end the
quotation or not be seen is escaped: the quote and the backslash by a backslash, five controls by
their letter, and every other invisible character by its number in hexadecimal.

This file defines `quoted`.
-/

namespace FencedPool

namespace Text

def quotedChar (c : Char) : List Char :=
  if c = '"' then ['\\', '"']
  else if c = '\\' then ['\\', '\\']
  else if c = '\n' then ['\\', 'n']
  else if c = '\r' then ['\\', 'r']
  else if c = '\t' then ['\\', 't']
  else if c = '\x00' then ['\\', '0']
  else if isInvisible c then '\\' :: 'u' :: '\x7b' :: Nat.toDigits 16 c.toNat ++ ['\x7d']
  else [c]

def quoted (s : String) : String :=
  String.ofList ('"' :: s.toList.flatMap quotedChar ++ ['"'])

end Text

end FencedPool
