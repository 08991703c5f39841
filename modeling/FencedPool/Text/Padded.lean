/-!
# Padded — numbers written with leading zeros

Sequence numbers and node ids have at least ten decimal digits and session ids at least sixteen
hexadecimal ones, so that texts of one width sort as their numbers do.

This file defines `decimal` and `padded`.
-/

namespace FencedPool

namespace Text

def decimal (n : Nat) : String := String.ofList (Nat.toDigits 10 n)

/-- The digits of a number in a base, with zeros in front up to a width. -/
def padded (base width n : Nat) : String :=
  let digits := Nat.toDigits base n
  String.ofList (List.replicate (width - digits.length) '0' ++ digits)

def signedDecimal (i : Int) : String :=
  if i < 0 then "-" ++ decimal i.natAbs else decimal i.natAbs

end Text

end FencedPool
