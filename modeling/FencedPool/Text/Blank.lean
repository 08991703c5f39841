/-!
# Blank — the white space of Unicode

Surrounding white space does not count in a configured connection, and separates the items of a
duration.  The class is the property White_Space, which holds more than the ASCII blanks and not the
zero-width space.

This file defines `isBlank` and `isAllBlank`.
-/

namespace FencedPool

namespace Text

/-- The code points with the property White_Space. -/
def blanks : List Nat :=
  [0x09, 0x0A, 0x0B, 0x0C, 0x0D, 0x20, 0x85, 0xA0, 0x1680, 0x2000, 0x2001, 0x2002, 0x2003, 0x2004,
    0x2005, 0x2006, 0x2007, 0x2008, 0x2009, 0x200A, 0x2028, 0x2029, 0x202F, 0x205F, 0x3000]

def isBlank (c : Char) : Bool := blanks.contains c.toNat

def isAllBlank (s : String) : Bool := s.toList.all isBlank

end Text

end FencedPool
