import FencedPool.Decimal.Shortest
import FencedPool.Mismatch

/-!
# Value — decoded TOML

A document is a table, and its entries keep the order in which they are written.  A table remembers
how it was opened, because that decides which later keys and headers may add to it.  Dates and times
are checked for their form and not kept.

This file defines `Toml.Value`, the numbers in it, and the name of a value in a mismatch.
-/

namespace FencedPool

namespace Toml

inductive Real
  | finite (x : Binary64)
  | infinite (negative : Bool)
  | notANumber
  deriving DecidableEq, Repr

/-- Doubles are always written without an exponent, and of two equally near decimals the one farther
from zero counts. -/
def floatStyle : FloatStyle := ⟨fun _ => true, .away⟩

def Real.render : Real → String
  | .finite x => floatStyle.render x
  | .infinite negative => if negative then "-inf" else "inf"
  | .notANumber => "NaN"

inductive Origin
  /-- by braces -/
  | inline
  /-- by a dotted key between braces -/
  | inlineDotted
  /-- by a header of its own, or as the document -/
  | header
  /-- by the header of a table inside it -/
  | implied
  /-- by a dotted key on a line -/
  | dotted
  deriving DecidableEq, Repr

inductive Value
  | text (s : String)
  | integer (i : Int)
  | float (x : Real)
  | boolean (b : Bool)
  | moment
  | array (items : List Value)
  | table (origin : Origin) (entries : List (String × Value))
  | tables (rows : List (List (String × Value)))

instance : Inhabited Value := ⟨.moment⟩

/-- The content of a table: its entries, in written order. -/
abbrev Body := List (String × Value)

def Value.found : Value → Found
  | .text s => .text s
  | .integer i => .integer i
  | .float x => .float x.render
  | .boolean b => .boolean b
  | .moment => .map
  | .array _ => .sequence
  | .table _ _ => .map
  | .tables _ => .sequence

end Toml

end FencedPool
