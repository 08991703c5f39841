import FencedPool.Text.Padded
import FencedPool.Text.Quoted

/-!
# Mismatch — well-formed documents that do not fit their schema

Records are JSON and configurations are TOML, but the ways in which a document can fail to be the
wanted record are the same: a value of another type or out of range, a list of the wrong length, a
name that the schema does not know, and a field that is repeated or absent.

This file defines `Found`, `Mismatch` and their wording.
-/

namespace FencedPool

inductive Found
  | null
  | boolean (b : Bool)
  | integer (i : Int)
  | float (written : String)
  | text (s : String)
  | sequence
  | map
  deriving DecidableEq, Repr

def Found.describe : Found → String
  | .null => "null"
  | .boolean b => "boolean `" ++ (if b then "true" else "false") ++ "`"
  | .integer i => "integer `" ++ Text.signedDecimal i ++ "`"
  | .float written => "floating point `" ++ written ++ "`"
  | .text s => "string " ++ Text.quoted s
  | .sequence => "sequence"
  | .map => "map"

/-- How a document fails to be the wanted record. -/
inductive Mismatch
  | wrongType (found : Found) (wanted : String)
  | wrongValue (found : Found) (wanted : String)
  | wrongLength (length : Nat) (wanted : String)
  | unknownVariant (name : String) (known : List String)
  | unknownField (name : String) (known : List String)
  | duplicateField (name : String)
  | missingField (name : String)
  deriving DecidableEq, Repr

namespace Mismatch

def choices (names : List String) : String :=
  ", ".intercalate (names.map fun n => "`" ++ n ++ "`")

def message : Mismatch → String
  | .wrongType found wanted => "invalid type: " ++ found.describe ++ ", expected " ++ wanted
  | .wrongValue found wanted => "invalid value: " ++ found.describe ++ ", expected " ++ wanted
  | .wrongLength n wanted => "invalid length " ++ Text.decimal n ++ ", expected " ++ wanted
  | .unknownVariant name known =>
      "unknown variant `" ++ name ++ "`, expected one of " ++ choices known
  | .unknownField name known =>
      "unknown field `" ++ name ++ "`, expected one of " ++ choices known
  | .duplicateField name => "duplicate field `" ++ name ++ "`"
  | .missingField name => "missing field `" ++ name ++ "`"

end Mismatch

end FencedPool
