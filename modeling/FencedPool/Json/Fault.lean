import FencedPool.Mismatch

/-!
# Fault — why a JSON text was refused

This file defines `Json.Fault`: the ways in which a text is not JSON, and the mismatch of a
well-formed text with the record that was wanted.
-/

namespace FencedPool

namespace Json

inductive Fault
  | endInValue
  | endInText
  | endInList
  | endInObject
  | valueWanted
  | wordWanted
  | colonWanted
  | listCommaOrEndWanted
  | objectCommaOrEndWanted
  | textKeyWanted
  | trailingComma
  | trailingCharacters
  | badNumber
  | numberOutOfRange
  | badEscape
  | bareControl
  | loneSurrogate
  | surrogateNotPaired
  | badCodePoint
  | tooDeep
  | mismatch (m : Mismatch)
  deriving DecidableEq, Repr

def Fault.message : Fault → String
  | .endInValue => "EOF while parsing a value"
  | .endInText => "EOF while parsing a string"
  | .endInList => "EOF while parsing a list"
  | .endInObject => "EOF while parsing an object"
  | .valueWanted => "expected value"
  | .wordWanted => "expected ident"
  | .colonWanted => "expected `:`"
  | .listCommaOrEndWanted => "expected `,` or `]`"
  | .objectCommaOrEndWanted => "expected `,` or `\x7d`"
  | .textKeyWanted => "key must be a string"
  | .trailingComma => "trailing comma"
  | .trailingCharacters => "trailing characters"
  | .badNumber => "invalid number"
  | .numberOutOfRange => "number out of range"
  | .badEscape => "invalid escape"
  | .bareControl => "control character (\\u0000-\\u001F) found while parsing a string"
  | .loneSurrogate => "lone leading surrogate in hex escape"
  | .surrogateNotPaired => "unexpected end of hex escape"
  | .badCodePoint => "invalid unicode code point"
  | .tooDeep => "recursion limit exceeded"
  | .mismatch m => m.message

end Json

end FencedPool
