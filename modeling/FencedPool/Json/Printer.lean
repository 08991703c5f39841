import FencedPool.Json.Numeral
import FencedPool.Json.Text

/-!
# Printer — JSON text of a value

Values are written without blanks for the store, and over several lines, two spaces a level, for
people.  Members keep their order.

This file defines `Json.compact` and `Json.pretty`.
-/

namespace FencedPool

namespace Json

mutual

def compact : Json → List Char
  | .null => ['n', 'u', 'l', 'l']
  | .bool true => ['t', 'r', 'u', 'e']
  | .bool false => ['f', 'a', 'l', 's', 'e']
  | .num n => n.render.toList
  | .str s => Text.render s
  | .arr [] => ['[', ']']
  | .arr (v :: items) => '[' :: compact v ++ compactItems items
  | .obj [] => ['\x7b', '\x7d']
  | .obj ((k, v) :: members) =>
      '\x7b' :: Text.render k ++ ':' :: compact v ++ compactMembers members

/-- The items after the first, and the closing bracket. -/
def compactItems : List Json → List Char
  | [] => [']']
  | v :: items => ',' :: compact v ++ compactItems items

def compactMembers : List (String × Json) → List Char
  | [] => ['\x7d']
  | (k, v) :: members => ',' :: Text.render k ++ ':' :: compact v ++ compactMembers members

end

def newLine (level : Nat) : List Char := '\n' :: List.replicate (2 * level) ' '

mutual

def pretty (level : Nat) : Json → List Char
  | .arr (v :: items) =>
      '[' :: newLine (level + 1) ++ pretty (level + 1) v ++ prettyItems level items
  | .obj ((k, v) :: members) =>
      '\x7b' :: newLine (level + 1) ++ Text.render k ++ ':' :: ' ' :: pretty (level + 1) v
        ++ prettyMembers level members
  | v => compact v

/-- The items after the first, and the closing bracket on a line of its own. -/
def prettyItems (level : Nat) : List Json → List Char
  | [] => newLine level ++ [']']
  | v :: items => ',' :: newLine (level + 1) ++ pretty (level + 1) v ++ prettyItems level items

def prettyMembers (level : Nat) : List (String × Json) → List Char
  | [] => newLine level ++ ['\x7d']
  | (k, v) :: members =>
      ',' :: newLine (level + 1) ++ Text.render k ++ ':' :: ' ' :: pretty (level + 1) v
        ++ prettyMembers level members

end

def text (v : Json) : String := String.ofList v.compact

def prettyText (v : Json) : String := String.ofList (v.pretty 0)

end Json

end FencedPool
