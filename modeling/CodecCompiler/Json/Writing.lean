/-
Writing JSON values as text. The compact form has no blanks; the pretty form puts each item on a line of its own,
indented by two blanks a level, with a blank behind the colon. Empty arrays and objects are written the same in both.
Integers keep all their digits and floats get the shortest digits that read back.

- `Json.chars` is the text of a value at a level of nesting.
- `Json.text` is the whole text.
- `Json.text?` writes a value only if none of its integers has too many digits.
-/
import CodecCompiler.Json.Basic
import CodecCompiler.Json.Escape
import CodecCompiler.Number.Layout

namespace CodecCompiler.Json

/-- the line break before an item at a level of nesting -/
def lineBreak (pretty : Bool) (level : Nat) : List Char :=
  if pretty then '\n' :: List.replicate (2 * level) ' ' else []

/-- what stands between a field's name and its value -/
def colon (pretty : Bool) : List Char := if pretty then [':', ' '] else [':']

/-- a string in quotes -/
def quoted (s : Text) : List Char := '"' :: (s.points.flatMap Escape.escape ++ ['"'])

mutual

/-- the text of a value at a level of nesting -/
def chars (pretty : Bool) (level : Nat) : Json → List Char
  | .null => "null".toList
  | .bool true => "true".toList
  | .bool false => "false".toList
  | .int n => intDigits n
  | .float x => Layout.json.float x
  | .str s => quoted s
  | .arr [] => ['[', ']']
  | .arr (item :: items) =>
    '[' :: (lineBreak pretty (level + 1) ++ chars pretty (level + 1) item
      ++ charsItems pretty (level + 1) items ++ lineBreak pretty level ++ [']'])
  | .obj [] => ['\x7b', '\x7d']
  | .obj ((name, value) :: fields) =>
    '\x7b' :: (lineBreak pretty (level + 1) ++ quoted name ++ colon pretty ++ chars pretty (level + 1) value
      ++ charsFields pretty (level + 1) fields ++ lineBreak pretty level ++ ['\x7d'])

/-- the items behind the first, each behind a comma -/
def charsItems (pretty : Bool) (level : Nat) : List Json → List Char
  | [] => []
  | item :: items => ',' :: (lineBreak pretty level ++ chars pretty level item ++ charsItems pretty level items)

/-- the fields behind the first, each behind a comma -/
def charsFields (pretty : Bool) (level : Nat) : List (Text × Json) → List Char
  | [] => []
  | (name, value) :: fields =>
    ',' :: (lineBreak pretty level ++ quoted name ++ colon pretty ++ chars pretty level value
      ++ charsFields pretty level fields)

end

/-- the text of a value -/
def text (value : Json) (pretty : Bool) : String := String.ofList (chars pretty 0 value)

mutual

/-- has none of the integers in a value too many digits -/
def isWritable : Json → Bool
  | .null | .bool _ | .float _ | .str _ => true
  | .int n => !isLong n
  | .arr items => areWritable items
  | .obj fields => areWritableFields fields

def areWritable : List Json → Bool
  | [] => true
  | item :: items => isWritable item && areWritable items

def areWritableFields : List (Text × Json) → Bool
  | [] => true
  | (_, value) :: fields => isWritable value && areWritableFields fields

end

/-- the text of a value, if it can be written -/
def text? (value : Json) (pretty : Bool) : Option String :=
  if value.isWritable then some (value.text pretty) else none

end CodecCompiler.Json
