/-
Tags. A codec is compiled by its tag. There are fourteen kinds with a tag of their own, five of them primitive; any
other text is the tag of a custom codec. A tag may be given as a kind or as its text, and both mean the same.

- `Kind.all`: the kinds in the order in which their handlers are registered.
- `Tag.name`: what tags are compared by.
- `Kind.ofName?_name`: a kind is found by its name.
-/
import CodecCompiler.Text.Basic

namespace CodecCompiler

/-- values without structure; the names are those of the types in a schema, and `any` stands for all of them -/
inductive Primitive where
  | any
  | string
  | number
  | boolean
  | null
  deriving DecidableEq, Repr, Inhabited

namespace Primitive

def name : Primitive → String
  | .any => "any"
  | .string => "string"
  | .number => "number"
  | .boolean => "boolean"
  | .null => "null"

def all : List Primitive := [.any, .string, .number, .boolean, .null]

end Primitive

/-- the kinds of codecs that have a built-in handler -/
inductive Kind where
  | primitive (p : Primitive)
  | literal
  | enum
  | object
  | record
  | array
  | tuple
  | intersection
  | union
  | recursive
  deriving DecidableEq, Repr, Inhabited

namespace Kind

def name : Kind → String
  | .primitive p => p.name
  | .literal => "literal"
  | .enum => "enum"
  | .object => "object"
  | .record => "record"
  | .array => "array"
  | .tuple => "tuple"
  | .intersection => "intersection"
  | .union => "union"
  | .recursive => "recursive"

/-- all kinds, in the order of their handlers -/
def all : List Kind :=
  Primitive.all.map .primitive
    ++ [.literal, .enum, .object, .record, .array, .tuple, .intersection, .union, .recursive]

/-- the kind of a name -/
def ofName? (name : Text) : Option Kind := all.find? fun k => k.name = name

theorem ofName?_name (k : Kind) : ofName? k.name = some k := by
  cases k with
  | primitive p => cases p <;> decide
  | _ => decide

end Kind

/-- a tag, given as a kind or as a text -/
inductive Tag where
  | kind (k : Kind)
  | text (s : Text)
  deriving DecidableEq, Repr, Inhabited

namespace Tag

/-- the text of a tag -/
def name : Tag → Text
  | .kind k => k.name
  | .text s => s

/-- the kind that a tag means, if any -/
def kind? (tag : Tag) : Option Kind := Kind.ofName? tag.name

end Tag

end CodecCompiler
