/-
Codecs: trees of tagged nodes that describe data. A recursive node carries the name of its body and not the body
itself; the bodies stand beside the tree, so that finite trees describe cyclic shapes.

- `Codec` and the marks every node carries (`Marks`).
- `optional`, `describe` and `withoutMetadata` change the marks of a copy.
- `Codec.size` counts nodes, `Codec.ids` lists the ids of recursive nodes.
- `Codec.distinctValues`: an enumeration's members without those that repeat an earlier value.
-/
import CodecCompiler.Json.Basic
import CodecCompiler.Codec.Tag

namespace CodecCompiler

/-- what every codec carries: does an enclosing object require it, and a description -/
structure Marks where
  required : Bool := true
  description : Option Text := none
  deriving DecidableEq, Repr, Inhabited

inductive Codec where
  /-- a primitive or a custom codec: nothing but its tag -/
  | plain (marks : Marks) (tag : Tag)
  | literal (marks : Marks) (value : Json)
  | enum (marks : Marks) (values : List Json)
  | object (marks : Marks) (shape : List (Text × Codec))
  | record (marks : Marks) (values : Codec)
  | array (marks : Marks) (items : Codec)
  | tuple (marks : Marks) (items : List Codec)
  | intersection (marks : Marks) (members : List Codec)
  | union (marks : Marks) (members : List Codec)
  /-- a definition of its own, compiled from the body of a name -/
  | recursive (marks : Marks) (id : Text) (body : Text)
  deriving Repr, Inhabited

/-- the bodies of recursive codecs by name -/
abbrev Bodies := Entries Codec

namespace Codec

def marks : Codec → Marks
  | .plain m _ | .literal m _ | .enum m _ | .object m _ | .record m _ | .array m _ | .tuple m _
  | .intersection m _ | .union m _ | .recursive m _ _ => m

/-- a copy with other marks -/
def withMarks (c : Codec) (m : Marks) : Codec :=
  match c with
  | .plain _ tag => .plain m tag
  | .literal _ value => .literal m value
  | .enum _ values => .enum m values
  | .object _ shape => .object m shape
  | .record _ values => .record m values
  | .array _ items => .array m items
  | .tuple _ items => .tuple m items
  | .intersection _ members => .intersection m members
  | .union _ members => .union m members
  | .recursive _ id body => .recursive m id body

def tag : Codec → Tag
  | .plain _ tag => tag
  | .literal _ _ => .kind .literal
  | .enum _ _ => .kind .enum
  | .object _ _ => .kind .object
  | .record _ _ => .kind .record
  | .array _ _ => .kind .array
  | .tuple _ _ => .kind .tuple
  | .intersection _ _ => .kind .intersection
  | .union _ _ => .kind .union
  | .recursive _ _ _ => .kind .recursive

/-- does an enclosing object require it -/
def required (c : Codec) : Bool := c.marks.required

def description (c : Codec) : Option Text := c.marks.description

/-- a copy that an enclosing object does not require -/
def optional (c : Codec) : Codec := c.withMarks { c.marks with required := false }

/-- a copy with a description -/
def describe (c : Codec) (description : Text) : Codec :=
  c.withMarks { c.marks with description := some description }

/-- a copy without a description -/
def withoutMetadata (c : Codec) : Codec := c.withMarks { c.marks with description := none }

@[simp] theorem marks_withMarks (c : Codec) (m : Marks) : (c.withMarks m).marks = m := by
  cases c <;> rfl

@[simp] theorem tag_withMarks (c : Codec) (m : Marks) : (c.withMarks m).tag = c.tag := by
  cases c <;> rfl

mutual

/-- the number of nodes -/
def size : Codec → Nat
  | .plain _ _ | .literal _ _ | .enum _ _ | .recursive _ _ _ => 1
  | .record _ c | .array _ c => size c + 1
  | .object _ shape => sizeEntries shape + 1
  | .tuple _ cs | .intersection _ cs | .union _ cs => sizeList cs + 1

/-- the number of nodes of a list -/
def sizeList : List Codec → Nat
  | [] => 0
  | c :: cs => size c + sizeList cs

/-- the number of nodes of a shape -/
def sizeEntries : List (Text × Codec) → Nat
  | [] => 0
  | (_, c) :: cs => size c + sizeEntries cs

end

mutual

/-- the ids of recursive nodes, in preorder, with repetitions -/
def ids : Codec → List Text
  | .recursive _ id _ => [id]
  | .plain _ _ | .literal _ _ | .enum _ _ => []
  | .record _ c | .array _ c => ids c
  | .object _ shape => idsEntries shape
  | .tuple _ cs | .intersection _ cs | .union _ cs => idsList cs

/-- the ids of a list -/
def idsList : List Codec → List Text
  | [] => []
  | c :: cs => ids c ++ idsList cs

/-- the ids of a shape -/
def idsEntries : List (Text × Codec) → List Text
  | [] => []
  | (_, c) :: cs => ids c ++ idsEntries cs

end

/-- the values of an enumeration's members, those equal to an earlier one left out -/
def distinctValues (values : List Json) : List Json :=
  values.foldl (fun kept v => if kept.any (·.same v) then kept else kept ++ [v]) []

end Codec

/-- a codec with the bodies that its recursive nodes draw on -/
structure CodecSystem where
  root : Codec
  bodies : Bodies
  deriving Repr, Inhabited

end CodecCompiler
