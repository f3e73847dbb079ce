/-
Codec documents: what is written in a file. A document is a codec node and named definitions, which `ref` nodes point
to; a node is one of fourteen types and may carry a description and be optional.

- `Node.children` are the nodes directly below one, in the order of their declaration; `Node.refs` are the ids that
  the `ref` nodes of a tree name, in preorder.
- `Document.firstDangling?` is the first id without a definition: the codec is searched first, then each definition.
- `Node.toJson` and `Document.toJson` write all fields, absent ones with their defaults.
-/
import CodecCompiler.Json.Basic
import CodecCompiler.Codec.Tag

namespace CodecCompiler

/-- what every node may carry -/
structure Notes where
  description : Option Text := none
  optional : Bool := false
  deriving DecidableEq, Repr, Inhabited

inductive Node where
  | leaf (notes : Notes) (p : Primitive)
  | literal (notes : Notes) (value : Scalar)
  | enum (notes : Notes) (values : List Scalar)
  | object (notes : Notes) (shape : List (Text × Node))
  | record (notes : Notes) (values : Node)
  | array (notes : Notes) (items : Node)
  | tuple (notes : Notes) (items : List Node)
  | intersection (notes : Notes) (members : List Node)
  | union (notes : Notes) (members : List Node)
  /-- a codec that a definition describes -/
  | ref (notes : Notes) (id : Text)
  deriving Repr, Inhabited

/-- the name of a kind as the type of a node; recursive codecs are written as references -/
def Kind.typeName : Kind → String
  | .recursive => "ref"
  | k => k.name

/-- the kind of a type name -/
def Kind.ofTypeName? (name : Text) : Option Kind := Kind.all.find? fun k => k.typeName = name

/-- the type names, in order -/
def Kind.typeNames : List String := Kind.all.map Kind.typeName

/-- the field that holds what a node of a kind is made of -/
def Kind.fieldName? : Kind → Option String
  | .primitive _ => none
  | .literal => some "value"
  | .enum | .record => some "values"
  | .object => some "shape"
  | .array | .tuple => some "items"
  | .intersection | .union => some "of"
  | .recursive => some "id"

theorem Kind.ofTypeName?_typeName (k : Kind) : Kind.ofTypeName? k.typeName = some k := by
  cases k with
  | primitive p => cases p <;> decide
  | _ => decide

namespace Node

def kind : Node → Kind
  | leaf _ p => .primitive p
  | literal _ _ => .literal
  | enum _ _ => .enum
  | object _ _ => .object
  | record _ _ => .record
  | array _ _ => .array
  | tuple _ _ => .tuple
  | intersection _ _ => .intersection
  | union _ _ => .union
  | ref _ _ => .recursive

def notes : Node → Notes
  | leaf n _ | literal n _ | enum n _ | object n _ | record n _ | array n _ | tuple n _ | intersection n _
  | union n _ | ref n _ => n

/-- the nodes directly below -/
def children : Node → List Node
  | leaf _ _ | literal _ _ | enum _ _ | ref _ _ => []
  | object _ shape => shape.map (·.2)
  | record _ n | array _ n => [n]
  | tuple _ ns | intersection _ ns | union _ ns => ns

mutual

/-- the ids that the references of a tree name, in preorder -/
def refs : Node → List Text
  | .ref _ id => [id]
  | .leaf _ _ | .literal _ _ | .enum _ _ => []
  | .object _ shape => refsOfShape shape
  | .record _ n | .array _ n => refs n
  | .tuple _ ns | .intersection _ ns | .union _ ns => refsOfList ns

def refsOfList : List Node → List Text
  | [] => []
  | n :: ns => refs n ++ refsOfList ns

def refsOfShape : List (Text × Node) → List Text
  | [] => []
  | (_, n) :: ns => refs n ++ refsOfShape ns

end

/-- the fields of a node: those of any type, and its own behind them -/
def fields (kind : Kind) (notes : Notes) (own : Fields) : Fields :=
  ("description", (notes.description.map Json.str).getD .null) :: ("optional", .bool notes.optional)
    :: ("type", .str kind.typeName) :: own

mutual

/-- a node with all its fields -/
def toJson : Node → Json
  | .leaf n p => .obj (fields (.primitive p) n [])
  | .literal n value => .obj (fields .literal n [("value", value.toJson)])
  | .enum n values => .obj (fields .enum n [("values", .arr (values.map Scalar.toJson))])
  | .object n shape => .obj (fields .object n [("shape", .obj (toFields shape))])
  | .record n values => .obj (fields .record n [("values", toJson values)])
  | .array n items => .obj (fields .array n [("items", toJson items)])
  | .tuple n items => .obj (fields .tuple n [("items", .arr (toItems items))])
  | .intersection n members => .obj (fields .intersection n [("of", .arr (toItems members))])
  | .union n members => .obj (fields .union n [("of", .arr (toItems members))])
  | .ref n id => .obj (fields .recursive n [("id", .str id)])

def toItems : List Node → List Json
  | [] => []
  | n :: ns => toJson n :: toItems ns

def toFields : List (Text × Node) → List (Text × Json)
  | [] => []
  | (name, n) :: ns => (name, toJson n) :: toFields ns

end

end Node

structure Document where
  codec : Node
  definitions : List (Text × Node) := []
  deriving Repr, Inhabited

namespace Document

/-- all ids that references name: those of the codec first, then those of each definition -/
def refs (doc : Document) : List Text := doc.codec.refs ++ Node.refsOfShape doc.definitions

/-- the first id that has no definition -/
def firstDangling? (doc : Document) : Option Text :=
  doc.refs.find? fun id => !Entries.has doc.definitions id

def toJson (doc : Document) : Json :=
  .obj [("codec", doc.codec.toJson), ("definitions", .obj (Node.toFields doc.definitions))]

end Document

end CodecCompiler
