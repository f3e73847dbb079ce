/-
Building: from a document to codecs. Each node becomes the codec of its kind; a reference becomes a recursive codec with
the reference's id, whose body is the definition of that id. The definitions are the bodies.

- `Node.toCodec` builds a node, `Document.build` a document.
- `Document.resolve` builds the body of one id when it is asked for, and keeps what is built once.
- An empty description counts as none.
-/
import CodecCompiler.Codec.Basic
import CodecCompiler.Document.Basic

namespace CodecCompiler

/-- a node's notes as marks of its codec -/
def Notes.toMarks (n : Notes) : Marks :=
  ⟨!n.optional, n.description.filter fun d => !d.isEmpty⟩

namespace Node

mutual

/-- the codec that a node describes -/
def toCodec : Node → Codec
  | .leaf n p => .plain n.toMarks (.kind (.primitive p))
  | .literal n value => .literal n.toMarks value.toJson
  | .enum n values => .enum n.toMarks (values.map Scalar.toJson)
  | .object n shape => .object n.toMarks (toShape shape)
  | .record n values => .record n.toMarks (toCodec values)
  | .array n items => .array n.toMarks (toCodec items)
  | .tuple n items => .tuple n.toMarks (toCodecs items)
  | .intersection n members => .intersection n.toMarks (toCodecs members)
  | .union n members => .union n.toMarks (toCodecs members)
  | .ref n id => .recursive n.toMarks id id

def toCodecs : List Node → List Codec
  | [] => []
  | n :: ns => toCodec n :: toCodecs ns

def toShape : List (Text × Node) → List (Text × Codec)
  | [] => []
  | (name, n) :: ns => (name, toCodec n) :: toShape ns

end

end Node

namespace Document

/-- the codec of a document with the bodies of its definitions -/
def build (doc : Document) : CodecSystem := ⟨doc.codec.toCodec, Node.toShape doc.definitions⟩

/-- the body of an id, from what is built already or else from its definition, and what is built then; an id without
a definition has none -/
def resolve (doc : Document) (id : Text) (built : Bodies) : Option Codec × Bodies :=
  match Entries.get? built id with
  | some codec => (some codec, built)
  | none =>
    match Entries.get? doc.definitions id with
    | some definition => (some definition.toCodec, Entries.set built id definition.toCodec)
    | none => (none, built)

/-- what is built after bodies have been asked for, one after the other -/
def builtAfter (doc : Document) (calls : List Text) : Bodies :=
  calls.foldl (fun built id => (doc.resolve id built).2) []

end Document

end CodecCompiler
