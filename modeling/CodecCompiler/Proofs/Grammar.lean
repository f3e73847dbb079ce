/-
How documents are written, said without the checks that accept them. A value writes a node by rules of their own, one
for each type of node, and a document by its codec and its definitions.

- `Json.Truth`: the values that stand for a truth value.
- `Node.Head`: the fields that nodes of a kind have in common, and that there are no others but the kind's own.
- `Node.Writes`: a value writes a node. The rules leave open which texts are ids.
- `Document.Writes`: a value writes a document, whatever its references name.
- `Text.IsId`: the texts that are ids.
-/
import CodecCompiler.Document.Basic

namespace CodecCompiler

open Entries (names get?)

/-! ## What is written -/

/-- the words for a truth value, in lower case -/
def Json.words : Bool → List String
  | false => ["0", "off", "f", "false", "n", "no"]
  | true => ["1", "on", "t", "true", "y", "yes"]

/-- the value stands for a truth value: itself, a number that is 0 or 1, or a word in any letter case -/
inductive Json.Truth : Json → Bool → Prop
  | bool (b : Bool) : Truth (.bool b) b
  | int (b : Bool) : Truth (.int (if b then 1 else 0)) b
  | float {x : Binary64} (b : Bool) : x.toInt? = some (if b then 1 else 0) → Truth (.float x) b
  | word {s : String} (b : Bool) : s.map Char.toLower ∈ Json.words b → Truth (.str s) b

/-- a description: a text, and none when it is null or absent -/
inductive Notes.Describes : Option Json → Option Text → Prop
  | absent : Describes none none
  | null : Describes (some .null) none
  | text (s : Text) : Describes (some (.str s)) (some s)

/-- a flag: a value that stands for it, and false when it is absent -/
inductive Notes.Flags : Option Json → Bool → Prop
  | absent : Flags none false
  | given {v : Json} {b : Bool} : v.Truth b → Flags (some v) b

/-- the fields of a node of a kind: its type, its notes, and none but these and the kind's own -/
structure Node.Head (fields : Fields) (kind : Kind) (notes : Notes) : Prop where
  type : get? fields "type" = some (.str kind.typeName)
  description : Notes.Describes (get? fields "description") notes.description
  optional : Notes.Flags (get? fields "optional") notes.optional
  known : ∀ name ∈ names fields, name ∈ (["description", "optional", "type"] : List Text) ∨
    ∃ own, kind.fieldName? = some own ∧ name = own

mutual

/-- a value writes a node -/
inductive Node.Writes (IsId : Text → Prop) : Json → Node → Prop
  | node {fields : Fields} {kind : Kind} {notes : Notes} {n : Node} : Node.Head fields kind notes →
      Node.WritesOwn IsId fields kind notes n → Node.Writes IsId (.obj fields) n

/-- the fields of a node of a kind, whose notes are known, write the node -/
inductive Node.WritesOwn (IsId : Text → Prop) : Fields → Kind → Notes → Node → Prop
  | leaf {fields : Fields} {notes : Notes} (p : Primitive) :
      Node.WritesOwn IsId fields (.primitive p) notes (.leaf notes p)
  | literal {fields : Fields} {notes : Notes} {value : Scalar} : get? fields "value" = some value.toJson →
      Node.WritesOwn IsId fields .literal notes (.literal notes value)
  | enum {fields : Fields} {notes : Notes} {values : List Scalar} :
      get? fields "values" = some (.arr (values.map Scalar.toJson)) → values ≠ [] → Scalar.null ∉ values →
      Node.WritesOwn IsId fields .enum notes (.enum notes values)
  | object {fields : Fields} {notes : Notes} {shape : List (Text × Node)} :
      Node.WritesShape IsId (get? fields "shape") shape →
      Node.WritesOwn IsId fields .object notes (.object notes shape)
  | record {fields : Fields} {notes : Notes} {v : Json} {values : Node} : get? fields "values" = some v →
      Node.Writes IsId v values → Node.WritesOwn IsId fields .record notes (.record notes values)
  | array {fields : Fields} {notes : Notes} {v : Json} {items : Node} : get? fields "items" = some v →
      Node.Writes IsId v items → Node.WritesOwn IsId fields .array notes (.array notes items)
  | tuple {fields : Fields} {notes : Notes} {items : List Node} : Node.WritesItems IsId (get? fields "items") items →
      Node.WritesOwn IsId fields .tuple notes (.tuple notes items)
  | intersection {fields : Fields} {notes : Notes} {vs : List Json} {members : List Node} :
      get? fields "of" = some (.arr vs) → vs ≠ [] → Node.WritesEach IsId vs members →
      Node.WritesOwn IsId fields .intersection notes (.intersection notes members)
  | union {fields : Fields} {notes : Notes} {vs : List Json} {members : List Node} :
      get? fields "of" = some (.arr vs) → vs ≠ [] → Node.WritesEach IsId vs members →
      Node.WritesOwn IsId fields .union notes (.union notes members)
  | ref {fields : Fields} {notes : Notes} {id : Text} : get? fields "id" = some (.str id) → IsId id →
      Node.WritesOwn IsId fields .recursive notes (.ref notes id)

/-- an object of named nodes, none when it is absent -/
inductive Node.WritesShape (IsId : Text → Prop) : Option Json → List (Text × Node) → Prop
  | absent : Node.WritesShape IsId none []
  | given {fields : Fields} {shape : List (Text × Node)} : Node.WritesNamed IsId fields shape →
      Node.WritesShape IsId (some (.obj fields)) shape

/-- a list of nodes, none when it is absent -/
inductive Node.WritesItems (IsId : Text → Prop) : Option Json → List Node → Prop
  | absent : Node.WritesItems IsId none []
  | given {vs : List Json} {items : List Node} : Node.WritesEach IsId vs items →
      Node.WritesItems IsId (some (.arr vs)) items

/-- values write nodes one by one -/
inductive Node.WritesEach (IsId : Text → Prop) : List Json → List Node → Prop
  | nil : Node.WritesEach IsId [] []
  | cons {v : Json} {n : Node} {vs : List Json} {ns : List Node} : Node.Writes IsId v n →
      Node.WritesEach IsId vs ns → Node.WritesEach IsId (v :: vs) (n :: ns)

/-- fields write nodes of their names, in order -/
inductive Node.WritesNamed (IsId : Text → Prop) : Fields → List (Text × Node) → Prop
  | nil : Node.WritesNamed IsId [] []
  | cons {name : Text} {v : Json} {n : Node} {fields : Fields} {shape : List (Text × Node)} : Node.Writes IsId v n →
      Node.WritesNamed IsId fields shape → Node.WritesNamed IsId ((name, v) :: fields) ((name, n) :: shape)

end

/-- a value writes a document, whatever its references name -/
inductive Document.Writes (IsId : Text → Prop) : Json → Document → Prop
  | document {fields : Fields} {v : Json} {codec : Node} {definitions : List (Text × Node)} :
      (∀ name ∈ names fields, name ∈ (["codec", "definitions"] : List Text)) → get? fields "codec" = some v →
      Node.Writes IsId v codec → Node.WritesShape IsId (get? fields "definitions") definitions →
      Document.Writes IsId (.obj fields) ⟨codec, definitions⟩

/-- a string with at least one character -/
def Text.IsId (t : Text) : Prop := ∃ s : String, s ≠ "" ∧ t = s

end CodecCompiler
