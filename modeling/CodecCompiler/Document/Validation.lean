/-
Validation: from data to codec documents. Every part is checked and all issues are collected, a node's fields in the
order description, optional, type and the type's own field, and its unknown keys after them. Only a document without
any such issue has its references checked, and then the first dangling one is the only issue.

- `Datum.text`, `Datum.truth`, `Datum.scalar` and `Datum.value` check data that is no collection.
- `Node.ofDatum` checks a node, `Document.ofData` a document; `Document.ofJson` does so for a JSON value.
- A value whose type name is unknown has that single issue, since what else to expect of it is unknown.
- The names of named nodes are texts; `Node.settled` keeps one entry where octets encode a text that is a key already.
- Collections that are kept apart are checked through an `Entrance`. `Node.entrance` builds it and tells a node that
  stands inside itself; since no other node is entered, the number of collections bounds its depth.
-/
import CodecCompiler.Compiler.Options
import CodecCompiler.Datum.Shown
import CodecCompiler.Document.Basic
import CodecCompiler.Text.Utf8

namespace CodecCompiler

namespace Datum

/-! ## Scalars -/

/-- a text; octets count as the text that they encode -/
def text : Datum → Checked Text
  | .str s => .ok s
  | .octets os =>
    match Text.Utf8.decode os with
    | .ok s => .ok (.ofString s)
    | .error _ => Checked.fail .badText
  | _ => Checked.fail .notText

/-- a truth value, or what stands for one -/
def truth : Datum → Checked Bool
  | .bool b => .ok b
  | .int n => truthOfInt n
  | .float x => truthOfFloat x
  | .str s => Checked.string s >>= truthOfString
  | .octets os =>
    match Text.Utf8.decode os with
    | .ok s => truthOfString s
    | .error _ => Checked.fail .unreadableTruth
  | _ => Checked.fail .notTruth

/-- the issues of a value that is none of the four scalar types -/
def noScalar {α : Type} (text integer number truth : Problem) : Checked α :=
  .error [⟨[.name "str"], text⟩, ⟨[.name "int"], integer⟩, ⟨[.name "float"], number⟩, ⟨[.name "bool"], truth⟩]

/-- a scalar other than null -/
def scalar : Datum → Checked Scalar
  | .bool b => .ok (.bool b)
  | .int n => .ok (.int n)
  | .float x => .ok (.float x)
  | .str s => .ok (.str s)
  | .octets os =>
    match Text.Utf8.decode os with
    | .ok s => .ok (.str (.ofString s))
    | .error _ => noScalar .badText .unreadableInteger .unreadableNumber .unreadableTruth
  | _ => noScalar .notText .notInteger .notNumber .notTruth

/-- a scalar or null -/
def value : Datum → Checked Scalar
  | .null => .ok .null
  | d => scalar d

/-- a description: a text or null -/
def description : Datum → Checked (Option Text)
  | .null => .ok none
  | d => (text d).map some

/-- an id: a string with at least one character -/
def id (d : Datum) : Checked Text := do
  let s ← Checked.string (← text d)
  if s.isEmpty then Checked.fail .emptyText else return s

/-- the items of a value that counts as a list -/
def items? : Datum → Option (List Datum)
  | .list items => some items
  | .set members => some members
  | .pair a b => some [a, b]
  | _ => none

/-! ## Places -/

/-- the step to the value of a key -/
def keyStep : Datum → Step
  | .str s => .name s.lossy
  | .bool b => .index (if b then 1 else 0)
  | .int n => if -0x8000000000000000 ≤ n ∧ n < 0x8000000000000000 then .index n else .name (keyText (.int n))
  | d => .name d.keyText

/-- the texts among the keys of a mapping -/
def textKeys (entries : List (Datum × Datum)) : List Text :=
  entries.filterMap fun e =>
    match e.1 with
    | .str name => some name
    | _ => none

end Datum

namespace Checked

variable {α : Type}

/-- checks a list, each item under its position from `i` on -/
def each (check : Datum → Checked α) (i : Nat) : List Datum → Checked (List α)
  | [] => .ok []
  | d :: ds => both (· :: ·) (under [.index i] (check d)) (each check (i + 1) ds)

/-- a list that must not be empty -/
def nonEmpty (isEmpty : Bool) (result : Checked α) : Checked α :=
  if isEmpty then fail .emptyList else result

/-- a field that has to be there -/
def present (name : String) : Option (Checked α) → Checked α
  | some result => under [.name name] result
  | none => .error [⟨[.name name], .missing⟩]

/-- a field that has a default -/
def orElse (name : String) (absent : α) : Option (Checked α) → Checked α
  | some result => under [.name name] result
  | none => .ok absent

end Checked

namespace Node

/-- the fields that a node of a kind may have -/
def knownFields (kind : Kind) : List Text :=
  "description" :: "optional" :: "type" :: (kind.fieldName?.map Text.ofString).toList

/-- the issues of keys other than the known ones -/
def unknownKeys (known : List Text) (entries : List (Datum × Datum)) : List Issue :=
  entries.filterMap fun e =>
    match e.1 with
    | .str name => if name ∈ known then none else some ⟨[.name name.lossy], .unknownKey⟩
    | key => some ⟨[key.keyStep], .keyNotText⟩

/-- no keys other than the known ones -/
def onlyKnown (known : List Text) (entries : List (Datum × Datum)) : Checked Unit :=
  match unknownKeys known entries with
  | [] => .ok ()
  | found => .error found

/-- what every node may carry -/
def notesOf (entries : List (Datum × Datum)) : Checked Notes :=
  Checked.both Notes.mk
    (Checked.orElse "description" none ((Datum.field? entries "description").map Datum.description))
    (Checked.orElse "optional" false ((Datum.field? entries "optional").map Datum.truth))

/-- the values of an enumeration -/
def valuesOf (data : Data) (d : Datum) : Checked (List Scalar) :=
  match (data.opened d).items? with
  | some items => Checked.nonEmpty items.isEmpty (Checked.each Datum.scalar 0 items)
  | none => Checked.fail .notList

/-- a node of a kind, from the checked parts: its notes, its own field, and that it has no other keys -/
def assemble {α : Type} (kind : Kind) (entries : List (Datum × Datum)) (make : Notes → α → Node) (own : Checked α) :
    Checked Node :=
  Checked.under [.name kind.typeName]
    (Checked.named (Datum.textKeys entries)
      (Checked.also (Checked.both make (notesOf entries) own) (onlyKnown (knownFields kind) entries)))

/-- the kind that the entries of a node name -/
def kindOf (data : Data) (entries : List (Datum × Datum)) : Checked Kind :=
  match Datum.field? entries "type" with
  | none => Checked.fail .noTag
  | some type =>
    match (match type with | .str name => Kind.ofTypeName? name | _ => none) with
    | none => Checked.fail (.unknownTag (data.shownAlone type) Kind.typeNames)
    | some kind => .ok kind

/-- the nodes checked under keys: different keys can be one name only if octets are among them, and then the last node
of the name stands in the place of the first -/
def settled (entries : List (Datum × Datum)) (shape : List (Text × Node)) : List (Text × Node) :=
  if entries.any (·.1.isOctets) then Entries.merge [] shape else shape

/-- the checks of collections that are kept apart: as a node, as a list of nodes, and as named nodes -/
structure Entrance where
  node : Nat → Checked Node
  list : (nonEmpty : Bool) → Nat → Checked (List Node)
  shape : Nat → Checked (List (Text × Node))

section

variable (data : Data) (enter : Entrance)

mutual

/-- a node -/
def ofDatum : Datum → Checked Node
  | .map entries =>
    match kindOf data entries with
    | .error found => .error found
    | .ok (.primitive p) => assemble (.primitive p) entries (fun n (_ : Unit) => .leaf n p) (.ok ())
    | .ok .literal =>
      assemble .literal entries .literal (Checked.present "value" ((Datum.field? entries "value").map Datum.value))
    | .ok .enum =>
      assemble .enum entries .enum (Checked.present "values" ((Datum.field? entries "values").map (valuesOf data)))
    | .ok .object => assemble .object entries .object (Checked.orElse "shape" [] (shapeAt "shape" entries))
    | .ok .record => assemble .record entries .record (Checked.present "values" (nodeAt "values" entries))
    | .ok .array => assemble .array entries .array (Checked.present "items" (nodeAt "items" entries))
    | .ok .tuple => assemble .tuple entries .tuple (Checked.orElse "items" [] (nodesAt false "items" entries))
    | .ok .intersection =>
      assemble .intersection entries .intersection (Checked.present "of" (nodesAt true "of" entries))
    | .ok .union => assemble .union entries .union (Checked.present "of" (nodesAt true "of" entries))
    | .ok .recursive =>
      assemble .recursive entries .ref (Checked.present "id" ((Datum.field? entries "id").map Datum.id))
  | .shared n => enter.node n
  | _ => Checked.fail .notNode

/-- the node that is the value of a key -/
def nodeAt (name : Text) : List (Datum × Datum) → Option (Checked Node)
  | [] => none
  | (key, d) :: rest => if key.isText name then some (ofDatum d) else nodeAt name rest

/-- the list of nodes that is the value of a key -/
def nodesAt (nonEmpty : Bool) (name : Text) : List (Datum × Datum) → Option (Checked (List Node))
  | [] => none
  | (key, d) :: rest => if key.isText name then some (listOf nonEmpty d) else nodesAt nonEmpty name rest

/-- the named nodes that are the value of a key -/
def shapeAt (name : Text) : List (Datum × Datum) → Option (Checked (List (Text × Node)))
  | [] => none
  | (key, d) :: rest => if key.isText name then some (shapeOf d) else shapeAt name rest

/-- a list of nodes -/
def listOf (nonEmpty : Bool) : Datum → Checked (List Node)
  | .list items => Checked.nonEmpty (nonEmpty && items.isEmpty) (nodesOf 0 items)
  | .set members => Checked.nonEmpty (nonEmpty && members.isEmpty) (nodesOf 0 members)
  | .pair a b =>
    Checked.both (fun a b => [a, b]) (Checked.under [.index 0] (ofDatum a)) (Checked.under [.index 1] (ofDatum b))
  | .shared n => enter.list nonEmpty n
  | _ => Checked.fail .notList

/-- nodes under their positions from `i` on -/
def nodesOf (i : Nat) : List Datum → Checked (List Node)
  | [] => .ok []
  | d :: ds => Checked.both (· :: ·) (Checked.under [.index i] (ofDatum d)) (nodesOf (i + 1) ds)

/-- named nodes -/
def shapeOf : Datum → Checked (List (Text × Node))
  | .map entries => (namedOf entries).map (settled entries)
  | .shared n => enter.shape n
  | _ => Checked.fail .notMapping

/-- nodes under their names -/
def namedOf : List (Datum × Datum) → Checked (List (Text × Node))
  | [] => .ok []
  | (key, d) :: rest =>
    Checked.both (· :: ·)
      (Checked.under [key.keyStep] (Checked.both Prod.mk (Checked.under [.name "[key]"] key.text) (ofDatum d)))
      (namedOf rest)

end

end

/-- the check of a collection as a node that it already stands in -/
def again (data : Data) : Datum → Checked Node
  | .map entries => do
    let kind ← kindOf data entries
    Checked.under [.name kind.typeName] (Checked.fail .loop)
  | _ => Checked.fail .notNode

/-- the checks of collections entered at most `depth` deep, where `around` are the nodes that they stand in -/
def entrance (data : Data) : (depth : Nat) → (around : List Nat) → Entrance
  | 0, _ => ⟨fun _ => Checked.fail .loop, fun _ _ => Checked.fail .loop, fun _ => Checked.fail .loop⟩
  | depth + 1, around =>
    { node := fun n =>
        if n ∈ around then again data (data.contents n)
        else ofDatum data (entrance data depth (n :: around)) (data.contents n)
      list := fun nonEmpty n => listOf data (entrance data depth around) nonEmpty (data.contents n)
      shape := fun n => shapeOf data (entrance data depth around) (data.contents n) }

end Node

namespace Document

/-- how deep the collections kept apart can be entered: each once as a node, and once more in each node -/
def depth (data : Data) : Nat := 2 * data.collections.size + 2

/-- a document whose references may dangle -/
def shapeOfData (data : Data) : Checked Document :=
  let enter := Node.entrance data (depth data) []
  match data.opened data.root with
  | .map entries =>
    Checked.named (Datum.textKeys entries)
      (Checked.also
        (Checked.both Document.mk
          (Checked.present "codec" ((Datum.field? entries "codec").map (Node.ofDatum data enter)))
          (Checked.orElse "definitions" [] ((Datum.field? entries "definitions").map (Node.shapeOf data enter))))
        (Node.onlyKnown ["codec", "definitions"] entries))
  | _ => Checked.fail (.notInstance "CodecDocument")

/-- a document with its references checked -/
def checkRefs (doc : Document) : Checked Document :=
  match doc.firstDangling? with
  | none => .ok doc
  | some id => Checked.fail (.dangling id.lossy)

/-- a document -/
def ofData (data : Data) : Checked Document :=
  match shapeOfData data with
  | .ok doc => checkRefs doc
  | .error found => .error found

/-- the document of a JSON value -/
def ofJson (value : Json) : Checked Document := ofData (Data.ofJson value)

end Document

end CodecCompiler
