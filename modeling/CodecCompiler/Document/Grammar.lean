/-
The grammar of codec documents as a JSON schema. Each type of node has a definition of its own, named after the type;
where a node may stand, the value of its `type` field chooses among them.

- `Document.grammar` is the whole schema.
-/
import CodecCompiler.Document.Basic

namespace CodecCompiler

namespace Grammar

/-- a text with its first letter in upper case -/
def capitalized (s : String) : String :=
  match s.toList with
  | c :: rest => String.ofList (c.toUpper :: rest)
  | [] => ""

/-- the name of a kind's definition -/
def nodeName (k : Kind) : String := capitalized k.typeName ++ "Node"

/-- a reference to a kind's definition -/
def nodeRef (k : Kind) : String := "#/$defs/" ++ nodeName k

/-- the kinds in the order of their names -/
def sortedKinds : List Kind := Kind.all.mergeSort fun a b => a.typeName ≤ b.typeName

def ofType (type : String) : Json := .obj [("type", .str type)]

def titled (field : String) : Text × Json := ("title", .str (capitalized field))

/-- what stands where any node may stand -/
def anyNode : Fields :=
  [("discriminator", .obj [("mapping", .obj (sortedKinds.map fun k => (k.typeName, .str (nodeRef k)))),
      ("propertyName", .str "type")]),
    ("oneOf", .arr (Kind.all.map fun k => .obj [("$ref", .str (nodeRef k))]))]

/-- a list of items -/
def listOf (field : String) (items : Fields) (nonEmpty : Bool) : Fields :=
  let least : Fields := if nonEmpty then [("minItems", .int 1)] else []
  ("items", .obj items) :: (least ++ [titled field, ("type", .str "array")])

/-- named nodes -/
def namedNodes (field : String) : Fields :=
  [("additionalProperties", .obj anyNode), titled field, ("type", .str "object")]

def scalarTypes : List Json := ["string", "integer", "number", "boolean"].map ofType

/-- what the own field of a kind holds -/
def ownField (k : Kind) (field : String) : Fields :=
  match k with
  | .literal => [("anyOf", .arr (scalarTypes ++ [ofType "null"])), titled field]
  | .enum => listOf field [("anyOf", .arr scalarTypes)] true
  | .object => namedNodes field
  | .tuple => listOf field anyNode false
  | .intersection | .union => listOf field anyNode true
  | .recursive => [("minLength", .int 1), titled field, ("type", .str "string")]
  | .primitive _ | .record | .array => anyNode ++ [titled field]

/-- may the own field of a kind be absent -/
def isOptional (k : Kind) : Bool := k = .object || k = .tuple

/-- the definition of a kind -/
def node (k : Kind) : Json :=
  let about : Fields :=
    if k = .recursive then
      [("description", .str "Reference to an entry in ``definitions``; compiles to a recursive codec.")]
    else []
  let common : Fields :=
    [("description", .obj [("anyOf", .arr [ofType "string", ofType "null"]), ("default", .null), titled "description"]),
      ("optional", .obj [("default", .bool false), titled "optional", ("type", .str "boolean")]),
      ("type", .obj [("const", .str k.typeName), titled "type", ("type", .str "string")])]
  let own : Fields := match k.fieldName? with
    | some field => [(field, .obj (ownField k field))]
    | none => []
  let required : List Text := "type" :: (if isOptional k then [] else Entries.names own)
  let described : Fields := [("properties", .obj (common ++ own)), ("required", Json.texts required),
    ("title", .str (nodeName k)), ("type", .str "object")]
  .obj (("additionalProperties", .bool false) :: (about ++ described))

end Grammar

/-- the schema of documents -/
def Document.grammar : Json :=
  .obj [("$defs", .obj (Grammar.sortedKinds.map fun k => (Grammar.nodeName k, Grammar.node k))),
    ("additionalProperties", .bool false), ("description", .str "Top-level document entity."),
    ("properties", .obj [("codec", .obj (Grammar.anyNode ++ [Grammar.titled "codec"])),
      ("definitions", .obj (Grammar.namedNodes "definitions"))]),
    ("required", Json.texts ["codec"]), ("title", .str "CodecDocument"), ("type", .str "object")]

end CodecCompiler
