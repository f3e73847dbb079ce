/-
Graphs of YAML documents: scalars, sequences and mappings, each with the type that its tag or its spelling gives it. The
parts of a collection are named by their numbers among all nodes. An alias is the number of the node that it names, so
that a node may be part of several others, and of itself.

- `NodeType`: the types; a scalar without a tag has the one of its spelling (`NodeType.ofSpelling`).
- `NodeType.ofTag`: the type of a tag. Types that are not known have no values.
- `Graph`: the nodes of a document, and which of them is the root.
-/
import CodecCompiler.Text.Basic

namespace CodecCompiler.Yaml

/-- the types of nodes -/
inductive NodeType where
  | null
  | bool
  | int
  | float
  | binary
  | timestamp
  | str
  | seq
  | map
  | set
  | omap
  | pairs
  /-- a key whose value is merged into its mapping -/
  | merge
  /-- a key whose value stands for its mapping -/
  | value
  | unknown
  deriving DecidableEq, Repr, Inhabited

namespace NodeType

/-- what the tags of the known types begin with -/
def tagStart : String := "tag:yaml.org,2002:"

/-- the type of a tag -/
def ofTag (tag : String) : NodeType :=
  let known : List (String × NodeType) :=
    [("null", null), ("bool", bool), ("int", int), ("float", float), ("binary", binary), ("timestamp", timestamp),
      ("str", str), ("seq", seq), ("map", map), ("set", set), ("omap", omap), ("pairs", pairs), ("merge", merge),
      ("value", value)]
  ((known.find? fun e => tagStart ++ e.1 = tag).map (·.2)).getD unknown

/-- is it the type of a collection -/
def isCollection (type : NodeType) : Bool := type ∈ [seq, map, set, omap, pairs]

end NodeType

inductive Node where
  | scalar (type : NodeType) (text : Text)
  | sequence (type : NodeType) (items : List Nat)
  | mapping (type : NodeType) (entries : List (Nat × Nat))
  deriving DecidableEq, Repr, Inhabited

namespace Node

def type : Node → NodeType
  | scalar t _ | sequence t _ | mapping t _ => t

/-- a node of another type -/
def withType (n : Node) (type : NodeType) : Node :=
  match n with
  | scalar _ text => scalar type text
  | sequence _ items => sequence type items
  | mapping _ entries => mapping type entries

/-- the entries of a mapping -/
def entries : Node → List (Nat × Nat)
  | mapping _ entries => entries
  | scalar _ _ | sequence _ _ => []

/-- a mapping with other entries -/
def withEntries (n : Node) (entries : List (Nat × Nat)) : Node :=
  match n with
  | mapping type _ => mapping type entries
  | n => n

end Node

/-- the nodes of a document by their numbers -/
abbrev Nodes := Array Node

/-- the node of a number -/
def Nodes.node (nodes : Nodes) (id : Nat) : Node := nodes.getD id (.scalar .null ⟨[]⟩)

structure Graph where
  nodes : Nodes
  root : Nat
  deriving Repr, Inhabited

end CodecCompiler.Yaml
