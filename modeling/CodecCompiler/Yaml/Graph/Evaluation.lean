/-
Evaluation: from the graph of a document to its data.

A node is given its value once, when it is first met. The value of a collection is its number among the collections,
in the order in which they are met; its parts are given values later, one collection after the other. So of several
failures the one that is met first in this order counts, and a collection may stand inside itself.

A mapping's keys may be any data that is no collection; of equal keys the last value counts, at the place of the first.
What is not a number equals itself only: the word for it is the same value wherever it stands, any other spelling is a
value of its own.

A set has no order of its own. Its members are kept in the order in which they are written, and that order stands for
any other in which they might be met.

- `Graph.evaluate` is the whole. Its fuel is the number of nodes, since each is met once.
-/
import CodecCompiler.Yaml.Graph.Merge
import CodecCompiler.Yaml.Value

namespace CodecCompiler.Yaml.Graph

/-- the value of a node -/
structure Met where
  datum : Datum
  /-- the node that it came from; none for the word for what is not a number -/
  origin : Option Nat
  deriving Repr, Inhabited

/-- equality as keys of a mapping -/
def Met.sameKey (a b : Met) : Bool := a.origin = b.origin || a.datum.sameKey b.datum

/-- the value of a key, written over an earlier value of the same key in its place -/
def Met.put : List (Met × Datum) → Met → Datum → List (Met × Datum)
  | [], key, value => [(key, value)]
  | (k, v) :: rest, key, value =>
    if k.sameKey key then (k, value) :: rest else (k, v) :: Met.put rest key value

structure Progress where
  nodes : Nodes
  /-- the values of the nodes met so far -/
  values : List (Nat × Met) := []
  /-- the collections among them, in order -/
  collections : Array Nat := #[]
  deriving Repr

abbrev Evaluation := StateT Progress (Except Failure)

namespace Evaluation

def node (id : Nat) : Evaluation Node := do return (← get).nodes.node id

/-- the text of a scalar, or of the value that stands for its mapping; who has met more nodes than there are on the way
to it goes round in a circle -/
def textOf (nodes : Nodes) : (fuel : Nat) → (id : Nat) → Except Failure Text
  | 0, _ => .error .endless
  | fuel + 1, id =>
    match nodes.node id with
    | .scalar _ text => .ok text
    | .sequence _ _ => .error .malformed
    | .mapping _ entries =>
      match entries.find? fun e => (nodes.node e.1).type = .value with
      | some (_, value) => textOf nodes fuel value
      | none => .error .malformed

/-- where the value of a scalar's text comes from -/
def originOf (id : Nat) (type : NodeType) (text : Text) : Option Nat :=
  if type = .float ∧ (Value.floatText text.lossy).2 = Value.nanWord then none else some id

/-- the value of a node that is no collection -/
def scalarOf (nodes : Nodes) (id : Nat) : Except Failure Met := do
  let node := nodes.node id
  if node.type ∈ [.merge, .value, .unknown] then throw .malformed
  let text ← textOf nodes (nodes.size + 1) id
  match node.type, node with
  | .timestamp, .mapping _ _ => throw .noScalar
  | type, _ => return ⟨← scalarValue type text, originOf id type text⟩

/-- the value of a node; a collection met for the first time has the next number -/
def valueOf (id : Nat) : Evaluation Met := do
  let s ← get
  match s.values.lookup id with
  | some found => return found
  | none =>
    if (s.nodes.node id).type.isCollection then
      let found : Met := ⟨.shared s.collections.size, some id⟩
      set { s with values := (id, found) :: s.values, collections := s.collections.push id }
      return found
    else
      let found ← scalarOf s.nodes id
      set { s with values := (id, found) :: s.values }
      return found

/-- the value of a key, which cannot be a collection -/
def keyOf (id : Nat) : Evaluation Met := do
  let key ← valueOf id
  match key.datum with
  | .shared _ => throw .malformed
  | _ => return key

/-- the entries of a mapping, those merged into it in front -/
def flatEntries (id : Nat) : Evaluation (List (Nat × Nat)) := do
  let s ← get
  let (entries, nodes) ← (Editing.flatEntries id).run s.nodes
  set { s with nodes }
  return entries

/-- the keys of a mapping with their values -/
def entriesOf (id : Nat) : Evaluation (List (Datum × Datum)) := do
  let parts ← (← flatEntries id).mapM fun e => do
    let key ← keyOf e.1
    return (key, (← valueOf e.2).datum)
  let distinct := parts.foldl (fun found part => Met.put found part.1 part.2) []
  return distinct.map fun e => (e.1.datum, e.2)

/-- the pair of a mapping with one entry -/
def pairOf (id : Nat) : Evaluation Datum := do
  match ← node id with
  | .mapping _ [(first, second)] => return .pair (← valueOf first).datum (← valueOf second).datum
  | _ => throw .malformed

/-- the parts of a collection; those of a set as they are written -/
def contentsOf (id : Nat) : Evaluation Datum := do
  match ← node id with
  | .sequence .seq items => return .list (← items.mapM fun item => do return (← valueOf item).datum)
  | .sequence .omap items | .sequence .pairs items => return .list (← items.mapM pairOf)
  | .mapping .map _ => return .map (← entriesOf id)
  | .mapping .set _ => return .set ((← entriesOf id).map (·.1))
  | _ => throw .malformed

/-- the parts of the collections from a number on -/
def contentsFrom : (fuel : Nat) → (n : Nat) → Evaluation (List Datum)
  | 0, _ => return []
  | fuel + 1, n => do
    match (← get).collections[n]? with
    | none => return []
    | some id => do
      let contents ← contentsOf id
      return contents :: (← contentsFrom fuel (n + 1))

end Evaluation

/-- the data of a graph -/
def evaluate (g : Graph) : Except Failure Data := do
  let root ← (do
    let root ← Evaluation.valueOf g.root
    return (⟨root.datum, (← Evaluation.contentsFrom (g.nodes.size + 1) 0).toArray⟩ : Data) : Evaluation Data).run
      { nodes := g.nodes }
  return root.1

end CodecCompiler.Yaml.Graph
