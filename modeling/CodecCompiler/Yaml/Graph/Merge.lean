/-
Merge keys. The entries of a mapping under a merge key stand in front of its own, so that its own prevail; of several
merged mappings the first prevails. A merge key is taken out of its mapping before what it stands for is looked at, so a
mapping may be merged into itself.

- `flatten` takes the merge keys out of a mapping, and out of those merged into it. Its fuel is bounded by the number of
  merge keys, since each three steps take one out.
- In a flattened mapping a key that stands for a mapping's value elsewhere is a plain text.
-/
import CodecCompiler.Yaml.Graph
import CodecCompiler.Yaml.Token

namespace CodecCompiler.Yaml.Graph

/-- a step that changes nodes -/
abbrev Editing := StateT Nodes (Except Failure)

namespace Editing

def node (id : Nat) : Editing Node := do return (← get).node id

def setEntries (id : Nat) (entries : List (Nat × Nat)) : Editing Unit :=
  modify fun nodes => nodes.modify id (·.withEntries entries)

def typeOf (nodes : Nodes) (id : Nat) : NodeType := (nodes.node id).type

/-- the entries without the first merge key, and the value of that key -/
def firstMerge? (nodes : Nodes) (entries : List (Nat × Nat)) : Option (List (Nat × Nat) × Nat) :=
  let before := entries.takeWhile fun e => typeOf nodes e.1 ≠ .merge
  match entries.drop before.length with
  | (_, value) :: behind => some (before ++ behind, value)
  | [] => none

/-- makes a plain text of a key that stands for a value -/
def plainKey (id : Nat) : Editing Unit :=
  modify fun nodes => if typeOf nodes id = .value then nodes.modify id (·.withType .str) else nodes

mutual

/-- takes the merge keys out of a mapping, and puts the entries that they stand for in front -/
def flatten : (fuel : Nat) → (id : Nat) → Editing Unit
  | 0, _ => throw .malformed
  | fuel + 1, id => do
    let merged ← gather fuel id []
    let entries := (← node id).entries
    entries.forM fun e => plainKey e.1
    setEntries id (merged ++ entries)

/-- the entries that the merge keys of a mapping stand for, behind those gathered before -/
def gather : (fuel : Nat) → (id : Nat) → List (Nat × Nat) → Editing (List (Nat × Nat))
  | 0, _, _ => throw .malformed
  | fuel + 1, id, found => do
    match firstMerge? (← get) (← node id).entries with
    | none => return found
    | some (entries, value) =>
      setEntries id entries
      gather fuel id (found ++ (← merged fuel value))

/-- the entries that the value of a merge key stands for -/
def merged : (fuel : Nat) → (value : Nat) → Editing (List (Nat × Nat))
  | 0, _ => throw .malformed
  | fuel + 1, value => do
    let part (id : Nat) : Editing (List (Nat × Nat)) := do
      match ← node id with
      | .mapping _ _ => flatten fuel id; return (← node id).entries
      | _ => throw .malformed
    match ← node value with
    | .mapping _ _ => part value
    | .sequence _ items => return (← items.mapM part).reverse.flatten
    | .scalar _ _ => throw .malformed

end

/-- the number of merge keys in all mappings -/
def mergeKeys (nodes : Nodes) : Nat :=
  nodes.foldl (fun keys n => keys + n.entries.countP fun e => typeOf nodes e.1 = .merge) 0

/-- the entries of a mapping without merge keys -/
def flatEntries (id : Nat) : Editing (List (Nat × Nat)) := do
  flatten (3 * mergeKeys (← get) + 3) id
  return (← node id).entries

end Editing

end CodecCompiler.Yaml.Graph
