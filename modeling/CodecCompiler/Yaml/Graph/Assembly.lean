/-
Putting tokens together: from the tokens of a text to the graph of its document.

A stream holds one document, or none, which counts as null. Nodes may be missing where a key, a value or an entry is
announced and nothing follows; they count as null too. An anchor names the node behind it, from the node's start on,
for all aliases that follow, and cannot be given twice.

- `Assembly` is a step that takes tokens and adds nodes. Tokens are looked at one after the other, so that what breaks
  the rules comes before a failure of the text behind it, and after one in front of it.
- `Graph.ofTokens` is the whole; its fuel is bounded by the number of tokens, since each two steps take one.
-/
import CodecCompiler.Yaml.Spelling
import CodecCompiler.Yaml.Token

namespace CodecCompiler.Yaml

/-- what is left to put together, and what is known so far -/
structure Stream where
  tokens : List Token
  nodes : Nodes := #[]
  /-- the nodes of anchors -/
  anchors : List (String × Nat) := []
  /-- what the handles of the document's own directives stand for -/
  handles : List (String × String) := []
  deriving Repr, Inhabited

abbrev Assembly := StateT Stream (Except Failure)

namespace Assembly

/-- the next token; a failure ends the whole -/
def peek : Assembly Token := do
  match (← get).tokens.headD .streamEnd with
  | .failure f => throw f
  | token => return token

def drop : Assembly Unit := modify fun s => { s with tokens := s.tokens.drop 1 }

/-- is the next token one of these -/
def at? (tokens : List Token) : Assembly Bool := do return (← peek) ∈ tokens

/-- adds a node -/
def add (node : Node) : Assembly Nat :=
  modifyGet fun s => (s.nodes.size, { s with nodes := s.nodes.push node })

/-- puts a node in the place of another -/
def put (id : Nat) (node : Node) : Assembly Unit :=
  modify fun s => { s with nodes := s.nodes.setIfInBounds id node }

/-- names a node -/
def bind (anchor : Option String) (id : Nat) : Assembly Unit :=
  match anchor with
  | some name => modify fun s => { s with anchors := (name, id) :: s.anchors }
  | none => return

/-- the missing node -/
def missing : Assembly Nat := add (.scalar .null ⟨[]⟩)

/-! ## Properties -/

/-- what stands in front of a node -/
structure Properties where
  anchor : Option String := none
  tag : Option String := none
  deriving Repr

/-- what tag handles stand for by themselves -/
def standardHandles : List (String × String) := [("!", "!"), ("!!", NodeType.tagStart)]

/-- the tag that a handle and its rest stand for -/
def fullTag : Option (Option String × String) → Assembly (Option String)
  | none => return none
  | some (none, suffix) => return some suffix
  | some (some handle, suffix) => do
    match ((← get).handles ++ standardHandles).lookup handle with
    | some start => return some (start ++ suffix)
    | none => throw .malformed

def anchor? : Assembly (Option String) := do
  match ← peek with
  | .anchor name => drop; return some name
  | _ => return none

def tag? : Assembly (Option (Option String × String)) := do
  match ← peek with
  | .tag handle suffix => drop; return some (handle, suffix)
  | _ => return none

/-- the anchor and the tag in front of a node, in either order -/
def properties : Assembly Properties := do
  match ← anchor? with
  | some name => return ⟨some name, ← fullTag (← tag?)⟩
  | none =>
    match ← tag? with
    | some tag =>
      let anchor ← anchor?
      return ⟨anchor, ← fullTag (some tag)⟩
    | none => return {}

/-- the type of a scalar with a tag or without one -/
def scalarType (tag : Option String) (text : Text) (plain : Bool) : NodeType :=
  match tag with
  | some "!" => .ofSpelling text
  | some tag => .ofTag tag
  | none => if plain then .ofSpelling text else .str

/-- the type of a collection with a tag or without one -/
def collectionType (tag : Option String) (untagged : NodeType) : NodeType :=
  match tag with
  | some "!" | none => untagged
  | some tag => .ofTag tag

/-- a scalar behind its properties -/
def scalar (props : Properties) (text : Text) (plain : Bool) : Assembly Nat := do
  let id ← add (.scalar (scalarType props.tag text plain) text)
  bind props.anchor id
  return id

/-- no text behind properties, of which there must be one -/
def empty (props : Properties) : Assembly Nat :=
  if props.anchor.isNone && props.tag.isNone then throw .malformed else scalar props ⟨[]⟩ true

/-- a collection behind its properties; its name is known inside it -/
def collection {α : Type} (props : Properties) (make : List α → Node) (parts : Assembly (List α)) : Assembly Nat := do
  let id ← add (make [])
  bind props.anchor id
  put id (make (← parts))
  return id

def sequence (props : Properties) : Assembly (List Nat) → Assembly Nat :=
  collection props (.sequence (collectionType props.tag .seq))

def mapping (props : Properties) : Assembly (List (Nat × Nat)) → Assembly Nat :=
  collection props (.mapping (collectionType props.tag .map))

/-! ## Nodes -/

mutual

/-- a node; `block` says whether block collections may stand here, `indentless` whether entries of a sequence may stand
at the indentation of the mapping around it -/
def node (block indentless : Bool) : (fuel : Nat) → Assembly Nat
  | 0 => throw .malformed
  | fuel + 1 => do
    match ← peek with
    | .alias name =>
      drop
      match (← get).anchors.lookup name with
      | some id => return id
      | none => throw .malformed
    | _ =>
      let props ← properties
      let next ← peek
      let anchors := (← get).anchors
      if props.anchor.any fun name => (anchors.lookup name).isSome then throw .malformed
      match next with
      | .scalar text plain => drop; scalar props text plain
      | .flowSequenceStart => drop; sequence props (flowItems true fuel)
      | .flowMappingStart => drop; mapping props (flowEntries true fuel)
      | .blockEntry => if indentless then sequence props (looseItems fuel) else empty props
      | .blockSequenceStart => if block then drop; sequence props (blockItems fuel) else empty props
      | .blockMappingStart => if block then drop; mapping props (blockEntries fuel) else empty props
      | _ => empty props

/-- a node unless one of the tokens stands here that show that there is none -/
def nodeUnless (ends : List Token) (block indentless : Bool) : (fuel : Nat) → Assembly Nat
  | 0 => throw .malformed
  | fuel + 1 => do if ← at? ends then missing else node block indentless fuel

/-- a value behind its mark, or none -/
def valueUnless (ends : List Token) (block : Bool) : (fuel : Nat) → Assembly Nat
  | 0 => throw .malformed
  | fuel + 1 => do
    if ← at? [.value] then drop; nodeUnless ends block block fuel else missing

/-- the entries of a block sequence up to its end -/
def blockItems : (fuel : Nat) → Assembly (List Nat)
  | 0 => throw .malformed
  | fuel + 1 => do
    match ← peek with
    | .blockEntry =>
      drop
      let item ← nodeUnless [.blockEntry, .blockEnd] true false fuel
      return item :: (← blockItems fuel)
    | .blockEnd => drop; return []
    | _ => throw .malformed

/-- the entries of a sequence at the indentation of the mapping around it -/
def looseItems : (fuel : Nat) → Assembly (List Nat)
  | 0 => throw .malformed
  | fuel + 1 => do
    match ← peek with
    | .blockEntry =>
      drop
      let item ← nodeUnless [.blockEntry, .key, .value, .blockEnd] true false fuel
      return item :: (← looseItems fuel)
    | _ => return []

/-- the entries of a block mapping up to its end -/
def blockEntries : (fuel : Nat) → Assembly (List (Nat × Nat))
  | 0 => throw .malformed
  | fuel + 1 => do
    match ← peek with
    | .key =>
      drop
      let ends := [.key, .value, .blockEnd]
      let key ← nodeUnless ends true true fuel
      let value ← valueUnless ends true fuel
      return (key, value) :: (← blockEntries fuel)
    | .blockEnd => drop; return []
    | _ => throw .malformed

/-- the items of a sequence in brackets; one with a key is a mapping of one entry -/
def flowItems (first : Bool) : (fuel : Nat) → Assembly (List Nat)
  | 0 => throw .malformed
  | fuel + 1 => do
    if ← at? [.flowSequenceEnd] then
      drop
      return []
    if !first then
      if ← at? [.flowEntry] then drop else throw .malformed
    match ← peek with
    | .flowSequenceEnd => drop; return []
    | .key =>
      drop
      let id ← add (.mapping .map [])
      let key ← nodeUnless [.value, .flowEntry, .flowSequenceEnd] false false fuel
      let value ← valueUnless [.flowEntry, .flowSequenceEnd] false fuel
      put id (.mapping .map [(key, value)])
      return id :: (← flowItems false fuel)
    | _ =>
      let item ← node false false fuel
      return item :: (← flowItems false fuel)

/-- the entries of a mapping in braces -/
def flowEntries (first : Bool) : (fuel : Nat) → Assembly (List (Nat × Nat))
  | 0 => throw .malformed
  | fuel + 1 => do
    if ← at? [.flowMappingEnd] then
      drop
      return []
    if !first then
      if ← at? [.flowEntry] then drop else throw .malformed
    match ← peek with
    | .flowMappingEnd => drop; return []
    | .key =>
      drop
      let key ← nodeUnless [.value, .flowEntry, .flowMappingEnd] false false fuel
      let value ← valueUnless [.flowEntry, .flowMappingEnd] false fuel
      return (key, value) :: (← flowEntries false fuel)
    | _ =>
      let key ← node false false fuel
      let value ← missing
      return (key, value) :: (← flowEntries false fuel)

end

/-! ## Documents -/

/-- the directives in front of a document: one version at most, of the first kind, and no handle twice -/
def directives (versioned : Bool) : (fuel : Nat) → Assembly Unit
  | 0 => throw .malformed
  | fuel + 1 => do
    match ← peek with
    | .directive (.version major) =>
      if versioned || major ≠ 1 then throw .malformed
      drop
      directives true fuel
    | .directive (.handle name start) =>
      if ((← get).handles.lookup name).isSome then throw .malformed
      modify fun s => { s with handles := s.handles ++ [(name, start)] }
      drop
      directives versioned fuel
    | .directive .other => drop; directives versioned fuel
    | _ => return

/-- the start of a document behind its directives -/
def documentStart (fuel : Nat) : Assembly Unit := do
  modify fun s => { s with handles := [] }
  directives false fuel
  if ← at? [.documentStart] then drop else throw .malformed

/-- the root of the document -/
def document (fuel : Nat) : Assembly Nat := do
  match ← peek with
  | .streamEnd => missing
  | .directive _ | .documentStart =>
    documentStart fuel
    match ← peek with
    | .directive _ | .documentStart | .documentEnd | .streamEnd => missing
    | _ => node true false fuel
  | _ => node true false fuel

/-- the end of the stream, where no other document may follow -/
def streamEnd : (fuel : Nat) → Assembly Unit
  | 0 => throw .malformed
  | fuel + 1 => do
    match ← peek with
    | .documentEnd => drop; streamEnd fuel
    | .streamEnd => return
    | _ => documentStart fuel; throw .malformed

end Assembly

/-- the graph of the one document of a stream -/
def Graph.ofTokens (tokens : List Token) : Except Failure Graph := do
  let fuel := 4 * tokens.length + 4
  let (root, s) ← (do let root ← Assembly.document fuel; Assembly.streamEnd fuel; return root).run { tokens }
  return ⟨s.nodes, root⟩

end CodecCompiler.Yaml
