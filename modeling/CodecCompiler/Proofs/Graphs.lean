/-
Graphs of tokens: where no tag gives a scalar a type that relies on its spelling, whatever fails on the way from the
tokens to the data fails as a token does, or as the reading of a spelled scalar does, or in a way that is reported.

- `Tagged`: the tags that tokens stand for. `IsForcing`: those that give a type without regard to the spelling.
- `Readable`: what of the tokens of a text makes its graph readable: no forcing tag, and plain scalars that can be read.
  A tag of a type for texts may stand before a mapping, whose own text is sought in it, perhaps without end.
- `Node.Sound`: a node whose scalar can be read. `Graph.ofTokens_ensures`: all nodes that are put together from readable
  tokens are sound, and `Graph.evaluate_ensures`: such nodes have a value.
-/
import CodecCompiler.Proofs.Spelling
import CodecCompiler.Yaml.Graph.Assembly
import CodecCompiler.Yaml.Graph.Evaluation

namespace CodecCompiler.Yaml

/-! ## Tags -/

/-- the tags that tokens stand for: one without a handle is what it says, any other begins with what its handle stands
for, by itself or by a directive -/
inductive Tagged (tokens : List Token) : String → Prop
  | verbatim {suffix : String} (h : .tag none suffix ∈ tokens) : Tagged tokens suffix
  | standard {handle start suffix : String} (h : .tag (some handle) suffix ∈ tokens)
      (hstart : (handle, start) ∈ Assembly.standardHandles) : Tagged tokens (start ++ suffix)
  | declared {handle start suffix : String} (h : .tag (some handle) suffix ∈ tokens)
      (hstart : .directive (.handle handle start) ∈ tokens) : Tagged tokens (start ++ suffix)

/-- a tag that gives a scalar a type relying on its spelling, whatever the spelling is, or the type of its spelling even
between quotes -/
def IsForcing (tag : String) : Prop := tag = "!" ∨ (NodeType.ofTag tag).reliesOnSpelling = true

/-- a type that makes a text of what has it, or that stands for a value; of a mapping the text is sought inside -/
def NodeType.makesText (type : NodeType) : Bool := type ∈ [null, binary, str, value]

/-- a type of scalars that does not rely on their spelling makes a text of them -/
theorem NodeType.makesText_of_scalar {type : NodeType} (hvalue : type ∉ [merge, value, unknown])
    (hcollection : type.isCollection = false) (hspelling : type.reliesOnSpelling = false) : type.makesText = true := by
  cases type with
  | null | binary | str | value => rfl
  | bool | int | float | timestamp => cases hspelling
  | seq | map | set | omap | pairs => cases hcollection
  | merge | unknown => exact absurd (by decide) hvalue

variable {E : Failure → Prop} {all : List Token}

/-- tokens whose graph can be read, but for the failures `E` -/
structure Readable (E : Failure → Prop) (all : List Token) : Prop where
  reported : ∀ f, f.IsReported → E f
  failure : ∀ f, .failure f ∈ all → E f
  plain : ∀ text, .scalar text true ∈ all → FailsWith E (scalarValue (.ofSpelling text) text)
  tag : ∀ tag, Tagged all tag → ¬ IsForcing tag
  endless : ∀ tag, Tagged all tag → (NodeType.ofTag tag).makesText = true → E .endless

theorem Readable.malformed (h : Readable E all) : E .malformed := h.reported _ Failure.isReported_malformed

/-- a node whose scalar can be read; a collection is of no type that would need it, and a mapping is of a type for
texts only if their search may have no end -/
def Node.Sound (E : Failure → Prop) : Node → Prop
  | .scalar type text => FailsWith E (scalarValue type text)
  | .sequence type _ => type.reliesOnSpelling = false
  | .mapping type _ => type.reliesOnSpelling = false ∧ (type.makesText = true → E .endless)

theorem Node.sound_missing : (Node.scalar .null ⟨[]⟩).Sound E := .ok trivial

theorem Node.sound_map (entries : List (Nat × Nat)) : (Node.mapping .map entries).Sound E := ⟨rfl, fun h => nomatch h⟩

theorem Node.Sound.withEntries {n : Node} (h : n.Sound E) (entries : List (Nat × Nat)) :
    (n.withEntries entries).Sound E := by
  cases n with
  | scalar | sequence | mapping => exact h

/-- all nodes are sound -/
def Nodes.Sound (E : Failure → Prop) (nodes : Nodes) : Prop := ∀ n ∈ nodes, n.Sound E

theorem Nodes.Sound.node {nodes : Nodes} (h : nodes.Sound E) (id : Nat) : (nodes.node id).Sound E := by
  unfold Nodes.node
  rw [Array.getD_eq_getD_getElem?]
  cases hget : nodes[id]? with
  | none => exact Node.sound_missing
  | some n => exact h n (Array.mem_of_getElem? hget)

/-! ## Putting tokens together -/

namespace Assembly

/-- what is left and known comes from the tokens of the text, and the nodes are sound -/
structure Sound (E : Failure → Prop) (all : List Token) (s : Stream) : Prop where
  tokens : ∀ t ∈ s.tokens, t ∈ all
  handles : ∀ handle start, (handle, start) ∈ s.handles → .directive (.handle handle start) ∈ all
  nodes : s.nodes.Sound E

variable {α : Type}

/-- a step that keeps what is known sound -/
abbrev Maintaining (E : Failure → Prop) (all : List Token) (x : Assembly α) : Prop :=
  Maintains (Sound E all) E (fun _ => True) x

/-- a check in front of a step -/
theorem unless_maintains (h : Readable E all) {fails : Prop} [Decidable fails] {rest : Unit → Assembly α}
    (hrest : Maintaining E all (rest ())) :
    Maintaining E all (if fails then throw .malformed >>= rest else rest ()) := by
  split
  · exact Maintains.throw_bind h.malformed
  · exact hrest

/-- the next token is one of the text, or stands for its end -/
theorem peek_maintains (h : Readable E all) : Maintains (Sound E all) E (fun t => t ∈ all ∨ t = .streamEnd) peek := by
  unfold peek
  refine Maintains.get.bind fun s hs => ?_
  have hhead : s.tokens.headD .streamEnd ∈ all ∨ s.tokens.headD .streamEnd = .streamEnd := by
    cases htokens : s.tokens with
    | nil => exact .inr rfl
    | cons t rest => exact .inl (hs.tokens t (htokens ▸ List.mem_cons_self))
  split
  · rename_i f hf
    refine Maintains.throw (h.failure f ?_)
    rw [hf] at hhead
    exact hhead.resolve_right (by simp)
  · exact Maintains.pure hhead

theorem at?_maintains (h : Readable E all) (tokens : List Token) : Maintaining E all (at? tokens) :=
  (peek_maintains h).returns

theorem drop_maintains : Maintaining E all drop :=
  Maintains.modify fun _ hs => ⟨fun t ht => hs.tokens t (List.mem_of_mem_drop ht), hs.handles, hs.nodes⟩

theorem add_maintains {node : Node} (hnode : node.Sound E) : Maintaining E all (add node) := by
  refine Maintains.modifyGet fun s hs => ⟨trivial, hs.tokens, hs.handles, fun n hn => ?_⟩
  rcases Array.mem_push.1 hn with hmem | rfl
  · exact hs.nodes n hmem
  · exact hnode

theorem put_maintains (id : Nat) {node : Node} (hnode : node.Sound E) : Maintaining E all (put id node) :=
  Maintains.modify fun s hs => ⟨hs.tokens, hs.handles, fun n hn => by
    rcases Array.mem_or_eq_of_mem_setIfInBounds hn with hmem | rfl
    · exact hs.nodes n hmem
    · exact hnode⟩

theorem bind_maintains (anchor : Option String) (id : Nat) : Maintaining E all (bind anchor id) := by
  unfold bind
  split
  · exact Maintains.modify fun s hs => ⟨hs.tokens, hs.handles, hs.nodes⟩
  · exact Maintains.pure trivial

theorem missing_maintains : Maintaining E all missing := add_maintains Node.sound_missing

/-! ## Properties -/

/-- the tag among them is one of the text's tokens -/
def Properties.Known (all : List Token) (props : Properties) : Prop := ∀ tag, props.tag = some tag → Tagged all tag

theorem fullTag_maintains (h : Readable E all) {tag : Option (Option String × String)}
    (htag : ∀ handle suffix, tag = some (handle, suffix) → .tag handle suffix ∈ all) :
    Maintains (Sound E all) E (fun full => ∀ tag, full = some tag → Tagged all tag) (fullTag tag) := by
  unfold fullTag
  split
  · exact Maintains.pure fun _ hnone => absurd hnone (by simp)
  · exact Maintains.pure fun tag hfull => Option.some.inj hfull ▸ .verbatim (htag _ _ rfl)
  · rename_i handle suffix
    refine Maintains.get.bind fun s hs => ?_
    split
    · rename_i start hlookup
      refine Maintains.pure fun tag hfull => Option.some.inj hfull ▸ ?_
      obtain ⟨before, behind, hsplit, -⟩ := List.lookup_eq_some_iff.1 hlookup
      have hmem : (handle, start) ∈ s.handles ++ standardHandles := by simp [hsplit]
      rcases List.mem_append.1 hmem with hdeclared | hstandard
      · exact .declared (htag _ _ rfl) (hs.handles _ _ hdeclared)
      · exact .standard (htag _ _ rfl) hstandard
    · exact Maintains.throw h.malformed

theorem anchor?_maintains (h : Readable E all) : Maintaining E all anchor? := by
  unfold anchor?
  refine (peek_maintains h).bind fun t _ => ?_
  split
  · exact drop_maintains.returns
  · exact Maintains.pure trivial

theorem tag?_maintains (h : Readable E all) : Maintains (Sound E all) E
    (fun tag => ∀ handle suffix, tag = some (handle, suffix) → .tag handle suffix ∈ all) tag? := by
  unfold tag?
  refine (peek_maintains h).bind fun t ht => ?_
  split
  · rename_i handle suffix
    refine drop_maintains.bind fun _ _ => Maintains.pure fun handle' suffix' heq => ?_
    cases heq
    exact ht.resolve_right (by simp)
  · exact Maintains.pure fun _ _ hnone => absurd hnone (by simp)

/-- what stands in front of a node is among the tokens -/
theorem properties_maintains (h : Readable E all) :
    Maintains (Sound E all) E (Properties.Known all) properties := by
  unfold properties
  refine (anchor?_maintains h).bind fun anchor _ => ?_
  split
  · exact (tag?_maintains h).bind fun tag htag => (fullTag_maintains h htag).bind fun full hfull =>
      Maintains.pure hfull
  · refine (tag?_maintains h).bind fun tag htag => ?_
    split
    · exact (anchor?_maintains h).bind fun _ _ => (fullTag_maintains h htag).bind fun full hfull => Maintains.pure hfull
    · exact Maintains.pure fun _ hnone => absurd hnone (by simp)

/-! ## Nodes of one token -/

variable {props : Properties} {text : Text} {plain : Bool}

theorem sound_scalar (h : Readable E all) (hprops : props.Known all)
    (hplain : plain = true → FailsWith E (scalarValue (.ofSpelling text) text)) :
    (Node.scalar (scalarType props.tag text plain) text).Sound E := by
  rw [Node.Sound]
  unfold scalarType
  split
  · rename_i htag
    exact absurd (.inl rfl) (h.tag _ (hprops _ htag))
  · rename_i tag _ htag
    have hrelies := mt Or.inr (h.tag tag (hprops tag htag))
    exact (scalarValue_of_not_reliesOnSpelling (by simpa using hrelies) text).weaken h.reported
  · split
    · exact hplain (by assumption)
    · exact .ok trivial

theorem scalar_maintains (h : Readable E all) (hprops : props.Known all)
    (hplain : plain = true → FailsWith E (scalarValue (.ofSpelling text) text)) :
    Maintaining E all (scalar props text plain) :=
  (add_maintains (sound_scalar h hprops hplain)).bind fun _ _ => (bind_maintains _ _).returns

theorem empty_maintains (h : Readable E all) (hprops : props.Known all) : Maintaining E all (empty props) := by
  unfold empty
  split
  · exact Maintains.throw h.malformed
  · exact scalar_maintains h hprops fun _ => .ok trivial

/-! ## Collections -/

theorem collectionType_relies (h : Readable E all) (hprops : props.Known all) {untagged : NodeType}
    (huntagged : untagged.reliesOnSpelling = false) :
    (collectionType props.tag untagged).reliesOnSpelling = false := by
  unfold collectionType
  split
  · exact huntagged
  · exact huntagged
  · rename_i tag _ htag
    simpa using mt Or.inr (h.tag tag (hprops tag htag))

/-- a mapping is of a type for texts only by its tag -/
theorem collectionType_makesText (h : Readable E all) (hprops : props.Known all)
    (htext : (collectionType props.tag .map).makesText = true) : E .endless := by
  unfold collectionType at htext
  split at htext
  · cases htext
  · cases htext
  · rename_i tag _ htag
    exact h.endless tag (hprops tag htag) htext

theorem collection_maintains {α : Type} {make : List α → Node} (hmake : ∀ parts, (make parts).Sound E)
    {parts : Assembly (List α)} (hparts : Maintaining E all parts) :
    Maintaining E all (collection props make parts) :=
  (add_maintains (hmake [])).bind fun _ _ => (bind_maintains _ _).bind fun _ _ => hparts.bind fun _ _ =>
    (put_maintains _ (hmake _)).returns

theorem sequence_maintains (h : Readable E all) (hprops : props.Known all) {parts : Assembly (List Nat)}
    (hparts : Maintaining E all parts) : Maintaining E all (sequence props parts) := by
  refine collection_maintains (fun _ => ?_) hparts
  exact collectionType_relies h hprops rfl

theorem mapping_maintains (h : Readable E all) (hprops : props.Known all) {parts : Assembly (List (Nat × Nat))}
    (hparts : Maintaining E all parts) : Maintaining E all (mapping props parts) := by
  refine collection_maintains (fun _ => ?_) hparts
  exact ⟨collectionType_relies h hprops rfl, collectionType_makesText h hprops⟩

/-! ## Nodes of several tokens -/

/-- the steps that call each other keep what is known sound -/
structure PartsMaintain (E : Failure → Prop) (all : List Token) (fuel : Nat) : Prop where
  node : ∀ block indentless, Maintaining E all (node block indentless fuel)
  nodeUnless : ∀ ends block indentless, Maintaining E all (nodeUnless ends block indentless fuel)
  valueUnless : ∀ ends block, Maintaining E all (valueUnless ends block fuel)
  blockItems : Maintaining E all (blockItems fuel)
  looseItems : Maintaining E all (looseItems fuel)
  blockEntries : Maintaining E all (blockEntries fuel)
  flowItems : ∀ first, Maintaining E all (flowItems first fuel)
  flowEntries : ∀ first, Maintaining E all (flowEntries first fuel)

variable {fuel : Nat}

theorem node_maintains (h : Readable E all) (ih : PartsMaintain E all fuel) (block indentless : Bool) :
    Maintaining E all (node block indentless (fuel + 1)) := by
  unfold Assembly.node
  refine (peek_maintains h).bind fun t _ => ?_
  split
  · refine drop_maintains.bind fun _ _ => Maintains.get.bind fun s _ => ?_
    split
    · exact Maintains.pure trivial
    · exact Maintains.throw h.malformed
  · refine (properties_maintains h).bind fun props hprops => (peek_maintains h).bind fun next hnext => ?_
    refine Maintains.get.bind fun s _ => ?_
    refine unless_maintains h ?_
    dsimp only
    split
    · refine drop_maintains.bind fun _ _ => scalar_maintains h hprops fun hplain => h.plain _ ?_
      exact hplain ▸ hnext.resolve_right (by simp)
    · exact drop_maintains.bind fun _ _ => sequence_maintains h hprops (ih.flowItems true)
    · exact drop_maintains.bind fun _ _ => mapping_maintains h hprops (ih.flowEntries true)
    · split
      · exact sequence_maintains h hprops ih.looseItems
      · exact empty_maintains h hprops
    · split
      · exact drop_maintains.bind fun _ _ => sequence_maintains h hprops ih.blockItems
      · exact empty_maintains h hprops
    · split
      · exact drop_maintains.bind fun _ _ => mapping_maintains h hprops ih.blockEntries
      · exact empty_maintains h hprops
    · exact empty_maintains h hprops

theorem nodeUnless_maintains (h : Readable E all) (ih : PartsMaintain E all fuel) (ends : List Token)
    (block indentless : Bool) : Maintaining E all (nodeUnless ends block indentless (fuel + 1)) := by
  unfold Assembly.nodeUnless
  refine (at?_maintains h ends).bind fun ended _ => ?_
  split
  · exact missing_maintains
  · exact ih.node block indentless

theorem valueUnless_maintains (h : Readable E all) (ih : PartsMaintain E all fuel) (ends : List Token) (block : Bool) :
    Maintaining E all (valueUnless ends block (fuel + 1)) := by
  unfold Assembly.valueUnless
  refine (at?_maintains h _).bind fun marked _ => ?_
  split
  · exact drop_maintains.bind fun _ _ => ih.nodeUnless ends block block
  · exact missing_maintains

theorem blockItems_maintains (h : Readable E all) (ih : PartsMaintain E all fuel) :
    Maintaining E all (blockItems (fuel + 1)) := by
  unfold Assembly.blockItems
  refine (peek_maintains h).bind fun t _ => ?_
  split
  · exact drop_maintains.bind fun _ _ => (ih.nodeUnless _ true false).bind fun _ _ => ih.blockItems.returns
  · exact drop_maintains.returns
  · exact Maintains.throw h.malformed

theorem looseItems_maintains (h : Readable E all) (ih : PartsMaintain E all fuel) :
    Maintaining E all (looseItems (fuel + 1)) := by
  unfold Assembly.looseItems
  refine (peek_maintains h).bind fun t _ => ?_
  split
  · exact drop_maintains.bind fun _ _ => (ih.nodeUnless _ true false).bind fun _ _ => ih.looseItems.returns
  · exact Maintains.pure trivial

theorem blockEntries_maintains (h : Readable E all) (ih : PartsMaintain E all fuel) :
    Maintaining E all (blockEntries (fuel + 1)) := by
  unfold Assembly.blockEntries
  refine (peek_maintains h).bind fun t _ => ?_
  split
  · refine drop_maintains.bind fun _ _ => (ih.nodeUnless _ true true).bind fun _ _ => ?_
    exact (ih.valueUnless _ true).bind fun _ _ => ih.blockEntries.returns
  · exact drop_maintains.returns
  · exact Maintains.throw h.malformed

/-- the comma between the parts in brackets -/
theorem comma_maintains {α : Type} (h : Readable E all) {first : Bool} {rest : Unit → Assembly α}
    (hrest : Maintaining E all (rest ())) : Maintaining E all
      (if !first then do if ← at? [.flowEntry] then drop >>= rest else throw .malformed >>= rest else rest ()) := by
  split
  · refine (at?_maintains h _).bind fun comma _ => ?_
    split
    · exact drop_maintains.bind fun _ _ => hrest
    · exact Maintains.throw_bind h.malformed
  · exact hrest

theorem flowItems_maintains (h : Readable E all) (ih : PartsMaintain E all fuel) (first : Bool) :
    Maintaining E all (flowItems first (fuel + 1)) := by
  unfold Assembly.flowItems
  refine (at?_maintains h _).bind fun ended _ => ?_
  split
  · exact drop_maintains.returns
  refine comma_maintains h ?_
  dsimp only
  refine (peek_maintains h).bind fun t _ => ?_
  split
  · exact drop_maintains.returns
  · refine drop_maintains.bind fun _ _ => (add_maintains (Node.sound_map [])).bind fun _ _ => ?_
    refine (ih.nodeUnless _ false false).bind fun _ _ => (ih.valueUnless _ false).bind fun _ _ => ?_
    refine (put_maintains _ (Node.sound_map _)).bind fun _ _ => ?_
    exact (ih.flowItems false).returns
  · exact (ih.node false false).bind fun _ _ => (ih.flowItems false).returns

theorem flowEntries_maintains (h : Readable E all) (ih : PartsMaintain E all fuel) (first : Bool) :
    Maintaining E all (flowEntries first (fuel + 1)) := by
  unfold Assembly.flowEntries
  refine (at?_maintains h _).bind fun ended _ => ?_
  split
  · exact drop_maintains.returns
  refine comma_maintains h ?_
  dsimp only
  refine (peek_maintains h).bind fun t _ => ?_
  split
  · exact drop_maintains.returns
  · refine drop_maintains.bind fun _ _ => (ih.nodeUnless _ false false).bind fun _ _ => ?_
    exact (ih.valueUnless _ false).bind fun _ _ => (ih.flowEntries false).returns
  · refine (ih.node false false).bind fun _ _ => missing_maintains.bind fun _ _ => ?_
    exact (ih.flowEntries false).returns

theorem partsMaintain (h : Readable E all) (fuel : Nat) : PartsMaintain E all fuel := by
  induction fuel with
  | zero =>
    have hthrow : ∀ {α : Type}, Maintaining E all (throw .malformed : Assembly α) := Maintains.throw h.malformed
    exact ⟨fun _ _ => hthrow, fun _ _ _ => hthrow, fun _ _ => hthrow, hthrow, hthrow, hthrow, fun _ => hthrow,
      fun _ => hthrow⟩
  | succ fuel ih =>
    exact ⟨node_maintains h ih, nodeUnless_maintains h ih, valueUnless_maintains h ih, blockItems_maintains h ih,
      looseItems_maintains h ih, blockEntries_maintains h ih, flowItems_maintains h ih, flowEntries_maintains h ih⟩

/-! ## Documents -/

theorem directives_maintains (h : Readable E all) (versioned : Bool) (fuel : Nat) :
    Maintaining E all (directives versioned fuel) := by
  induction fuel generalizing versioned with
  | zero => exact Maintains.throw h.malformed
  | succ fuel ih =>
    unfold directives
    refine (peek_maintains h).bind fun t ht => ?_
    split
    · exact unless_maintains h (drop_maintains.bind fun _ _ => ih true)
    · refine Maintains.get.bind fun s _ => unless_maintains h ?_
      rename_i handle start
      refine Maintains.bind (Q := fun _ => True) ?_ fun _ _ => drop_maintains.bind fun _ _ => ih versioned
      refine Maintains.modify fun s hs => ⟨hs.tokens, fun handle' start' hmem => ?_, hs.nodes⟩
      rcases List.mem_append.1 hmem with hknown | hnew
      · exact hs.handles _ _ hknown
      · cases List.mem_singleton.1 hnew
        exact ht.resolve_right (by simp)
    · exact drop_maintains.bind fun _ _ => ih versioned
    · exact Maintains.pure trivial

theorem documentStart_maintains (h : Readable E all) (fuel : Nat) :
    Maintaining E all (documentStart fuel) := by
  unfold documentStart
  refine Maintains.bind (Q := fun _ => True) (Maintains.modify fun s hs => ⟨hs.tokens, by simp, hs.nodes⟩) fun _ _ => ?_
  refine (directives_maintains h false fuel).bind fun _ _ => (at?_maintains h _).bind fun started _ => ?_
  split
  · exact drop_maintains
  · exact Maintains.throw h.malformed

theorem document_maintains (h : Readable E all) (fuel : Nat) : Maintaining E all (document fuel) := by
  have hnode := (partsMaintain h fuel).node true false
  unfold document
  refine (peek_maintains h).bind fun t _ => ?_
  split
  · exact missing_maintains
  on_goal 3 => exact hnode
  -- behind a directive or a mark
  all_goals
    refine (documentStart_maintains h fuel).bind fun _ _ => (peek_maintains h).bind fun t _ => ?_
    split
    all_goals first | exact missing_maintains | exact hnode

theorem streamEnd_maintains (h : Readable E all) (fuel : Nat) : Maintaining E all (streamEnd fuel) := by
  induction fuel with
  | zero => exact Maintains.throw h.malformed
  | succ fuel ih =>
    unfold streamEnd
    refine (peek_maintains h).bind fun t _ => ?_
    split
    · exact drop_maintains.bind fun _ _ => ih
    · exact Maintains.pure trivial
    · exact (documentStart_maintains h _).bind fun _ _ => Maintains.throw h.malformed

end Assembly

/-- the nodes of readable tokens are sound -/
theorem Graph.ofTokens_ensures (h : Readable E all) :
    Ensures E (fun g => g.nodes.Sound E) (Graph.ofTokens all) := by
  have hstream : Assembly.Sound E all { tokens := all } := ⟨fun _ ht => ht, by simp, by simp [Nodes.Sound]⟩
  have hkeeps : Assembly.Maintaining E all (do
      let root ← Assembly.document (4 * all.length + 4)
      Assembly.streamEnd (4 * all.length + 4)
      return root) :=
    (Assembly.document_maintains h _).bind fun _ _ => (Assembly.streamEnd_maintains h _).returns
  exact (hkeeps _ hstream).bind fun r hr => .ok hr.2.nodes

/-! ## Merging -/

namespace Graph

/-- what edits a graph keeps its nodes sound, and fails in a way that is reported -/
abbrev Editing.Maintaining (E : Failure → Prop) {α : Type} (x : Editing α) : Prop :=
  Maintains (Nodes.Sound E) Failure.IsReported (fun _ => True) x

namespace Editing

theorem node_maintains (id : Nat) : Maintains (Nodes.Sound E) Failure.IsReported (fun n => n.Sound E) (node id) :=
  Maintains.get.bind fun _ hs => Maintains.pure (Nodes.Sound.node hs id)

theorem sound_modify {nodes : Nodes} (hnodes : nodes.Sound E) {id : Nat} {f : Node → Node}
    (hf : (f (nodes.node id)).Sound E) : Nodes.Sound E (nodes.modify id f) := by
  intro n hn
  obtain ⟨i, hi, rfl⟩ := Array.mem_iff_getElem.1 hn
  rw [Array.size_modify] at hi
  rw [Array.getElem_modify]
  split
  · rename_i hid
    rwa [Nodes.node, Array.getD_eq_getD_getElem?, hid, Array.getElem?_eq_getElem hi] at hf
  · exact hnodes _ (Array.getElem_mem _)

theorem setEntries_maintains (id : Nat) (entries : List (Nat × Nat)) :
    Maintaining E (setEntries id entries) :=
  Maintains.modify fun _ hnodes => sound_modify hnodes ((hnodes.node id).withEntries entries)

theorem plainKey_maintains (id : Nat) : Maintaining E (plainKey id) := by
  refine Maintains.modify fun nodes hnodes => ?_
  split
  · rename_i htype
    refine sound_modify hnodes ?_
    have hnode := hnodes.node id
    rw [typeOf] at htype
    cases hn : nodes.node id with
    | scalar => exact .ok trivial
    | sequence => rfl
    | mapping type entries =>
      rw [hn] at hnode htype
      obtain rfl : type = .value := htype
      exact ⟨rfl, fun _ => hnode.2 rfl⟩
  · exact hnodes

/-- the steps of merging that call each other keep the nodes sound -/
structure MergesMaintain (E : Failure → Prop) (fuel : Nat) : Prop where
  flatten : ∀ id, Maintaining E (flatten fuel id)
  gather : ∀ id found, Maintaining E (gather fuel id found)
  merged : ∀ value, Maintaining E (merged fuel value)

variable {fuel : Nat}

theorem flatten_maintains (ih : MergesMaintain E fuel) (id : Nat) : Maintaining E (flatten (fuel + 1) id) := by
  unfold flatten
  refine (ih.gather id []).bind fun _ _ => (node_maintains id).bind fun _ _ => ?_
  exact (Maintains.forM fun _ _ => plainKey_maintains _).bind fun _ _ => setEntries_maintains id _

theorem gather_maintains (ih : MergesMaintain E fuel) (id : Nat) (found : List (Nat × Nat)) :
    Maintaining E (gather (fuel + 1) id found) := by
  unfold gather
  refine Maintains.get.bind fun _ _ => (node_maintains id).bind fun _ _ => ?_
  split
  · exact Maintains.pure trivial
  · exact (setEntries_maintains id _).bind fun _ _ => (ih.merged _).bind fun _ _ => ih.gather id _

theorem merged_maintains (ih : MergesMaintain E fuel) (value : Nat) :
    Maintaining E (merged (fuel + 1) value) := by
  unfold merged
  extract_lets part
  have hpart : ∀ id, Maintaining E (part id) := by
    intro id
    refine (node_maintains id).bind fun _ _ => ?_
    split
    · exact (ih.flatten id).bind fun _ _ => (node_maintains id).returns
    · exact Maintains.throw Failure.isReported_malformed
  refine (node_maintains value).bind fun _ _ => ?_
  split
  · exact hpart value
  · exact (Maintains.mapM fun id _ => hpart id).returns
  · exact Maintains.throw Failure.isReported_malformed

theorem mergesMaintain (fuel : Nat) : MergesMaintain E fuel := by
  induction fuel with
  | zero =>
    have hthrow : ∀ {α : Type}, Maintaining E (throw .malformed : Editing α) :=
      Maintains.throw Failure.isReported_malformed
    exact ⟨fun _ => hthrow, fun _ _ => hthrow, fun _ => hthrow⟩
  | succ fuel ih => exact ⟨flatten_maintains ih, gather_maintains ih, merged_maintains ih⟩

theorem flatEntries_maintains (id : Nat) : Maintaining E (flatEntries id) :=
  Maintains.get.bind fun _ _ => ((mergesMaintain _).flatten id).bind fun _ _ => (node_maintains id).returns

end Editing

/-! ## Evaluation -/

/-- a step of the evaluation keeps the nodes sound -/
abbrev Evaluation.Maintaining (E : Failure → Prop) {α : Type} (x : Evaluation α) : Prop :=
  Maintains (fun s : Progress => s.nodes.Sound E) E (fun _ => True) x

namespace Evaluation

theorem set_maintains {nodes : Nodes} (h : nodes.Sound E) {values : List (Nat × Met)} {collections : Array Nat} :
    Maintaining E (set { nodes, values, collections : Progress } : Evaluation PUnit) :=
  Maintains.set (I := fun s : Progress => s.nodes.Sound E) h

/-- the text that a node stands for is found or not, or the search has no end -/
theorem textOf_ensures (hmalformed : E .malformed) (hendless : E .endless) (nodes : Nodes) (fuel id : Nat) :
    FailsWith E (textOf nodes fuel id) := by
  induction fuel generalizing id with
  | zero => exact .error hendless
  | succ fuel ih =>
    unfold textOf
    split
    · exact .ok trivial
    · exact .error hmalformed
    · split
      · exact ih _
      · exact .error hmalformed

theorem scalarOf_ensures (hE : ∀ f, f.IsReported → E f) {nodes : Nodes} (h : nodes.Sound E) {id : Nat}
    (hcollection : (nodes.node id).type.isCollection = false) : FailsWith E (scalarOf nodes id) := by
  have hmalformed : E .malformed := hE _ Failure.isReported_malformed
  have hnode := h.node id
  unfold scalarOf
  dsimp only
  split
  · exact .error hmalformed
  rename_i hvalue
  -- a scalar has its own text; a mapping has that of another node, but no type that relies on it
  cases hn : nodes.node id with
  | scalar type text =>
    rw [hn] at hnode
    rw [show textOf nodes (nodes.size + 1) id = .ok text by simp [textOf, hn]]
    refine Ensures.bind (Q := (· = text)) (.ok rfl) fun _ htext => ?_
    subst htext
    split
    · rename_i heq
      cases heq
    · exact Ensures.bind hnode fun _ _ => .ok trivial
  | sequence type items =>
    rw [textOf, hn]
    exact .error hmalformed
  | mapping type entries =>
    rw [hn] at hnode hvalue hcollection
    obtain ⟨hspelling, hendless⟩ := hnode
    have htext := hendless (NodeType.makesText_of_scalar hvalue hcollection hspelling)
    refine (textOf_ensures hmalformed htext nodes _ id).bind fun text _ => ?_
    split
    · rename_i htype _
      rw [show type = .timestamp from htype] at hspelling
      cases hspelling
    · exact ((scalarValue_of_not_reliesOnSpelling hspelling text).weaken hE).bind fun _ _ => .ok trivial

theorem valueOf_maintains (hE : ∀ f, f.IsReported → E f) (id : Nat) : Maintaining E (valueOf id) := by
  unfold valueOf
  refine Maintains.get.bind fun s hs => ?_
  split
  · exact Maintains.pure trivial
  split
  · exact (set_maintains hs).returns
  · rename_i hcollection
    rw [Bool.not_eq_true] at hcollection
    exact (Maintains.lift (scalarOf_ensures hE hs hcollection)).bind fun _ _ => (set_maintains hs).returns

theorem keyOf_maintains (hE : ∀ f, f.IsReported → E f) (id : Nat) : Maintaining E (keyOf id) := by
  unfold keyOf
  refine (valueOf_maintains hE id).bind fun key _ => ?_
  split
  · exact Maintains.throw (hE _ Failure.isReported_malformed)
  · exact Maintains.pure trivial

theorem flatEntries_maintains (hE : ∀ f, f.IsReported → E f) (id : Nat) :
    Maintaining E (flatEntries id) := by
  unfold flatEntries
  refine Maintains.get.bind fun s hs => ?_
  have hmerged := (Editing.flatEntries_maintains id s.nodes hs).weaken hE
  exact (Maintains.lift hmerged).bind fun r hr => (set_maintains hr.2).returns

theorem entriesOf_maintains (hE : ∀ f, f.IsReported → E f) (id : Nat) : Maintaining E (entriesOf id) := by
  refine (flatEntries_maintains hE id).bind fun entries _ => ?_
  refine (Maintains.mapM (R := fun _ => True) fun e _ => ?_).returns
  exact (keyOf_maintains hE e.1).bind fun _ _ => (valueOf_maintains hE e.2).returns

theorem pairOf_maintains (hE : ∀ f, f.IsReported → E f) (id : Nat) : Maintaining E (pairOf id) := by
  refine Maintains.bind (Q := fun _ => True) (Maintains.get.returns) fun n _ => ?_
  split
  · exact (valueOf_maintains hE _).bind fun _ _ => (valueOf_maintains hE _).returns
  · exact Maintains.throw (hE _ Failure.isReported_malformed)

theorem contentsOf_maintains (hE : ∀ f, f.IsReported → E f) (id : Nat) : Maintaining E (contentsOf id) := by
  refine Maintains.bind (Q := fun _ => True) (Maintains.get.returns) fun n _ => ?_
  split
  · refine (Maintains.mapM (R := fun _ => True) fun item _ => ?_).returns
    exact (valueOf_maintains hE item).returns
  · exact (Maintains.mapM fun item _ => pairOf_maintains hE item).returns
  · exact (Maintains.mapM fun item _ => pairOf_maintains hE item).returns
  · exact (entriesOf_maintains hE id).returns
  · exact (entriesOf_maintains hE id).returns
  · exact Maintains.throw (hE _ Failure.isReported_malformed)

theorem contentsFrom_maintains (hE : ∀ f, f.IsReported → E f) (fuel n : Nat) :
    Maintaining E (contentsFrom fuel n) := by
  induction fuel generalizing n with
  | zero => exact Maintains.pure trivial
  | succ fuel ih =>
    unfold contentsFrom
    refine Maintains.get.bind fun s _ => ?_
    split
    · exact Maintains.pure trivial
    · exact (contentsOf_maintains hE _).bind fun _ _ => (ih _).returns

end Evaluation

/-- a graph of sound nodes has data, or fails in a way that is reported or as its scalars do -/
theorem evaluate_ensures (hE : ∀ f, f.IsReported → E f) {g : Graph} (h : g.nodes.Sound E) :
    FailsWith E g.evaluate := by
  have hkeeps : Evaluation.Maintaining E (do
      let root ← Evaluation.valueOf g.root
      return (⟨root.datum, (← Evaluation.contentsFrom (g.nodes.size + 1) 0).toArray⟩ : Data)) :=
    (Evaluation.valueOf_maintains hE _).bind fun _ _ => (Evaluation.contentsFrom_maintains hE _ _).returns
  exact (hkeeps { nodes := g.nodes } h).bind fun _ _ => .ok trivial

end Graph

end CodecCompiler.Yaml
