/-
Trees of codecs, of document nodes and of JSON values, seen through the trees directly below each one.

- `Codec.induction`, `Node.induction`, `Json.induction`: what holds of a tree when it holds of the trees directly below
  it holds of all.
- `Codec.All`: a property of every node of a codec.
- `Codec.ids_eq`, `Node.refs_eq`: the ids of a tree are its own and those of its children in order.
- `Node.children_toCodec`, `Node.ids_toCodec`, `Document.ids_build`: building keeps the children and the ids.
- `Node.named_toCodec`: recursive nodes that are built name the body of their own id.
-/
import CodecCompiler.Document.Build
import CodecCompiler.Proofs.Entries

namespace CodecCompiler

/-! ## Codecs -/

namespace Codec

/-- the codecs directly below, in the order of their declaration -/
def children : Codec → List Codec
  | .plain _ _ | .literal _ _ | .enum _ _ | .recursive _ _ _ => []
  | .object _ shape => shape.map (·.2)
  | .record _ c | .array _ c => [c]
  | .tuple _ cs | .intersection _ cs | .union _ cs => cs

/-- does the codec stand for a definition of its own -/
def isRecursive : Codec → Bool
  | .recursive _ _ _ => true
  | _ => false

theorem recursive_or (c : Codec) : (∃ m id body, c = .recursive m id body) ∨ c.isRecursive = false := by
  cases c with
  | recursive m id body => exact Or.inl ⟨m, id, body, rfl⟩
  | _ => exact Or.inr rfl

theorem sizeOf_child {c d : Codec} (h : d ∈ c.children) : sizeOf d < sizeOf c := by
  cases c with
  | plain | literal | enum | recursive => simp [children] at h
  | object m shape =>
    obtain ⟨e, he, rfl⟩ := List.mem_map.1 h
    have hlt := List.sizeOf_lt_of_mem he
    have hpair : sizeOf e = 1 + sizeOf e.1 + sizeOf e.2 := rfl
    simp only [object.sizeOf_spec]
    omega
  | record m c | array m c =>
    rw [List.mem_singleton.1 h]
    simp
  | tuple m cs | intersection m cs | union m cs =>
    have hlt := List.sizeOf_lt_of_mem (show d ∈ cs from h)
    simp only [tuple.sizeOf_spec, intersection.sizeOf_spec, union.sizeOf_spec]
    omega

theorem induction {motive : Codec → Prop} (step : ∀ c, (∀ d ∈ c.children, motive d) → motive c) (c : Codec) :
    motive c :=
  step c fun d hd =>
    have := sizeOf_child hd
    induction step d
termination_by sizeOf c

/-- a property of every node of a codec -/
inductive All (P : Codec → Prop) : Codec → Prop
  | intro {c : Codec} : P c → (∀ d ∈ c.children, All P d) → All P c

theorem All.here {P : Codec → Prop} {c : Codec} (h : c.All P) : P c := by
  cases h with
  | intro here _ => exact here

theorem All.child {P : Codec → Prop} {c d : Codec} (h : c.All P) (hd : d ∈ c.children) : d.All P := by
  cases h with
  | intro _ below => exact below d hd

theorem All.mono {P Q : Codec → Prop} {c : Codec} (h : c.All P) (hPQ : ∀ d, P d → Q d) : c.All Q := by
  induction h with
  | intro here _ ih => exact .intro (hPQ _ here) ih

theorem All.and {P Q : Codec → Prop} {c : Codec} (hP : c.All P) (hQ : c.All Q) : c.All fun d => P d ∧ Q d := by
  induction hP with
  | intro here _ ih => exact .intro ⟨here, hQ.here⟩ fun d hd => ih d hd (hQ.child hd)

/-- a recursive node names the body of its own id -/
def Named : Codec → Prop
  | .recursive _ id body => body = id
  | _ => True

/-! ### Ids -/

/-- the id of a recursive node -/
def ownIds : Codec → List Text
  | .recursive _ id _ => [id]
  | _ => []

theorem idsList_eq (cs : List Codec) : idsList cs = cs.flatMap ids := by
  induction cs with
  | nil => rfl
  | cons c cs ih => rw [idsList, ih, List.flatMap_cons]

theorem idsEntries_eq (shape : List (Text × Codec)) : idsEntries shape = (shape.map (·.2)).flatMap ids := by
  induction shape with
  | nil => rfl
  | cons e shape ih => rw [idsEntries, ih, List.map_cons, List.flatMap_cons]

theorem ids_eq (c : Codec) : c.ids = c.ownIds ++ c.children.flatMap ids := by
  cases c with
  | plain | literal | enum | recursive => simp [ids, ownIds, children]
  | object m shape => simp only [ids, ownIds, children, idsEntries_eq, List.nil_append]
  | record m c | array m c => simp [ids, ownIds, children]
  | tuple m cs | intersection m cs | union m cs => simp only [ids, ownIds, children, idsList_eq, List.nil_append]

theorem ids_child {c d : Codec} (hd : d ∈ c.children) {id : Text} (h : id ∈ d.ids) : id ∈ c.ids := by
  rw [ids_eq c]
  exact List.mem_append_right _ (List.mem_flatMap.2 ⟨d, hd, h⟩)

theorem ids_of_body {bodies : Bodies} {name : Text} {c : Codec} (h : Entries.get? bodies name = some c) {id : Text}
    (hid : id ∈ c.ids) : id ∈ idsEntries bodies := by
  rw [idsEntries_eq]
  exact List.mem_flatMap.2 ⟨c, List.mem_map.2 ⟨_, Entries.mem_of_get? h, rfl⟩, hid⟩

/-- every recursive node's id is among the ids -/
theorem all_ids (c : Codec) : c.All fun d => ∀ id ∈ d.ownIds, id ∈ c.ids := by
  induction c using induction with
  | step c ih =>
    refine .intro ?_ fun d hd => (ih d hd).mono fun e he id hid => ids_child hd (he id hid)
    intro id hid
    rw [ids_eq c]
    exact List.mem_append_left _ hid

end Codec

/-- the ids of all recursive nodes of a system -/
def CodecSystem.ids (system : CodecSystem) : List Text := system.root.ids ++ Codec.idsEntries system.bodies

/-! ## Document nodes -/

namespace Node

theorem sizeOf_child {n c : Node} (h : c ∈ n.children) : sizeOf c < sizeOf n := by
  cases n with
  | leaf | literal | enum | ref => simp [children] at h
  | object m shape =>
    obtain ⟨e, he, rfl⟩ := List.mem_map.1 h
    have hlt := List.sizeOf_lt_of_mem he
    have hpair : sizeOf e = 1 + sizeOf e.1 + sizeOf e.2 := rfl
    simp only [object.sizeOf_spec]
    omega
  | record m c | array m c =>
    rw [List.mem_singleton.1 h]
    simp
  | tuple m cs | intersection m cs | union m cs =>
    have hlt := List.sizeOf_lt_of_mem (show c ∈ cs from h)
    simp only [tuple.sizeOf_spec, intersection.sizeOf_spec, union.sizeOf_spec]
    omega

theorem induction {motive : Node → Prop} (step : ∀ n, (∀ c ∈ n.children, motive c) → motive n) (n : Node) :
    motive n :=
  step n fun c hc =>
    have := sizeOf_child hc
    induction step c
termination_by sizeOf n

/-- the id that a reference names -/
def ownRefs : Node → List Text
  | .ref _ id => [id]
  | _ => []

theorem refsOfList_eq (ns : List Node) : refsOfList ns = ns.flatMap refs := by
  induction ns with
  | nil => rfl
  | cons n ns ih => rw [refsOfList, ih, List.flatMap_cons]

theorem refsOfShape_eq (shape : List (Text × Node)) : refsOfShape shape = (shape.map (·.2)).flatMap refs := by
  induction shape with
  | nil => rfl
  | cons e shape ih => rw [refsOfShape, ih, List.map_cons, List.flatMap_cons]

theorem refs_eq (n : Node) : n.refs = n.ownRefs ++ n.children.flatMap refs := by
  cases n with
  | leaf | literal | enum | ref => simp [refs, ownRefs, children]
  | object m shape => simp only [refs, ownRefs, children, refsOfShape_eq, List.nil_append]
  | record m n | array m n => simp [refs, ownRefs, children]
  | tuple m ns | intersection m ns | union m ns => simp only [refs, ownRefs, children, refsOfList_eq, List.nil_append]

/-! ### Building -/

theorem toCodecs_eq (ns : List Node) : toCodecs ns = ns.map toCodec := by
  induction ns with
  | nil => rfl
  | cons n ns ih => rw [toCodecs, ih, List.map_cons]

theorem toShape_eq (shape : List (Text × Node)) : toShape shape = Entries.mapValues toCodec shape := by
  induction shape with
  | nil => rfl
  | cons e shape ih =>
    rw [toShape, ih]
    rfl

theorem children_toCodec (n : Node) : n.toCodec.children = n.children.map toCodec := by
  cases n with
  | leaf | literal | enum | ref => rfl
  | object m shape => simp [toCodec, children, Codec.children, toShape_eq, Entries.mapValues]
  | record m n | array m n => rfl
  | tuple m ns | intersection m ns | union m ns => simp only [toCodec, children, Codec.children, toCodecs_eq]

theorem ownIds_toCodec (n : Node) : n.toCodec.ownIds = n.ownRefs := by
  cases n <;> rfl

theorem ids_toCodec (n : Node) : n.toCodec.ids = n.refs := by
  induction n using induction with
  | step n ih =>
    rw [Codec.ids_eq, refs_eq, children_toCodec, ownIds_toCodec, List.flatMap_map]
    congr 1
    exact List.flatMap_congr ih

/-- a property of all nodes that a document can describe holds of every node of what is built -/
theorem all_toCodec {P : Codec → Prop} (h : ∀ n : Node, P n.toCodec) (n : Node) : n.toCodec.All P := by
  induction n using induction with
  | step n ih =>
    refine .intro (h n) fun d hd => ?_
    rw [children_toCodec] at hd
    obtain ⟨c, hc, rfl⟩ := List.mem_map.1 hd
    exact ih c hc

theorem named_toCodec (n : Node) : n.toCodec.All Codec.Named := by
  refine all_toCodec (fun m => ?_) n
  cases m with
  | ref notes id => rfl
  | _ => trivial

end Node

theorem Document.ids_build (doc : Document) : doc.build.ids = doc.refs := by
  unfold CodecSystem.ids build refs
  rw [Node.ids_toCodec, Node.toShape_eq, Codec.idsEntries_eq, Node.refsOfShape_eq]
  simp [Entries.mapValues, List.flatMap_map, Node.ids_toCodec]

/-! ## JSON values -/

namespace Json

/-- the values directly inside -/
def children : Json → List Json
  | .arr items => items
  | .obj fields => fields.map (·.2)
  | .null | .bool _ | .int _ | .float _ | .str _ => []

theorem sizeOf_child {v w : Json} (h : w ∈ v.children) : sizeOf w < sizeOf v := by
  cases v with
  | null | bool | int | float | str => simp [children] at h
  | arr items =>
    have hlt := List.sizeOf_lt_of_mem (show w ∈ items from h)
    simp only [arr.sizeOf_spec]
    omega
  | obj fields =>
    obtain ⟨e, he, rfl⟩ := List.mem_map.1 h
    have hlt := List.sizeOf_lt_of_mem he
    have hpair : sizeOf e = 1 + sizeOf e.1 + sizeOf e.2 := rfl
    simp only [obj.sizeOf_spec]
    omega

theorem induction {motive : Json → Prop} (step : ∀ v, (∀ w ∈ v.children, motive w) → motive v) (v : Json) : motive v :=
  step v fun w hw =>
    have := sizeOf_child hw
    induction step w
termination_by sizeOf v

end Json

end CodecCompiler
