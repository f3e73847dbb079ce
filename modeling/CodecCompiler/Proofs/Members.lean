/-
What an intersection of a document makes of its members where they are objects, references to objects, and unions of
objects.

- `Node.shapes` reads the fields that an object node declares; `Document.Member` says what the members are.
- `Fragment.Covers`: an object schema has the fields of some shapes, no others, and requires what they require.
- `covers_joined`: fragments of shapes are joined into a schema that covers all of them.
- `Node.forms_intersection`: without a union the merged schema covers the object nodes; with unions there is one
  alternative for each branch and each object node, and it covers these two.
- `Document.runs_walk`: every node of an accepted document compiles to its fragment, whatever was compiled before.
- `Document.intersection_covers`: so it is with what intersections compile to.
Witness of what is not kept:
- `Document.members_lost`: a reference adds nothing, and no alternative has the fields of two object nodes.
-/
import CodecCompiler.Proofs.Commutation
import CodecCompiler.Proofs.Dangling

namespace CodecCompiler

open Entries (names get?)
open Compile

/-! ## Object schemas -/

/-- the shape of an object node -/
def Node.shapes : Node → List (Entries Node)
  | .object _ shape => [shape]
  | _ => []

/-- is the node a union -/
def Node.isUnion : Node → Bool
  | .union _ _ => true
  | _ => false

namespace Fragment

variable {allow : Bool}

/-- an object schema has the fields of the shapes and no others, and requires what they require, in their order -/
def Covers (allow : Bool) (shapes : List (Entries Node)) (f : Fields) : Prop :=
  ∃ properties, f = object properties allow ((shapes.flatMap Node.requiredNames).map .str) ∧
    ∀ name, name ∈ names properties ↔ ∃ shape ∈ shapes, name ∈ names shape

/-- what a merge reads from a fragment are the fields of some shapes -/
structure Brings (shapes : List (Entries Node)) (f : Fields) : Prop where
  mergeable : Mergeable f
  properties : ∀ name, name ∈ names (propertiesOf f) ↔ ∃ shape ∈ shapes, name ∈ names shape
  required : requiredOf f = (shapes.flatMap Node.requiredNames).map .str

/-- the fragment brings the fields of one shape -/
def BringsOne (shape : Entries Node) (f : Fields) : Prop := Brings [shape] f

theorem brings_nothing {f : Fields} (h : Mergeable f) (hproperties : propertiesOf f = [])
    (hrequired : requiredOf f = []) : Brings [] f := ⟨h, by simp [hproperties], hrequired⟩

/-- **What is joined covers all that is brought.** -/
theorem covers_joined {shapes : List (List (Entries Node))} {fs : List Fields} (h : List.Forall₂ Brings shapes fs) :
    Covers allow shapes.flatten (joined allow fs) := by
  have hall : (∀ name, (∃ f ∈ fs, name ∈ names (propertiesOf f)) ↔ ∃ shape ∈ shapes.flatten, name ∈ names shape) ∧
      fs.flatMap requiredOf = (shapes.flatten.flatMap Node.requiredNames).map .str := by
    induction h with
    | nil => exact ⟨by simp, rfl⟩
    | cons hfirst _ ih =>
      refine ⟨fun name => ?_, ?_⟩
      · simp only [List.mem_cons, List.flatten_cons, List.mem_append, or_and_right, exists_or, exists_eq_left,
          hfirst.properties, ih.1 name]
      · rw [List.flatMap_cons, hfirst.required, ih.2, List.flatten_cons, List.flatMap_append, List.map_append]
  refine ⟨Entries.mergeAll (fs.map propertiesOf), ?_, fun name => ?_⟩
  · rw [joined, hall.2]
  · rw [Entries.mem_names_mergeAll, ← hall.1]
    simp

/-! ## Members -/

/-- the fragments of members, told apart as a merge does it: the unions expose the branches of the union nodes, and the
object schemas are those of the object nodes -/
structure Parted (members : List Node) (fs : List Fields) (unions : List (List Fields)) : Prop where
  brings : List.Forall₂ Brings (members.map Node.shapes) fs
  exposed : fs.filterMap alternatives? = unions.map exposed
  branches : List.Forall₂ BringsOne ((members.flatMap Node.branches).flatMap Node.shapes) unions.flatten
  objects : List.Forall₂ BringsOne (members.flatMap Node.shapes) (fs.filter isObject)

theorem Parted.nil : Parted [] [] [] := ⟨.nil, rfl, .nil, .nil⟩

theorem Parted.append {members members' : List Node} {fs fs' : List Fields} {unions unions' : List (List Fields)}
    (h : Parted members fs unions) (h' : Parted members' fs' unions') :
    Parted (members ++ members') (fs ++ fs') (unions ++ unions') := by
  refine ⟨?_, ?_, ?_, ?_⟩
  · rw [List.map_append]
    exact List.rel_append h.brings h'.brings
  · rw [List.filterMap_append, h.exposed, h'.exposed, List.map_append]
  · rw [List.flatMap_append, List.flatMap_append, List.flatten_append]
    exact List.rel_append h.branches h'.branches
  · rw [List.flatMap_append, List.filter_append]
    exact List.rel_append h.objects h'.objects

/-- every pair of a branch and an object schema is joined into one that covers both -/
theorem Parted.covers_pairs {members : List Node} {fs : List Fields} {unions : List (List Fields)}
    (h : Parted members fs unions) :
    List.Forall₂ (Covers allow)
      (((members.flatMap Node.branches).flatMap Node.shapes).flatMap fun b =>
        (members.flatMap Node.shapes).map fun o => [o, b])
      (pairs allow unions (fs.filter isObject)) := by
  rw [pairs_eq]
  refine List.rel_flatMap h.branches fun b b' hb => List.rel_map (fun o o' ho => ?_) h.objects
  exact covers_joined (.cons ho (.cons hb .nil))

end Fragment

namespace Document

open Fragment

/-- a node stands for an object with the fields of a shape: itself, or what it refers to -/
inductive Stands (doc : Document) : Node → Entries Node → Prop
  | object (notes : Notes) (shape : Entries Node) : Stands doc (.object notes shape) shape
  | ref (notes : Notes) {id : Text} {target : Notes} {shape : Entries Node} :
    get? doc.definitions id = some (.object target shape) → Stands doc (.ref notes id) shape

/-- what an intersection has as a member here: an object, a reference to one, or a union of objects -/
inductive Member (doc : Document) : Node → Prop
  | single {m : Node} {shape : Entries Node} : doc.Stands m shape → Member doc m
  | union (notes : Notes) {branches : List Node} :
    (∀ b ∈ branches, ∃ notes shape, b = .object notes shape) → Member doc (.union notes branches)

end Document

namespace Node

open Fragment

variable {allow : Bool} {f : Fields}

/-- the fragment of an object node brings its fields -/
theorem brings_object {notes : Notes} {shape : Entries Node} (h : (object notes shape).fragment allow = .ok f) :
    BringsOne shape f ∧ isObject f = true ∧ alternatives? f = none := by
  have hmergeable := (fragment_shaped h).mergeable
  obtain ⟨properties, hproperties, h⟩ := bind_eq_ok_iff.1 h
  cases pure_eq_ok_iff.1 h
  obtain ⟨gs, hgs, rfl⟩ := fragmentsOfShape_eq_ok.1 hproperties
  have hlength : (names shape).length = gs.length := by
    rw [← (fragmentsOfList_eq_ok.1 hgs).length_eq, names, List.length_map, List.length_map]
  refine ⟨⟨hmergeable, fun name => ?_, ?_⟩, ?_, ?_⟩
  · have hread : propertiesOf (objectFragment ((names shape).zip gs) allow (requiredNames shape)) =
        Entries.mapValues .obj ((names shape).zip gs) := rfl
    rw [propertiesOf_noted, hread, Entries.names_mapValues, Entries.names_zip hlength]
    simp
  · have hread : requiredOf (objectFragment ((names shape).zip gs) allow (requiredNames shape)) =
        (requiredNames shape).map .str := rfl
    rw [requiredOf_noted, hread, List.flatMap_singleton]
  · rw [isObject_noted]
    rfl
  · rw [alternatives?_noted]
    rfl

theorem brings_ref {notes : Notes} {id : Text} (h : (ref notes id).fragment allow = .ok f) :
    Brings [] f ∧ isObject f = false ∧ alternatives? f = none := by
  have hmergeable := (fragment_shaped h).mergeable
  cases pure_eq_ok_iff.1 h
  refine ⟨brings_nothing hmergeable ?_ ?_, ?_, ?_⟩
  · rw [propertiesOf_noted]
    rfl
  · rw [requiredOf_noted]
    rfl
  · rw [isObject_noted]
    rfl
  · rw [alternatives?_noted]
    rfl

theorem brings_union {notes : Notes} {branches : List Node} (h : (union notes branches).fragment allow = .ok f) :
    Brings [] f ∧ isObject f = false ∧ ∃ gs, fragmentsOfList allow branches = .ok gs ∧
      alternatives? f = some (exposed gs) := by
  have hmergeable := (fragment_shaped h).mergeable
  obtain ⟨gs, hgs, h⟩ := bind_eq_ok_iff.1 h
  cases pure_eq_ok_iff.1 h
  refine ⟨brings_nothing hmergeable ?_ ?_, ?_, gs, hgs, ?_⟩
  · rw [propertiesOf_noted]
    rfl
  · rw [requiredOf_noted]
    rfl
  · rw [isObject_noted]
    rfl
  · rw [alternatives?_noted]
    rfl

/-- the branches of a union of objects bring their fields -/
theorem brings_branches {branches : List Node} (hobjects : ∀ b ∈ branches, ∃ notes shape, b = .object notes shape)
    {gs : List Fields} (h : fragmentsOfList allow branches = .ok gs) :
    List.Forall₂ BringsOne (branches.flatMap shapes) gs := by
  have hall := fragmentsOfList_eq_ok.1 h
  clear h
  induction hall with
  | nil => exact .nil
  | cons hfirst _ ih =>
    obtain ⟨notes, shape, rfl⟩ := hobjects _ List.mem_cons_self
    exact .cons (brings_object hfirst).1 (ih fun b hb => hobjects b (List.mem_cons_of_mem _ hb))

end Node

namespace Fragment

variable {allow : Bool} {doc : Document}

/-- a member is told apart: only a union exposes branches -/
theorem parted_member {m : Node} (hm : doc.Member m) {f : Fields} (h : m.fragment allow = .ok f) :
    ∃ unions, Parted [m] [f] unions ∧ (unions = [] ↔ m.isUnion = false) := by
  cases hm with
  | single hstands =>
    cases hstands with
    | object notes shape =>
      obtain ⟨hbrings, hobject, hnone⟩ := Node.brings_object h
      refine ⟨[], ⟨.cons hbrings .nil, ?_, .nil, ?_⟩, by simp [Node.isUnion]⟩
      · rw [List.filterMap_cons, hnone]
        rfl
      · rw [List.filter_cons_of_pos hobject]
        exact .cons hbrings .nil
    | ref notes _ =>
      obtain ⟨hbrings, hobject, hnone⟩ := Node.brings_ref h
      refine ⟨[], ⟨.cons hbrings .nil, ?_, .nil, ?_⟩, by simp [Node.isUnion]⟩
      · rw [List.filterMap_cons, hnone]
        rfl
      · rw [List.filter_cons_of_neg (by simp [hobject])]
        exact .nil
  | union notes hobjects =>
    obtain ⟨hbrings, hobject, gs, hgs, hsome⟩ := Node.brings_union h
    refine ⟨[gs], ⟨.cons hbrings .nil, ?_, ?_, ?_⟩, by simp [Node.isUnion]⟩
    · rw [List.filterMap_cons, hsome]
      rfl
    · simpa [Node.branches] using Node.brings_branches hobjects hgs
    · rw [List.filter_cons_of_neg (by simp [hobject])]
      exact .nil

theorem parted_members {members : List Node} (hmembers : ∀ m ∈ members, doc.Member m) {fs : List Fields}
    (h : List.Forall₂ (fun m f => m.fragment allow = .ok f) members fs) :
    ∃ unions, Parted members fs unions ∧ (unions = [] ↔ ∀ m ∈ members, m.isUnion = false) := by
  induction h with
  | nil => exact ⟨[], .nil, by simp⟩
  | cons hfirst _ ih =>
    obtain ⟨unions, hparted, hnone⟩ := parted_member (hmembers _ List.mem_cons_self) hfirst
    obtain ⟨unions', hparted', hnone'⟩ := ih fun m hm => hmembers m (List.mem_cons_of_mem _ hm)
    refine ⟨unions ++ unions', hparted.append hparted', ?_⟩
    rw [List.append_eq_nil_iff, hnone, hnone', List.forall_mem_cons]

/-- what an intersection of members is: an object schema that covers the object nodes, where no member is a union; else
one alternative for each branch of the unions and each object node, which covers these two -/
structure Forms (allow : Bool) (notes : Notes) (members : List Node) (f : Fields) : Prop where
  merged : (∀ m ∈ members, m.isUnion = false) →
    ∃ g, f = noted notes.description g ∧ Covers allow (members.flatMap Node.shapes) g
  spread : (∃ m ∈ members, m.isUnion = true) →
    ∃ alternatives, f = noted notes.description [("anyOf", exposed alternatives)] ∧
      List.Forall₂ (Covers allow)
        (((members.flatMap Node.branches).flatMap Node.shapes).flatMap fun b =>
          (members.flatMap Node.shapes).map fun o => [o, b]) alternatives

/-- **An intersection of members** has the fields of its object nodes, all together or pair by pair. -/
theorem forms_intersection {notes : Notes} {members : List Node} (hmembers : ∀ m ∈ members, doc.Member m) {f : Fields}
    (h : (Node.intersection notes members).fragment allow = .ok f) : Forms allow notes members f := by
  obtain ⟨fs, hfs, h⟩ := bind_eq_ok_iff.1 h
  obtain ⟨g, hg, h⟩ := bind_eq_ok_iff.1 h
  cases pure_eq_ok_iff.1 h
  have hall := Node.fragmentsOfList_eq_ok.1 hfs
  obtain ⟨unions, hparted, hnone⟩ := parted_members hmembers hall
  have hmergeable : ∀ f ∈ fs, Mergeable f := by
    intro f hf
    obtain ⟨shapes, -, hbrings⟩ := forall₂_mem_right hparted.brings f hf
    exact hbrings.mergeable
  have hbranches : ∀ branches ∈ unions, ∀ b ∈ branches, Mergeable b := by
    intro branches hmem b hb
    obtain ⟨shape, -, hbrings⟩ := forall₂_mem_right hparted.branches b (List.mem_flatten.2 ⟨branches, hmem, hb⟩)
    exact hbrings.mergeable
  have hmerged : intersect fs allow = .ok (mergedWith allow unions fs) :=
    intersect_mergedWith hmergeable hparted.exposed hbranches
  cases hmerged.symm.trans hg
  refine ⟨fun hmembers' => ?_, fun hsome => ?_⟩
  · rw [mergedWith, if_pos (hnone.2 hmembers')]
    exact ⟨_, rfl, covers_joined hparted.brings⟩
  · have hunions : unions ≠ [] := by
      obtain ⟨m, hm, htrue⟩ := hsome
      exact fun hnil => absurd (hnone.1 hnil m hm) (by simp [htrue])
    rw [mergedWith, if_neg hunions]
    exact ⟨_, rfl, hparted.covers_pairs⟩

end Fragment

/-! ## Nodes of accepted documents -/

theorem Node.all_walk {P : Codec → Prop} {m n : Node} (hn : n ∈ m.walk) (h : m.toCodec.All P) : n.toCodec.All P := by
  induction m using Node.induction with
  | step m ih =>
    rw [Node.walk_eq, List.mem_cons] at hn
    rcases hn with rfl | hn
    · exact h
    · obtain ⟨c, hc, hn⟩ := List.mem_flatMap.1 hn
      refine ih c hc hn (h.child ?_)
      rw [Node.children_toCodec]
      exact List.mem_map_of_mem hc

namespace Document

open Fragment

variable {doc : Document} {options : Options}

theorem mem_walk_iff {n : Node} : n ∈ doc.walk ↔ ∃ part ∈ doc.parts, n ∈ part.walk := by
  simp only [walk, parts, Node.walkShape_eq, List.mem_append, List.mem_flatMap, List.mem_cons, exists_eq_or_imp]

/-- **Every node of a closed document compiles to its fragment**, whatever was compiled before. -/
theorem runs_walk (closed : doc.Closed) (hplain : options.handlers = []) {n : Node} (hn : n ∈ doc.walk) :
    ∃ f, n.fragment options.allowAdditional = .ok f ∧
      (∀ depth, doc.definitions.length < depth → ∀ p, ∃ p',
        Runs (fragmentAt (options.context doc.build.bodies) depth n.toCodec) p f p') ∧
      ∀ depth p g p', Runs (fragmentAt (options.context doc.build.bodies) depth n.toCodec) p g p' → g = f := by
  have hb := Options.registry_context hplain doc.build.bodies
  obtain ⟨f, hf⟩ := n.exists_fragment options.allowAdditional
  have htranslate : n.toCodec.translate options.allowAdditional = .ok f := by
    rw [Node.translate_toCodec, hf]
    rfl
  obtain ⟨part, hpart, hn⟩ := mem_walk_iff.1 hn
  have hentered : n.toCodec.All (Codec.Entered (options.context doc.build.bodies) (names doc.definitions)) :=
    Node.all_walk hn (entered_part closed closed hpart)
  refine ⟨f, hf, fun depth hdepth p => ?_, fun depth p g p' hg => ?_⟩
  · have hunseen : unseen (names doc.definitions) (names p.definitions) < depth := by
      refine (unseen_le_length _ _).trans_lt ?_
      rwa [names, List.length_map]
    exact fragmentAt_runs hb (complete closed closed) n.toCodec hentered p f hunseen htranslate
  · exact Except.ok.inj ((fragmentAt_sound hb hg).fragment.symm.trans htranslate)

/-- **What an intersection covers.** In an accepted document let the members of an intersection be objects, references
to objects, and unions of objects. It compiles, whatever was compiled before, and always to the same fragment. Without
a union among the members this is one object schema with the fields of all object nodes among them; otherwise it has
one alternative for each branch of the unions and each object node, with the fields of these two. Nothing else is among
the properties and the required names: references add nothing. -/
theorem intersection_covers {data : Data} (accepted : ofData data = .ok doc) (hplain : options.handlers = [])
    {notes : Notes} {members : List Node} (hn : .intersection notes members ∈ doc.walk)
    (hmembers : ∀ m ∈ members, doc.Member m) :
    ∃ f, (∀ depth, doc.definitions.length < depth → ∀ p, ∃ p',
        Runs (fragmentAt (options.context doc.build.bodies) depth (Node.intersection notes members).toCodec) p f p') ∧
      (∀ depth p g p',
        Runs (fragmentAt (options.context doc.build.bodies) depth (Node.intersection notes members).toCodec) p g p' →
          g = f) ∧
      Forms options.allowAdditional notes members f := by
  obtain ⟨f, hf, hruns, hunique⟩ := runs_walk (closed_of_ofData accepted) hplain hn
  exact ⟨f, hruns, hunique, forms_intersection hmembers hf⟩

/-! ### Runs -/

/-- an object with one field of any value -/
def single (name : String) : Node := .object {} [(name, .leaf {} .any)]

/-- an object and a reference to another one -/
def referred : List Node := [single "a", .ref {} "B"]

/-- two objects with a union between them -/
def crossed : List Node := [single "l", .union {} [single "a", single "b"], single "r"]

/-- a document with intersections of these -/
def crossing : Document where
  codec := .tuple {} [.intersection {} referred, .intersection ⟨some "crossed", false⟩ crossed]
  definitions := [("B", single "b")]

theorem member_crossed : ∀ m ∈ crossed, crossing.Member m := by
  refine List.forall_mem_cons.2 ⟨.single (.object _ _), List.forall_mem_cons.2 ⟨.union _ ?_, ?_⟩⟩
  · exact List.forall_mem_cons.2 ⟨⟨_, _, rfl⟩, List.forall_mem_singleton.2 ⟨_, _, rfl⟩⟩
  · exact List.forall_mem_singleton.2 (.single (.object _ _))

theorem crossed_covers :
    ofData (Data.ofJson crossing.toJson) = .ok crossing ∧
    ∃ f, (∀ depth, 1 < depth → ∀ p, ∃ p', Runs (fragmentAt (({} : Options).context crossing.build.bodies) depth
        (Node.intersection ⟨some "crossed", false⟩ crossed).toCodec) p f p') ∧
      Forms false ⟨some "crossed", false⟩ crossed f := by
  have accepted : ofData (Data.ofJson crossing.toJson) = .ok crossing := rfl
  have hn : .intersection ⟨some "crossed", false⟩ crossed ∈ crossing.walk := by
    simp [walk, crossing, Node.walk, Node.walkList]
  obtain ⟨f, hruns, -, hforms⟩ :=
    intersection_covers accepted (show ({} : Options).handlers = [] from rfl) hn member_crossed
  exact ⟨accepted, f, hruns, hforms⟩

/-- no member is lost: the fields of every object, direct or referred to, are among the properties, and where there are
unions among the properties of every alternative, which requires what the members require -/
structure KeepsMembers (doc : Document) (members : List Node) (f : Fields) : Prop where
  merged : (∀ m ∈ members, m.isUnion = false) → ∃ properties, get? f "properties" = some (.obj properties) ∧
    ∀ m ∈ members, ∀ shape, doc.Stands m shape → ∀ name ∈ names shape, name ∈ names properties
  spread : (∃ m ∈ members, m.isUnion = true) → ∃ alternatives, get? f "anyOf" = some (exposed alternatives) ∧
    ∀ g ∈ alternatives, ∃ properties required, get? g "properties" = some (.obj properties) ∧
      get? g "required" = some (.arr required) ∧ ∀ m ∈ members, ∀ shape, doc.Stands m shape →
        (∀ name ∈ names shape, name ∈ names properties) ∧ ∀ name ∈ Node.requiredNames shape, .str name ∈ required

/-- **Members are lost.** The object that is referred to adds no field to the merged schema, and of two objects each
alternative has the fields of one. -/
theorem members_lost :
    ofData (Data.ofJson crossing.toJson) = .ok crossing ∧
    (∃ f p', Runs (fragmentAt (({} : Options).context crossing.build.bodies) 2
        (Node.intersection {} referred).toCodec) {} f p' ∧ ¬ crossing.KeepsMembers referred f) ∧
    (∃ f p', Runs (fragmentAt (({} : Options).context crossing.build.bodies) 2
        (Node.intersection ⟨some "crossed", false⟩ crossed).toCodec) {} f p' ∧ ¬ crossing.KeepsMembers crossed f) ∧
    ¬ ∀ doc data, ofData data = .ok doc → ∀ notes members, .intersection notes members ∈ doc.walk →
      (∀ m ∈ members, doc.Member m) → (∃ m ∈ members, ∃ shape, doc.Stands m shape) → ∀ depth p f p',
      Runs (fragmentAt (({} : Options).context doc.build.bodies) depth (Node.intersection notes members).toCodec)
        p f p' → doc.KeepsMembers members f := by
  have accepted : ofData (Data.ofJson crossing.toJson) = .ok crossing := rfl
  have hreferred : ∃ f p', Runs (fragmentAt (({} : Options).context crossing.build.bodies) 2
      (Node.intersection {} referred).toCodec) {} f p' ∧ ¬ crossing.KeepsMembers referred f := by
    have hrun : Runs (fragmentAt (({} : Options).context crossing.build.bodies) 2
      (Node.intersection {} referred).toCodec) {} (object [("a", .obj [])] false [.str "a"])
      ⟨[("B", .obj (object [("b", .obj [])] false [.str "b"]))], ["B"]⟩ := rfl
    refine ⟨_, _, hrun, fun h => ?_⟩
    obtain ⟨properties, hproperties, hall⟩ := h.merged (by simp [referred, single, Node.isUnion])
    cases hproperties
    have hname := hall (.ref {} "B") (by simp [referred]) _ (.ref _ rfl) "b" (by simp)
    simp at hname
  have hcrossed : ∃ f p', Runs (fragmentAt (({} : Options).context crossing.build.bodies) 2
      (Node.intersection ⟨some "crossed", false⟩ crossed).toCodec) {} f p' ∧ ¬ crossing.KeepsMembers crossed f := by
    have hrun : Runs (fragmentAt (({} : Options).context crossing.build.bodies) 2
      (Node.intersection ⟨some "crossed", false⟩ crossed).toCodec) {}
      (noted (some "crossed") [("anyOf", exposed
        [object [("l", .obj []), ("a", .obj [])] false [.str "l", .str "a"],
          object [("r", .obj []), ("a", .obj [])] false [.str "r", .str "a"],
          object [("l", .obj []), ("b", .obj [])] false [.str "l", .str "b"],
          object [("r", .obj []), ("b", .obj [])] false [.str "r", .str "b"]])]) {} := rfl
    refine ⟨_, _, hrun, fun h => ?_⟩
    obtain ⟨alternatives, hexposed, hall⟩ := h.spread ⟨.union {} [single "a", single "b"], by simp [crossed], rfl⟩
    have hfirst : Json.obj (object [("l", .obj []), ("a", .obj [])] false [.str "l", .str "a"]) ∈
        alternatives.map .obj := by
      rw [← Json.arr.inj (Option.some.inj hexposed)]
      exact List.mem_cons_self
    obtain ⟨g, hg, hfirst⟩ := List.mem_map.1 hfirst
    cases Json.obj.inj hfirst
    obtain ⟨properties, required, hproperties, -, hevery⟩ := hall _ hg
    cases hproperties
    have hname := (hevery (single "r") (by simp [crossed]) _ (.object _ _)).1 "r" (by simp)
    simp at hname
  refine ⟨accepted, hreferred, hcrossed, fun h => ?_⟩
  obtain ⟨f, p', hrun, hlost⟩ := hcrossed
  refine hlost (h crossing _ accepted ⟨some "crossed", false⟩ crossed ?_ member_crossed ?_ 2 {} f p' hrun)
  · simp [walk, crossing, Node.walk, Node.walkList]
  · exact ⟨single "l", List.mem_cons_self, _, .object _ _⟩

end Document

end CodecCompiler
