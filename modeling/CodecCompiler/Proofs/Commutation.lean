/-
Compiling turns inlining into expansion: whether the definitions are put in the place of references before a document is
compiled or afterwards makes no difference to the top fragment.

- `Node.RefsApart`: no reference is merged in an intersection; such a reference has no properties to merge, while its
  definition may have.
- `Node.fragment_inlineWith`: the fragment of an inlined node is the expanded fragment of the node.
- `Document.fragment_inlineAt`: so it is with definitions in the place of references, at every depth.
- `Document.expansion_of_schema`: so the schema of an acyclic document expands to the schema of the inlined document.
-/
import CodecCompiler.Proofs.Expansion
import CodecCompiler.Proofs.Inlining

namespace CodecCompiler

open Entries (names get?)

/-! ## Nodes -/

namespace Node

open Json (expand expandFields expandField)
open Fragment (Plain Mergeable noted)

/-- is the node a reference -/
def isRef : Node → Bool
  | .ref _ _ => true
  | _ => false

/-- the branches of a union -/
def branches : Node → List Node
  | .union _ ns => ns
  | _ => []

/-- the nodes whose fragments an intersection merges: its members, and the branches of the unions among them -/
def merged : Node → List Node
  | .intersection _ ns => ns ++ ns.flatMap branches
  | _ => []

/-- no reference is merged in an intersection, at any depth -/
inductive RefsApart : Node → Prop
  | intro {n : Node} : (∀ m ∈ n.merged, m.isRef = false) → (∀ c ∈ n.children, RefsApart c) → RefsApart n

variable {allow : Bool}

theorem fragment_no_reference {n : Node} {f : Fields} (hn : n.isRef = false) (h : n.fragment allow = .ok f) :
    get? f "$ref" = none := by
  cases n with
  | ref notes id => exact nomatch hn
  | leaf notes q =>
    cases q <;>
    · cases pure_eq_ok_iff.1 h
      rw [Fragment.get?_noted (by simp)]
      rfl
  | literal notes value | enum notes values =>
    cases pure_eq_ok_iff.1 h
    rw [Fragment.get?_noted (by simp)]
    rfl
  | object notes shape | record notes values | array notes items | tuple notes items | union notes members =>
    obtain ⟨below, -, h⟩ := bind_eq_ok_iff.1 h
    cases pure_eq_ok_iff.1 h
    rw [Fragment.get?_noted (by simp)]
    rfl
  | intersection notes members =>
    obtain ⟨fs, -, h⟩ := bind_eq_ok_iff.1 h
    obtain ⟨g, hg, h⟩ := bind_eq_ok_iff.1 h
    cases pure_eq_ok_iff.1 h
    rw [Fragment.get?_noted (by simp)]
    exact Fragment.intersect_no_reference hg

theorem fragment_plain {n : Node} {f : Fields} (hapart : n.RefsApart) (hn : n.isRef = false)
    (hbranches : ∀ b ∈ n.branches, b.isRef = false) (h : n.fragment allow = .ok f) : Plain f := by
  induction hapart generalizing f with
  | @intro n hmerged _ ih =>
    cases n with
    | ref notes id => exact nomatch hn
    | leaf notes q =>
      cases q <;>
      · cases pure_eq_ok_iff.1 h
        exact Fragment.plain_of_single ⟨rfl, rfl⟩ rfl rfl _
    | literal notes value | enum notes values =>
      cases pure_eq_ok_iff.1 h
      exact Fragment.plain_of_single ⟨rfl, rfl⟩ rfl rfl _
    | object notes shape | record notes values | array notes items | tuple notes items =>
      obtain ⟨below, -, h⟩ := bind_eq_ok_iff.1 h
      cases pure_eq_ok_iff.1 h
      exact Fragment.plain_of_single ⟨rfl, rfl⟩ rfl rfl _
    | union notes members =>
      obtain ⟨fs, hfs, h⟩ := bind_eq_ok_iff.1 h
      cases pure_eq_ok_iff.1 h
      refine Fragment.plain_anyOf (fun g hg => ?_) _
      obtain ⟨c, hc, hcg⟩ := forall₂_mem_right (fragmentsOfList_eq_ok.1 hfs) g hg
      exact ⟨(fragment_shaped hcg).mergeable, fragment_no_reference (hbranches c hc) hcg⟩
    | intersection notes members =>
      obtain ⟨fs, hfs, h⟩ := bind_eq_ok_iff.1 h
      obtain ⟨g, hg, h⟩ := bind_eq_ok_iff.1 h
      cases pure_eq_ok_iff.1 h
      refine Fragment.intersect_plain (fun e he => ?_) hg _
      obtain ⟨c, hc, hce⟩ := forall₂_mem_right (fragmentsOfList_eq_ok.1 hfs) e he
      refine ih c hc (hmerged c (List.mem_append_left _ hc)) (fun b hb => ?_) hce
      exact hmerged b (List.mem_append_right _ (List.mem_flatMap.2 ⟨c, hc, hb⟩))

/-! ## Inlining and expansion -/

section

variable {enter : Text → Option Node} {place : Json → Option Json}

/-- the inlined node has the expanded fragment -/
def Commutes (allow : Bool) (enter : Text → Option Node) (place : Json → Option Json) (n : Node) : Prop :=
  ∀ f, n.fragment allow = .ok f → ∃ g, (n.inlineWith enter).fragment allow = .ok g ∧ expand place (.obj f) = .obj g

theorem fragmentsOfList_inline {ns : List Node} (h : ∀ n ∈ ns, Commutes allow enter place n) {fs : List Fields}
    (hfs : fragmentsOfList allow ns = .ok fs) :
    ∃ gs, fragmentsOfList allow (ns.map (inlineWith enter)) = .ok gs ∧
      fs.map (fun f => expand place (.obj f)) = gs.map .obj := by
  induction ns generalizing fs with
  | nil =>
    cases pure_eq_ok_iff.1 hfs
    exact ⟨[], rfl, rfl⟩
  | cons n ns ih =>
    obtain ⟨f, hf, hfs⟩ := bind_eq_ok_iff.1 hfs
    obtain ⟨rest, hrest, hfs⟩ := bind_eq_ok_iff.1 hfs
    cases pure_eq_ok_iff.1 hfs
    obtain ⟨g, hg, hfg⟩ := h n List.mem_cons_self f hf
    obtain ⟨gs, hgs, heq⟩ := ih (fun m hm => h m (List.mem_cons_of_mem n hm)) hrest
    refine ⟨g :: gs, bind_eq_ok_iff.2 ⟨g, hg, bind_eq_ok_iff.2 ⟨gs, hgs, rfl⟩⟩, ?_⟩
    rw [List.map_cons, List.map_cons, hfg, heq]

theorem fragmentsOfShape_inline {shape : List (Text × Node)}
    (h : ∀ n ∈ shape.map (·.2), Commutes allow enter place n) {fs : Entries Fields}
    (hfs : fragmentsOfShape allow shape = .ok fs) :
    ∃ gs, fragmentsOfShape allow (inlineShape enter shape) = .ok gs ∧
      Entries.mapValues (fun f => expand place (.obj f)) fs = Entries.mapValues .obj gs := by
  obtain ⟨fs, hlist, rfl⟩ := fragmentsOfShape_eq_ok.1 hfs
  obtain ⟨gs, hgs, heq⟩ := fragmentsOfList_inline h hlist
  have hvalues : (inlineShape enter shape).map (·.2) = (shape.map (·.2)).map (inlineWith enter) := by
    rw [inlineShape_eq, Entries.mapValues, List.map_map, List.map_map]
    rfl
  refine ⟨(names shape).zip gs, fragmentsOfShape_eq_ok.2 ⟨gs, ?_, ?_⟩, ?_⟩
  · rw [hvalues, hgs]
  · rw [inlineShape_eq, Entries.names_mapValues]
  · rw [Entries.mapValues_zip, Entries.mapValues_zip, heq]

theorem requiredNames_inlineShape (shape : List (Text × Node)) :
    requiredNames (inlineShape enter shape) = requiredNames shape := by
  rw [inlineShape_eq]
  unfold requiredNames Entries.mapValues
  rw [List.filter_map]
  simp [Function.comp_def, Entries.names]

theorem expandFields_objectFragment {fs gs : Entries Fields} {required : List Text}
    (h : Entries.mapValues (fun f => expand place (.obj f)) fs = Entries.mapValues .obj gs) :
    expandFields place (objectFragment fs allow required) = objectFragment gs allow required := by
  rw [objectFragment, objectFragment, Fragment.expandFields_object, ← h, Entries.mapValues, Entries.mapValues,
    Entries.mapValues, List.map_map]
  rfl

theorem expandFields_recordFragment {f g : Fields} (h : expand place (.obj f) = .obj g) :
    expandFields place (recordFragment f) = recordFragment g := by
  rw [recordFragment, recordFragment, ← h]
  rfl

theorem expandFields_arrayFragment {f g : Fields} (h : expand place (.obj f) = .obj g) :
    expandFields place (arrayFragment f) = arrayFragment g := by
  rw [arrayFragment, arrayFragment, ← h]
  rfl

theorem expand_schemas {fs gs : List Fields} (h : fs.map (fun f => expand place (.obj f)) = gs.map .obj) :
    expand place (.arr (fs.map .obj)) = .arr (gs.map .obj) := by
  rw [expand, Json.expandList_eq, List.map_map, ← h]
  rfl

theorem expandFields_tupleFragment {fs gs : List Fields} (h : fs.map (fun f => expand place (.obj f)) = gs.map .obj) :
    expandFields place (tupleFragment fs) = tupleFragment gs := by
  have hlength : fs.length = gs.length := by simpa using congrArg List.length h
  rw [tupleFragment, tupleFragment, ← expand_schemas h, hlength]
  rfl

theorem expandFields_anyOf {fs gs : List Fields} (h : fs.map (fun f => expand place (.obj f)) = gs.map .obj) :
    expandFields place [("anyOf", .arr (fs.map .obj))] = ([("anyOf", .arr (gs.map .obj))] : Fields) := by
  rw [← expand_schemas h]
  rfl

/-- a node that is no reference commutes when its inlined fragment is the fragment expanded field by field -/
theorem Commutes.of_fields {n : Node} (hn : n.isRef = false)
    (h : ∀ f, n.fragment allow = .ok f → (n.inlineWith enter).fragment allow = .ok (expandFields place f)) :
    Commutes allow enter place n := by
  intro f hf
  exact ⟨_, h f hf, Json.expand_of_no_reference (fragment_no_reference hn hf)⟩

/-- **Compiling turns inlining into expansion**: where what takes the place of each reference compiles to what takes
its place in schemas, the fragment of the inlined node is the expanded fragment of the node. -/
theorem fragment_inlineWith {n : Node} (hapart : n.RefsApart)
    (hplace : ∀ id ∈ n.refs, ∃ d f, enter id = some d ∧ d.fragment allow = .ok f ∧ place (target id) = some (.obj f)) :
    Commutes allow enter place n := by
  induction hapart with
  | @intro n hmerged hbelow ih =>
    have hchildren : ∀ c ∈ n.children, Commutes allow enter place c := by
      intro c hc
      refine ih c hc fun id hid => hplace id ?_
      rw [refs_eq n]
      exact List.mem_append_right _ (List.mem_flatMap.2 ⟨c, hc, hid⟩)
    cases n with
    | leaf notes q =>
      refine .of_fields rfl fun f hf => ?_
      cases q <;>
      · cases pure_eq_ok_iff.1 hf
        rw [Fragment.expandFields_noted]
        rfl
    | literal notes value | enum notes values =>
      refine .of_fields rfl fun f hf => ?_
      cases pure_eq_ok_iff.1 hf
      rw [Fragment.expandFields_noted]
      rfl
    | object notes shape =>
      refine .of_fields rfl fun f hf => ?_
      obtain ⟨fs, hfs, hf⟩ := bind_eq_ok_iff.1 hf
      cases pure_eq_ok_iff.1 hf
      obtain ⟨gs, hgs, heq⟩ := fragmentsOfShape_inline hchildren hfs
      refine bind_eq_ok_iff.2 ⟨gs, hgs, pure_eq_ok_iff.2 ?_⟩
      rw [Fragment.expandFields_noted, expandFields_objectFragment heq, requiredNames_inlineShape]
    | record notes values =>
      refine .of_fields rfl fun f hf => ?_
      obtain ⟨v, hv, hf⟩ := bind_eq_ok_iff.1 hf
      cases pure_eq_ok_iff.1 hf
      obtain ⟨g, hg, heq⟩ := hchildren values List.mem_cons_self v hv
      refine bind_eq_ok_iff.2 ⟨g, hg, pure_eq_ok_iff.2 ?_⟩
      rw [Fragment.expandFields_noted, expandFields_recordFragment heq]
    | array notes items =>
      refine .of_fields rfl fun f hf => ?_
      obtain ⟨v, hv, hf⟩ := bind_eq_ok_iff.1 hf
      cases pure_eq_ok_iff.1 hf
      obtain ⟨g, hg, heq⟩ := hchildren items List.mem_cons_self v hv
      refine bind_eq_ok_iff.2 ⟨g, hg, pure_eq_ok_iff.2 ?_⟩
      rw [Fragment.expandFields_noted, expandFields_arrayFragment heq]
    | tuple notes items =>
      refine .of_fields rfl fun f hf => ?_
      obtain ⟨fs, hfs, hf⟩ := bind_eq_ok_iff.1 hf
      cases pure_eq_ok_iff.1 hf
      obtain ⟨gs, hgs, heq⟩ := fragmentsOfList_inline hchildren hfs
      rw [← inlineList_eq] at hgs
      refine bind_eq_ok_iff.2 ⟨gs, hgs, pure_eq_ok_iff.2 ?_⟩
      rw [Fragment.expandFields_noted, expandFields_tupleFragment heq]
    | union notes members =>
      refine .of_fields rfl fun f hf => ?_
      obtain ⟨fs, hfs, hf⟩ := bind_eq_ok_iff.1 hf
      cases pure_eq_ok_iff.1 hf
      obtain ⟨gs, hgs, heq⟩ := fragmentsOfList_inline hchildren hfs
      rw [← inlineList_eq] at hgs
      refine bind_eq_ok_iff.2 ⟨gs, hgs, pure_eq_ok_iff.2 ?_⟩
      rw [Fragment.expandFields_noted, expandFields_anyOf heq]
    | intersection notes members =>
      refine .of_fields rfl fun f hf => ?_
      obtain ⟨fs, hfs, hf⟩ := bind_eq_ok_iff.1 hf
      obtain ⟨g, hg, hf⟩ := bind_eq_ok_iff.1 hf
      cases pure_eq_ok_iff.1 hf
      obtain ⟨gs, hgs, heq⟩ := fragmentsOfList_inline hchildren hfs
      rw [← inlineList_eq] at hgs
      have hplain : ∀ e ∈ fs, Plain e := by
        intro e he
        obtain ⟨c, hc, hce⟩ := forall₂_mem_right (fragmentsOfList_eq_ok.1 hfs) e he
        refine fragment_plain (hbelow c hc) (hmerged c (List.mem_append_left _ hc)) (fun b hb => ?_) hce
        exact hmerged b (List.mem_append_right _ (List.mem_flatMap.2 ⟨c, hc, hb⟩))
      have hfields : gs = fs.map (expandFields place) := by
        refine (List.map_injective_iff.2 (fun _ _ => Json.obj.inj)) ?_
        rw [← heq, List.map_map]
        exact List.map_congr_left fun e he => Json.expand_of_no_reference (hplain e he).here
      refine bind_eq_ok_iff.2 ⟨gs, hgs, bind_eq_ok_iff.2 ⟨expandFields place g, ?_, pure_eq_ok_iff.2 ?_⟩⟩
      · rw [hfields]
        exact Fragment.intersect_expandFields hplain hg
      · rw [Fragment.expandFields_noted]
    | ref notes id =>
      intro f hf
      cases pure_eq_ok_iff.1 hf
      obtain ⟨d, g, hd, hg, hplace⟩ := hplace id List.mem_cons_self
      have hreference : get? (noted notes.description (reference id)) "$ref" = some (target id) := by
        rw [Fragment.get?_noted (by simp)]
        rfl
      refine ⟨g, ?_, Json.expand_reference hreference hplace⟩
      rw [inlineWith, hd, fragment_withOptional, hg]

end

end Node

namespace Document

/-! ## Documents -/

open Json (definition? expandAt)

variable {doc : Document} {options : Options} {allow : Bool} {definitions : Fields}

/-- **Inlining and expansion agree at every depth.** -/
theorem fragment_inlineAt (hcompiled : doc.Compiled allow definitions) (hapart : ∀ n ∈ doc.parts, n.RefsApart)
    (depth : Nat) {n : Node} (hn : n.RefsApart) (hrefs : ∀ id ∈ n.refs, id ∈ names definitions) {f : Fields}
    (hf : n.fragment allow = .ok f) :
    ∃ g, (doc.inlineAt depth n).fragment allow = .ok g ∧ expandAt definitions depth (.obj f) = .obj g := by
  induction depth generalizing n f with
  | zero => exact ⟨f, hf, rfl⟩
  | succ depth ih =>
    refine Node.fragment_inlineWith hn (fun id hid => ?_) f hf
    obtain ⟨v, hv, hmem⟩ := Json.exists_definition? (hrefs id hid)
    obtain ⟨node, fragment, hnode, hfragment, hvalue⟩ := hcompiled.fragments _ hmem
    have hpart : node ∈ doc.parts := List.mem_cons_of_mem _ (List.mem_map.2 ⟨_, Entries.mem_of_get? hnode, rfl⟩)
    obtain ⟨g, hg, hexpand⟩ := ih (hapart node hpart) (hcompiled.further id (hrefs id hid) node hnode) hfragment
    refine ⟨doc.inlineAt depth node, g, ?_, hg, ?_⟩
    · rw [hnode, Option.map_some]
    · rw [hv, Option.map_some, ← hexpand]
      exact congrArg (fun w => some (expandAt definitions depth w)) hvalue

/-- nothing is missing where nothing is referred to -/
theorem closed_of_refs {n : Node} (h : n.refs = []) : (Document.mk n []).Closed := by
  intro id hid
  have hrefs : id ∈ n.refs ++ [] := hid
  rw [h] at hrefs
  exact nomatch hrefs

theorem Compiled.eq_nil {n : Node} (h : (Document.mk n []).Compiled allow definitions) : definitions = [] := by
  refine List.eq_nil_iff_forall_not_mem.2 fun e he => ?_
  obtain ⟨node, -, hnode, -⟩ := h.fragments e he
  exact nomatch hnode

/-- a document with a definition that refers to another in several places, under an intersection as well, and one that
is not reached and leads to itself -/
def layered : Document where
  codec := .object {} [("left", .ref ⟨some "hidden", true⟩ "pair"),
    ("both", .intersection {} [.object {} [("name", .ref {} "name")],
      .union {} [.object {} [("pair", .ref {} "pair")], .object {} [("name", .leaf {} .any)]]])]
  definitions := [("pair", .tuple ⟨some "two names", false⟩ [.ref {} "name", .record {} (.ref {} "name")]),
    ("name", .leaf ⟨some "a name", false⟩ .string), ("loop", .array {} (.ref {} "loop"))]

/-- **Expansion after compiling is compiling after inlining.** Of an accepted document, where no definition that is
reached leads back to itself and no reference is merged, the top fragment expands to what the codec compiles to with its
definitions in the place of references. Both end at a depth of as many definitions as there are, and no reference is
left. -/
theorem expansion_of_schema {data : Data} (accepted : ofData data = .ok doc) (hplain : options.handlers = [])
    (acyclic : doc.Acyclic) (hapart : ∀ n ∈ doc.parts, n.RefsApart) :
    ∃ (inlined : Node) (definitions top top' : Fields), inlined.refs = [] ∧
      (generate doc.build options).1 = .ok (("definitions", .obj definitions) :: top) ∧
      (generate (Document.mk inlined []).build options).1 = .ok (("definitions", .obj []) :: top') ∧
      ∀ depth, doc.definitions.length ≤ depth →
        doc.inlineAt depth doc.codec = inlined ∧ expandAt definitions depth (.obj top) = .obj top' := by
  have closed := closed_of_ofData accepted
  have hinlined : (doc.inlineAt doc.definitions.length doc.codec).refs = [] := refs_inlineAt closed acyclic le_rfl
  obtain ⟨definitions, top, htop, hgenerate, hcompiled⟩ := exists_schema closed hplain
  obtain ⟨none, top', htop', hgenerate', hnone⟩ := exists_schema (closed_of_refs hinlined) hplain
  rw [hnone.eq_nil] at hgenerate'
  refine ⟨_, definitions, top, top', hinlined, hgenerate, hgenerate', fun depth hdepth => ?_⟩
  have heq := inlineAt_eq hinlined hdepth
  obtain ⟨g, hg, hexpand⟩ := fragment_inlineAt hcompiled hapart depth (hapart _ List.mem_cons_self)
    hcompiled.codec htop
  refine ⟨heq, ?_⟩
  rw [heq] at hg
  rw [hexpand, Except.ok.inj (hg.symm.trans htop')]

theorem layered_expands :
    ofData (Data.ofJson layered.toJson) = .ok layered ∧ layered.Acyclic ∧ (∀ n ∈ layered.parts, n.RefsApart) ∧
    ∃ (inlined : Node) (definitions top top' : Fields), inlined.refs = [] ∧
      (generate layered.build ⟨.decoded, [], false⟩).1 = .ok (("definitions", .obj definitions) :: top) ∧
      (generate (Document.mk inlined []).build ⟨.decoded, [], false⟩).1 = .ok (("definitions", .obj []) :: top') ∧
      ∀ depth, layered.definitions.length ≤ depth →
        layered.inlineAt depth layered.codec = inlined ∧ expandAt definitions depth (.obj top) = .obj top' := by
  have accepted : ofData (Data.ofJson layered.toJson) = .ok layered := rfl
  have hplain : (⟨.decoded, [], false⟩ : Options).handlers = [] := rfl
  have acyclic : layered.Acyclic :=
    acyclic_of_rank (fun id => if id = "pair" then 2 else if id = "name" then 1 else 0) (by decide) (by decide)
  have hapart : ∀ n ∈ layered.parts, n.RefsApart := by
    -- node by node, down to those without children
    repeat' first
      | exact List.forall_mem_nil _
      | refine List.forall_mem_cons.2 ⟨?_, ?_⟩
      | refine .intro (by decide) ?_
  exact ⟨accepted, acyclic, hapart, expansion_of_schema accepted hplain acyclic hapart⟩

end Document

end CodecCompiler
