/-
Compilation of accepted documents with the built-in handlers alone.

- `Document.ofData_eq_ok_iff`: in an accepted document every reference has a definition.
- `Document.complete`: so every node that is built can be entered, and every body has a translation.
- `Document.exists_run`: the top codec compiles to its fragment under any bound that covers the references, and
  leaves the same progress behind whatever the bound.
- `Document.Compiled`: what the definitions of a schema are; `Document.exists_schema`: a closed document has a schema.
- `Document.generate_eq_fragments`: the schema consists of the fragments of the top node and of the definitions.
- `Document.generate_succeeds`: compilation ends with a schema, and goes no deeper than there are definitions.
-/
import CodecCompiler.Document.Validation
import CodecCompiler.Proofs.Runs

namespace CodecCompiler

open Entries (names)
open Compile

/-! ## Accepted documents -/

namespace Document

/-- every reference of the document has a definition -/
def Closed (doc : Document) : Prop := ∀ id ∈ doc.refs, id ∈ names doc.definitions

theorem firstDangling?_eq_none_iff {doc : Document} : doc.firstDangling? = none ↔ doc.Closed := by
  unfold firstDangling? Closed
  rw [List.find?_eq_none]
  simp [Entries.has_iff]

theorem ofData_eq_ok_iff {data : Data} {doc : Document} :
    ofData data = .ok doc ↔ shapeOfData data = .ok doc ∧ doc.Closed := by
  unfold ofData
  cases shapeOfData data with
  | error found => exact iff_of_false (fun h => nomatch h) fun h => nomatch h.1
  | ok shaped =>
    change checkRefs shaped = .ok doc ↔ _
    unfold checkRefs
    rw [Except.ok.injEq]
    cases hdangling : shaped.firstDangling? with
    | none =>
      rw [Except.ok.injEq]
      exact ⟨fun h => ⟨h, h ▸ firstDangling?_eq_none_iff.1 hdangling⟩, And.left⟩
    | some id =>
      refine iff_of_false (fun h => nomatch h) ?_
      rintro ⟨rfl, hclosed⟩
      exact nomatch hdangling.symm.trans (firstDangling?_eq_none_iff.2 hclosed)

theorem closed_of_ofData {data : Data} {doc : Document} (accepted : ofData data = .ok doc) : doc.Closed :=
  (ofData_eq_ok_iff.1 accepted).2

theorem get?_bodies (doc : Document) (id : Text) :
    Entries.get? doc.build.bodies id = (Entries.get? doc.definitions id).map Node.toCodec := by
  simp only [build, Node.toShape_eq, Entries.get?_mapValues]

theorem body_node {doc : Document} {id : Text} {c : Codec} (h : Entries.get? doc.build.bodies id = some c) :
    ∃ n, Entries.get? doc.definitions id = some n ∧ n.toCodec = c := by
  rw [get?_bodies] at h
  exact Option.map_eq_some_iff.1 h

/-- the parts of a document: its codec and the nodes of its definitions -/
def parts (doc : Document) : List Node := doc.codec :: doc.definitions.map (·.2)

theorem refs_part {doc : Document} {n : Node} (hn : n ∈ doc.parts) {id : Text} (hid : id ∈ n.refs) : id ∈ doc.refs := by
  unfold refs
  rcases List.mem_cons.1 hn with rfl | hn
  · exact List.mem_append_left _ hid
  · rw [Node.refsOfShape_eq]
    exact List.mem_append_right _ (List.mem_flatMap.2 ⟨n, hn, hid⟩)

variable {doc : Document} {options : Options} {ids : List Text}

/-- the nodes of what is built can be entered -/
theorem entered_part (closed : doc.Closed) (hids : ∀ id ∈ doc.refs, id ∈ ids) {n : Node} (hn : n ∈ doc.parts) :
    n.toCodec.All (Codec.Entered (options.context doc.build.bodies) ids) := by
  have hrefs := n.toCodec.all_ids
  rw [Node.ids_toCodec] at hrefs
  refine (n.named_toCodec.and hrefs).mono fun c hc => ?_
  cases c with
  | recursive m id body =>
    obtain ⟨hname, hown⟩ := hc
    have hid : id ∈ doc.refs := refs_part hn (hown id List.mem_cons_self)
    obtain ⟨node, hnode⟩ := Entries.exists_get? (closed id hid)
    refine ⟨hids id hid, node.toCodec, ?_⟩
    rw [show body = id from hname]
    exact (get?_bodies doc id).trans (congrArg _ hnode)
  | _ => trivial

theorem complete (closed : doc.Closed) (hids : ∀ id ∈ doc.refs, id ∈ ids) :
    Complete (options.context doc.build.bodies) ids := by
  refine ⟨fun body c hc => ?_, fun body c hc => ?_⟩
  · obtain ⟨n, hn, rfl⟩ := body_node hc
    have hpart : n ∈ doc.parts := List.mem_cons_of_mem _ (List.mem_map.2 ⟨_, Entries.mem_of_get? hn, rfl⟩)
    exact entered_part closed hids hpart
  · obtain ⟨n, hn, rfl⟩ := body_node hc
    exact Codec.exists_translate n.plain_toCodec

/-! ## The run of a document -/

/-- **A closed document compiles** under every bound that covers its references, always to the same. -/
theorem exists_run (closed : doc.Closed) (hplain : options.handlers = []) :
    ∃ top progress, doc.codec.fragment options.allowAdditional = .ok top ∧
      Settles (options.context doc.build.bodies) {} [doc.build.root] progress ∧
      ∀ ids : List Text, (∀ id ∈ doc.refs, id ∈ ids) → ∀ depth, ids.length < depth →
        Runs (fragmentAt (options.context doc.build.bodies) depth doc.build.root) {} top progress := by
  have hb := Options.registry_context hplain doc.build.bodies
  obtain ⟨top, htop⟩ := doc.codec.exists_fragment options.allowAdditional
  have htranslate : doc.build.root.translate (options.context doc.build.bodies).allowAdditional = .ok top := by
    refine (Node.translate_toCodec options.allowAdditional doc.codec).trans ?_
    rw [htop]
    rfl
  have hrun : ∀ ids : List Text, (∀ id ∈ doc.refs, id ∈ ids) → ∀ depth, ids.length < depth →
      ∃ p, Runs (fragmentAt (options.context doc.build.bodies) depth doc.build.root) {} top p := by
    intro ids hids depth hdepth
    exact fragmentAt_runs hb (complete closed hids) doc.build.root (entered_part closed hids List.mem_cons_self) {} top
      ((unseen_le_length ids _).trans_lt hdepth) htranslate
  obtain ⟨progress, hprogress⟩ := hrun doc.refs (fun _ hid => hid) _ (Nat.lt_succ_self _)
  have hsettles := (fragmentAt_sound hb hprogress).settles
  refine ⟨top, progress, htop, hsettles, fun ids hids depth hdepth => ?_⟩
  obtain ⟨p, hp⟩ := hrun ids hids depth hdepth
  rw [hsettles.unique (fragmentAt_sound hb hp).settles]
  exact hp

theorem generate_of_run {system : CodecSystem} {top : Fields} {progress : Progress}
    (h : Runs (compile (options.context system.bodies) system.root) {} top progress) :
    generate system options = (.ok (withDefinitions progress.definitions top), progress) := by
  unfold generate
  rw [show (compile (options.context system.bodies) system.root).runFrom {} = (.ok top, progress) from h]
  rfl

theorem exists_generate (closed : doc.Closed) (hplain : options.handlers = []) :
    ∃ top progress, doc.codec.fragment options.allowAdditional = .ok top ∧
      Settles (options.context doc.build.bodies) {} [doc.build.root] progress ∧
      generate doc.build options = (.ok (withDefinitions progress.definitions top), progress) ∧
      ∀ depth, doc.definitions.length < depth →
        Runs (fragmentAt (options.context doc.build.bodies) depth doc.build.root) {} top progress := by
  obtain ⟨top, progress, htop, hsettles, hrun⟩ := exists_run closed hplain
  have hcompile : Runs (compile (options.context doc.build.bodies) doc.build.root) {} top progress := by
    refine hrun doc.refs (fun _ hid => hid) _ ?_
    rw [Context.depth_builtin (Options.registry_context hplain _), ← ids_build]
    exact Nat.lt_add_of_pos_right (Nat.succ_pos 1)
  refine ⟨top, progress, htop, hsettles, generate_of_run hcompile, fun depth hdepth => ?_⟩
  have hnames : (names doc.definitions).length < depth := by rwa [names, List.length_map]
  exact hrun _ closed depth hnames

/-- in what is built a reference asks for the body of its own id -/
theorem visits_named {seen : List Text} {met : Entries Text}
    (hwalk : Discovers doc.build.bodies seen [doc.build.root] met) {visit : Text × Text} (hvisit : visit ∈ met) :
    visit.2 = visit.1 := by
  refine hwalk.named (fun c hc => ?_) (fun id c hc => ?_) visit hvisit
  · rw [List.mem_singleton.1 hc]
    exact doc.codec.named_toCodec
  · obtain ⟨n, -, rfl⟩ := body_node hc
    exact n.named_toCodec

/-- a settled definition is the fragment of the node that the document has for its id -/
theorem fragment_of_settled {seen : List Text} {met : Entries Text}
    (hwalk : Discovers doc.build.bodies seen [doc.build.root] met) {visit : Text × Text} (hvisit : visit ∈ met)
    {entry : Text × Json} (hsettled : Settled (options.context doc.build.bodies) visit entry) :
    ∃ node fragment, Entries.get? doc.definitions entry.1 = some node ∧
      node.fragment options.allowAdditional = .ok fragment ∧ entry.2 = .obj fragment := by
  obtain ⟨hid, c, fragment, hc, hfragment, hvalue⟩ := hsettled
  obtain ⟨node, hnode, rfl⟩ := body_node hc
  refine ⟨node, fragment, ?_, ?_, hvalue⟩
  · rw [hid, ← visits_named hwalk hvisit]
    exact hnode
  · rw [Node.translate_toCodec, mapError_eq_ok_iff] at hfragment
    exact hfragment

/-- definitions that are fragments of the nodes of their ids, with everything that is referred to from the codec on -/
structure Compiled (doc : Document) (allow : Bool) (definitions : Fields) : Prop where
  distinct : Entries.Distinct definitions
  fragments : ∀ e ∈ definitions, ∃ node fragment, Entries.get? doc.definitions e.1 = some node ∧
    node.fragment allow = .ok fragment ∧ e.2 = .obj fragment
  codec : ∀ id ∈ doc.codec.refs, id ∈ names definitions
  further : ∀ id ∈ names definitions, ∀ node, Entries.get? doc.definitions id = some node →
    ∀ other ∈ node.refs, other ∈ names definitions

theorem compiled_of_settles {progress : Progress}
    (h : Settles (options.context doc.build.bodies) {} [doc.build.root] progress) :
    doc.Compiled options.allowAdditional progress.definitions := by
  obtain ⟨met, hwalk, hextends⟩ := h
  have hnames : names progress.definitions = names met := hextends.names_eq
  refine ⟨?_, fun e he => ?_, fun id hid => ?_, fun id hid node hnode other hother => ?_⟩
  · unfold Entries.Distinct
    rw [hnames]
    exact hwalk.distinct
  · obtain ⟨entries, hentries, hsettled⟩ := hextends.definitions
    rw [hentries] at he
    obtain ⟨visit, hvisit, hentry⟩ := forall₂_mem_right hsettled e he
    exact fragment_of_settled hwalk hvisit hentry
  · rw [hnames]
    refine hwalk.ids_stack doc.build.root List.mem_cons_self id ?_
    rwa [build, Node.ids_toCodec]
  · rw [hnames] at hid ⊢
    obtain ⟨visit, hvisit, rfl⟩ := List.mem_map.1 hid
    obtain ⟨c, hc, hids⟩ := hwalk.ids_body visit hvisit
    rw [visits_named hwalk hvisit] at hc
    obtain ⟨body, hbody, rfl⟩ := body_node hc
    cases Option.some.inj (hnode.symm.trans hbody)
    refine hids other ?_
    rwa [Node.ids_toCodec]

/-- **The schema of a closed document** has its definitions in front of the fragment of its codec. -/
theorem exists_schema (closed : doc.Closed) (hplain : options.handlers = []) :
    ∃ definitions top : Fields, doc.codec.fragment options.allowAdditional = .ok top ∧
      (generate doc.build options).1 = .ok (("definitions", .obj definitions) :: top) ∧
      doc.Compiled options.allowAdditional definitions := by
  obtain ⟨top, progress, htop, hsettles, hgenerate, -⟩ := exists_generate closed hplain
  have htranslate : doc.build.root.translate options.allowAdditional = .ok top := by
    rw [build, Node.translate_toCodec, htop]
    rfl
  refine ⟨progress.definitions, top, htop, ?_, compiled_of_settles hsettles⟩
  rw [hgenerate, (Codec.translate_shaped htranslate).withDefinitions_eq]

/-- a document whose definitions refer to each other, to themselves, or are not referred to at all -/
def entwined : Document where
  codec := .object {} [("left", .ref {} "tree"), ("right", .ref ⟨some "again", true⟩ "loop")]
  definitions := [("tree", .array ⟨some "nested", false⟩ (.ref {} "list")),
    ("list", .intersection {} [.object {} [("head", .ref {} "tree")], .union {} [.ref {} "list", .leaf {} .any]]),
    ("loop", .ref {} "loop"), ("unused", .leaf {} .null)]

/-- **A schema consists of the fragments of its document.** Compiling an accepted document gives its definitions in
front of the fragment that its codec has by itself, and each definition is the fragment that the node of its id has by
itself. -/
theorem generate_eq_fragments {data : Data} (accepted : ofData data = .ok doc) (hplain : options.handlers = []) :
    ∃ definitions top : Fields, doc.codec.fragment options.allowAdditional = .ok top ∧
      (generate doc.build options).1 = .ok (("definitions", .obj definitions) :: top) ∧
      Entries.Distinct definitions ∧
      ∀ e ∈ definitions, ∃ node fragment, Entries.get? doc.definitions e.1 = some node ∧
        node.fragment options.allowAdditional = .ok fragment ∧ e.2 = .obj fragment := by
  obtain ⟨definitions, top, htop, hgenerate, hcompiled⟩ := exists_schema (closed_of_ofData accepted) hplain
  exact ⟨definitions, top, htop, hgenerate, hcompiled.distinct, hcompiled.fragments⟩

theorem entwined_fragments :
    ofData (Data.ofJson entwined.toJson) = .ok entwined ∧
    ∃ definitions top : Fields, entwined.codec.fragment true = .ok top ∧
      (generate entwined.build ⟨.decoded, [], true⟩).1 = .ok (("definitions", .obj definitions) :: top) ∧
      Entries.Distinct definitions ∧
      ∀ e ∈ definitions, ∃ node fragment, Entries.get? entwined.definitions e.1 = some node ∧
        node.fragment true = .ok fragment ∧ e.2 = .obj fragment :=
  ⟨rfl, generate_eq_fragments (show ofData (Data.ofJson entwined.toJson) = .ok entwined from rfl)
    (show (⟨.decoded, [], true⟩ : Options).handlers = [] from rfl)⟩

/-- **Compilation of accepted documents never fails**, and it ends: bodies nest no deeper than there are definitions, so
that every bound above their number leads to the same schema by the same progress. -/
theorem generate_succeeds {data : Data} (accepted : ofData data = .ok doc) (hplain : options.handlers = []) :
    ∃ schema progress, generate doc.build options = (.ok schema, progress) ∧
      ∀ depth, doc.definitions.length < depth → ∃ top,
        (fragmentAt (options.context doc.build.bodies) depth doc.build.root).runFrom {} = (.ok top, progress) ∧
        schema = withDefinitions progress.definitions top := by
  obtain ⟨top, progress, -, -, hgenerate, hrun⟩ := exists_generate (closed_of_ofData accepted) hplain
  exact ⟨_, progress, hgenerate, fun depth hdepth => ⟨top, hrun depth hdepth, rfl⟩⟩

theorem entwined_succeeds :
    ofData (Data.ofJson entwined.toJson) = .ok entwined ∧
    ∃ schema progress, generate entwined.build ⟨.decoded, [], true⟩ = (.ok schema, progress) ∧
      ∀ depth, entwined.definitions.length < depth → ∃ top,
        (fragmentAt ((⟨.decoded, [], true⟩ : Options).context entwined.build.bodies) depth
          entwined.build.root).runFrom {} = (.ok top, progress) ∧
        schema = withDefinitions progress.definitions top :=
  ⟨rfl, generate_succeeds (show ofData (Data.ofJson entwined.toJson) = .ok entwined from rfl)
    (show (⟨.decoded, [], true⟩ : Options).handlers = [] from rfl)⟩

end Document

end CodecCompiler
