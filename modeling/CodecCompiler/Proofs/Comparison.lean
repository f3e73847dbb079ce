/-
Comparing the compilations of two documents. Nodes of the one are taken for nodes of the other by a relation that goes
down to their children and through their references; the two documents may differ in everything else.

- `Document.Compares`: what such a relation has to keep.
- `Compares.discovers`: the two walks meet the same ids in the same order, each with related definitions.
- `Compares.generate_paired`: the two schemas consist of the fragments of related nodes, and the definitions come in one
  order.
- `Document.reached_of_closed`: references lead only to ids that stand in a set which they do not leave.
- `Document.generate_of_reached`: the schema of a document depends on those definitions only that its codec leads to,
  and not on the order in which it lists them.
-/
import CodecCompiler.Proofs.Inlining

namespace CodecCompiler

open Entries (names get?)

namespace Node

/-! ## References among codecs -/

theorem isRecursive_toCodec (n : Node) : n.toCodec.isRecursive = !n.ownRefs.isEmpty := by
  cases n <;> rfl

/-- only a reference becomes a recursive codec, and it names the body of its own id -/
theorem ownRefs_of_toCodec {n : Node} {m : Marks} {id body : Text} (h : n.toCodec = .recursive m id body) :
    n.ownRefs = [id] ∧ body = id := by
  cases n with
  | ref notes other =>
    rw [toCodec, Codec.recursive.injEq] at h
    obtain ⟨-, rfl, rfl⟩ := h
    exact ⟨rfl, rfl⟩
  | _ => cases h

theorem toCodec_of_ownRefs {n : Node} {id : Text} (h : n.ownRefs = [id]) : ∃ m, n.toCodec = .recursive m id id := by
  cases n with
  | ref notes other =>
    rw [ownRefs, List.singleton_inj] at h
    subst h
    exact ⟨_, rfl⟩
  | _ => cases h

theorem ownRefs_subset (n : Node) : n.ownRefs ⊆ n.refs := by
  rw [refs_eq]
  exact List.subset_append_left _ _

theorem refs_child {n c : Node} (hc : c ∈ n.children) : c.refs ⊆ n.refs := by
  intro id hid
  rw [refs_eq n]
  exact List.mem_append_right _ (List.mem_flatMap.2 ⟨c, hc, hid⟩)

end Node

namespace Document

/-! ## Related nodes -/

/-- the codecs are related, and nodes that are related refer to the same id, if they refer to any, and have related
children and related definitions -/
structure Compares (doc doc' : Document) (R : Node → Node → Prop) : Prop where
  codec : R doc.codec doc'.codec
  ownRefs : ∀ n n', R n n' → n.ownRefs = n'.ownRefs
  children : ∀ n n', R n n' → List.Forall₂ R n.children n'.children
  definition : ∀ n n', R n n' → ∀ id ∈ n.ownRefs, ∀ m, get? doc.definitions id = some m →
    ∃ m', get? doc'.definitions id = some m' ∧ R m m'

/-- both documents define the id, by related nodes -/
def DefinedAlike (doc doc' : Document) (R : Node → Node → Prop) (id : Text) : Prop :=
  ∃ m m', get? doc.definitions id = some m ∧ get? doc'.definitions id = some m' ∧ R m m'

section

variable {doc doc' : Document} {R : Node → Node → Prop} {options : Options}

/-- **The two walks meet the same ids**, in the same order, and each of them is defined alike. -/
theorem Compares.discovers (h : doc.Compares doc' R) {seen : List Text} {stack : List Codec} {met : Entries Text}
    (hwalk : Discovers doc.build.bodies seen stack met) {ns ns' : List Node} (hstack : stack = ns.map Node.toCodec)
    (hns : List.Forall₂ R ns ns') :
    Discovers doc'.build.bodies seen (ns'.map Node.toCodec) met ∧ ∀ visit ∈ met, doc.DefinedAlike doc' R visit.1 := by
  -- by induction on the first walk: the second one makes the same move
  induction hwalk generalizing ns ns' with
  | done =>
    rw [eq_comm, List.map_eq_nil_iff] at hstack
    subst hstack
    cases hns
    exact ⟨.done, by simp⟩
  | again hid _ ih =>
    cases hns with
    | nil => simp at hstack
    | @cons n n' ns ns' hn hrest =>
      obtain ⟨hfirst, hstack⟩ := List.cons.inj hstack
      obtain ⟨hown, -⟩ := Node.ownRefs_of_toCodec hfirst.symm
      rw [h.ownRefs n n' hn] at hown
      obtain ⟨m', hm'⟩ := Node.toCodec_of_ownRefs hown
      obtain ⟨hwalk, hmet⟩ := ih hstack hrest
      refine ⟨?_, hmet⟩
      rw [List.map_cons, hm']
      exact .again hid hwalk
  | @first _ _ id body c _ _ hid hbody _ ih =>
    cases hns with
    | nil => simp at hstack
    | @cons n n' ns ns' hn hrest =>
      obtain ⟨hfirst, rfl⟩ := List.cons.inj hstack
      obtain ⟨hown, rfl⟩ := Node.ownRefs_of_toCodec hfirst.symm
      obtain ⟨d, hd, rfl⟩ := body_node hbody
      obtain ⟨d', hd', hdefinition⟩ := h.definition n n' hn body (by rw [hown]; exact List.mem_cons_self) d hd
      rw [h.ownRefs n n' hn] at hown
      obtain ⟨m', hm'⟩ := Node.toCodec_of_ownRefs hown
      obtain ⟨hwalk, hmet⟩ := ih rfl (.cons hdefinition hrest)
      refine ⟨?_, fun visit hvisit => ?_⟩
      · rw [List.map_cons, hm']
        refine .first hid ?_ hwalk
        rw [get?_bodies, hd']
        rfl
      · rcases List.mem_cons.1 hvisit with rfl | hvisit
        · exact ⟨d, d', hd, hd', hdefinition⟩
        · exact hmet visit hvisit
  | @inner _ c _ _ hc _ ih =>
    cases hns with
    | nil => simp at hstack
    | @cons n n' ns ns' hn hrest =>
      obtain ⟨rfl, rfl⟩ := List.cons.inj hstack
      have hbelow : List.Forall₂ R (n.children ++ ns) (n'.children ++ ns') := List.rel_append (h.children n n' hn) hrest
      have hstack : n.toCodec.children ++ ns.map Node.toCodec = (n.children ++ ns).map Node.toCodec := by
        rw [List.map_append, Node.children_toCodec]
      obtain ⟨hwalk, hmet⟩ := ih hstack hbelow
      refine ⟨.inner ?_ ?_, hmet⟩
      · rwa [Node.isRecursive_toCodec, ← h.ownRefs n n' hn, ← Node.isRecursive_toCodec]
      · rwa [List.map_append, ← Node.children_toCodec] at hwalk

/-! ## Two schemas -/

/-- definitions of one id that are the fragments of related nodes -/
def Paired (allow : Bool) (R : Node → Node → Prop) (e e' : Text × Json) : Prop :=
  e.1 = e'.1 ∧ ∃ n n' f f', R n n' ∧ n.fragment allow = .ok f ∧ n'.fragment allow = .ok f' ∧
    e.2 = .obj f ∧ e'.2 = .obj f'

/-- what a visit settles is the fragment of the node that the document has for its id -/
theorem fragment_of_visit {visit : Text × Text} (hnamed : visit.2 = visit.1) {m : Node}
    (hm : get? doc.definitions visit.1 = some m) {e : Text × Json}
    (hsettled : Settled (options.context doc.build.bodies) visit e) :
    e.1 = visit.1 ∧ ∃ f, m.fragment options.allowAdditional = .ok f ∧ e.2 = .obj f := by
  obtain ⟨hid, c, f, hc, hf, hvalue⟩ := hsettled
  rw [hnamed] at hc
  obtain ⟨n, hn, rfl⟩ := body_node hc
  cases hm.symm.trans hn
  rw [Node.translate_toCodec, mapError_eq_ok_iff] at hf
  exact ⟨hid, f, hf, hvalue⟩

/-- what one visit settles in the two documents -/
theorem paired_of_settled {visit : Text × Text} (hnamed : visit.2 = visit.1)
    (hdefined : doc.DefinedAlike doc' R visit.1) {e e' : Text × Json}
    (hsettled : Settled (options.context doc.build.bodies) visit e)
    (hsettled' : Settled (options.context doc'.build.bodies) visit e') : Paired options.allowAdditional R e e' := by
  obtain ⟨m, m', hm, hm', hR⟩ := hdefined
  obtain ⟨hid, f, hf, hvalue⟩ := fragment_of_visit hnamed hm hsettled
  obtain ⟨hid', f', hf', hvalue'⟩ := fragment_of_visit hnamed hm' hsettled'
  exact ⟨hid.trans hid'.symm, m, m', f, f', hR, hf, hf', hvalue, hvalue'⟩

/-- what the visits of one walk settle in the two documents -/
theorem paired_of_visits {visits : Entries Text} (hnamed : ∀ visit ∈ visits, visit.2 = visit.1)
    (hdefined : ∀ visit ∈ visits, doc.DefinedAlike doc' R visit.1) {es es' : Fields}
    (hall : List.Forall₂ (Settled (options.context doc.build.bodies)) visits es)
    (hall' : List.Forall₂ (Settled (options.context doc'.build.bodies)) visits es') :
    List.Forall₂ (Paired options.allowAdditional R) es es' := by
  induction hall generalizing es' with
  | nil =>
    cases hall'
    exact .nil
  | cons hfirst _ ih =>
    cases hall' with
    | cons hfirst' hrest' =>
      rw [List.forall_mem_cons] at hnamed hdefined
      exact .cons (paired_of_settled hnamed.1 hdefined.1 hfirst hfirst') (ih hnamed.2 hdefined.2 hrest')

/-- **The two schemas are made of the fragments of related nodes**, and the same bodies are asked for. -/
theorem Compares.generate_paired (h : doc.Compares doc' R) (closed : doc.Closed) (closed' : doc'.Closed)
    (hplain : options.handlers = []) :
    ∃ (top top' definitions definitions' : Fields) (resolved : List Text),
      doc.codec.fragment options.allowAdditional = .ok top ∧ doc'.codec.fragment options.allowAdditional = .ok top' ∧
      generate doc.build options = (.ok (("definitions", .obj definitions) :: top), ⟨definitions, resolved⟩) ∧
      generate doc'.build options = (.ok (("definitions", .obj definitions') :: top'), ⟨definitions', resolved⟩) ∧
      List.Forall₂ (Paired options.allowAdditional R) definitions definitions' := by
  obtain ⟨top, p, htop, ⟨met, hwalk, hextends⟩, hgenerate, -⟩ := exists_generate closed hplain
  obtain ⟨top', p', htop', ⟨met', hwalk', hextends'⟩, hgenerate', -⟩ := exists_generate closed' hplain
  have hstack : [doc.build.root] = [doc.codec].map Node.toCodec := rfl
  obtain ⟨hsame, hmet⟩ := h.discovers hwalk hstack (.cons h.codec .nil)
  cases hsame.unique hwalk'
  have hnamed : ∀ visit ∈ met, visit.2 = visit.1 := fun visit hvisit => visits_named hwalk hvisit
  obtain ⟨es, hes, hall⟩ := hextends.definitions
  obtain ⟨es', hes', hall'⟩ := hextends'.definitions
  have hpaired : List.Forall₂ (Paired options.allowAdditional R) es es' := paired_of_visits hnamed hmet hall hall'
  rw [(Node.fragment_shaped htop).withDefinitions_eq] at hgenerate
  rw [(Node.fragment_shaped htop').withDefinitions_eq] at hgenerate'
  have hp : p = ⟨es, met.map (·.2)⟩ := by
    cases p
    exact congrArg₂ Progress.mk hes hextends.resolved
  have hp' : p' = ⟨es', met.map (·.2)⟩ := by
    cases p'
    exact congrArg₂ Progress.mk hes' hextends'.resolved
  subst hp hp'
  exact ⟨top, top', es, es', met.map (·.2), htop, htop', hgenerate, hgenerate', hpaired⟩

end

/-! ## Definitions that the codec leads to -/

section

variable {doc doc' : Document} {options : Options}

/-- ids that references do not leave are all that is reached -/
theorem reached_of_closed {ids : List Text} (hcodec : ∀ id ∈ doc.codec.refs, id ∈ ids)
    (hdefinitions : ∀ e ∈ doc.definitions, e.1 ∈ ids → ∀ other ∈ e.2.refs, other ∈ ids) {id : Text}
    (h : doc.Reached id) : id ∈ ids := by
  obtain ⟨first, hfirst, hpath⟩ := h
  induction hpath with
  | refl => exact hcodec first hfirst
  | tail _ hleads ih =>
    obtain ⟨n, hn, hother⟩ := hleads
    exact hdefinitions _ (Entries.mem_of_get? hn) ih _ hother

/-- a node is taken for itself where all that it refers to is reached -/
theorem compares_reached (hcodec : doc.codec = doc'.codec)
    (hagree : ∀ id, doc.Reached id → get? doc.definitions id = get? doc'.definitions id) :
    doc.Compares doc' fun n n' => n = n' ∧ ∀ id ∈ n.refs, doc.Reached id := by
  refine ⟨⟨hcodec, fun id hid => ⟨id, hid, .refl⟩⟩, ?_, ?_, ?_⟩
  · rintro n _ ⟨rfl, -⟩
    rfl
  · rintro n _ ⟨rfl, hreached⟩
    refine List.forall₂_same.2 fun c hc => ⟨rfl, fun id hid => hreached id (Node.refs_child hc hid)⟩
  · rintro n _ ⟨rfl, hreached⟩ id hid m hm
    have hown := hreached id (n.ownRefs_subset hid)
    exact ⟨m, (hagree id hown).symm.trans hm, rfl, fun other hother => hown.step ⟨m, hm, hother⟩⟩

/-- a codec that leads to two of the definitions below, which lead to each other -/
def winding : Node := .object {} [("left", .ref {} "odd"), ("right", .tuple {} [.ref ⟨some "again", true⟩ "even"])]

/-- the definitions in the order of their discovery, and one that nothing leads to -/
def straight : Document where
  codec := winding
  definitions := [("odd", .array {} (.ref {} "even")), ("even", .record {} (.union {} [.ref {} "odd", .leaf {} .null])),
    ("unused", .leaf {} .any)]

/-- the same in another order, with another definition that nothing leads to under the same id, and one more -/
def shuffled : Document where
  codec := winding
  definitions := [("other", .ref {} "unused"), ("even", .record {} (.union {} [.ref {} "odd", .leaf {} .null])),
    ("unused", .ref {} "odd"), ("odd", .array {} (.ref {} "even"))]

/-- **Only the definitions that the codec leads to matter**, and their order does not. Two accepted documents with one
codec, whose definitions agree on every id that the codec leads to, compile to the same schema by the same progress. -/
theorem generate_of_reached {data data' : Data} (accepted : ofData data = .ok doc)
    (accepted' : ofData data' = .ok doc') (hplain : options.handlers = []) (hcodec : doc.codec = doc'.codec)
    (hagree : ∀ id, doc.Reached id → get? doc.definitions id = get? doc'.definitions id) :
    ∃ schema progress, generate doc.build options = (.ok schema, progress) ∧
      generate doc'.build options = (.ok schema, progress) := by
  obtain ⟨top, top', definitions, definitions', resolved, htop, htop', hgenerate, hgenerate', hpaired⟩ :=
    (compares_reached hcodec hagree).generate_paired (closed_of_ofData accepted) (closed_of_ofData accepted') hplain
  have hdefinitions : definitions = definitions' := by
    refine List.forall₂_eq_eq_eq.le _ _ (hpaired.imp fun e e' h => ?_)
    obtain ⟨hid, n, _, f, f', ⟨rfl, -⟩, hf, hf', hvalue, hvalue'⟩ := h
    cases hf.symm.trans hf'
    exact Prod.ext hid (hvalue.trans hvalue'.symm)
  rw [← hcodec] at htop'
  cases htop.symm.trans htop'
  subst hdefinitions
  exact ⟨_, _, hgenerate, hgenerate'⟩

theorem shuffled_generates_straight :
    ofData (Data.ofJson straight.toJson) = .ok straight ∧ ofData (Data.ofJson shuffled.toJson) = .ok shuffled ∧
    ∃ schema progress, generate straight.build ⟨.decoded, [], true⟩ = (.ok schema, progress) ∧
      generate shuffled.build ⟨.decoded, [], true⟩ = (.ok schema, progress) := by
  refine ⟨rfl, rfl, ?_⟩
  refine generate_of_reached (show ofData (Data.ofJson straight.toJson) = .ok straight from rfl)
    (show ofData (Data.ofJson shuffled.toJson) = .ok shuffled from rfl)
    (show (⟨.decoded, [], true⟩ : Options).handlers = [] from rfl) rfl fun id hid => ?_
  have hmem : id ∈ (["odd", "even"] : List Text) := by
    refine reached_of_closed ?_ ?_ hid
    · decide
    · decide
  simp only [List.mem_cons, List.not_mem_nil, or_false] at hmem
  rcases hmem with rfl | rfl
  · rfl
  · rfl

end

end Document

end CodecCompiler
