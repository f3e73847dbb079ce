/-
Reading documents back from what is built of them. Building loses nothing but empty descriptions, and a body that is
asked for is the one that its own id has, whatever was asked for before.

- `Codec.toNode?` reads a codec back as a node of a document; it needs the codec alone.
- `Notes.normal`, `Node.normal`: an empty description counts as none, all else stays.
- `Node.toNode?_toCodec`: what is built of a node reads back as the node, so `Node.normal_eq_of_toCodec_eq`.
- `Document.Remembers`: what is built so far are bodies of the document; `Document.resolve_builtAfter`: so the body of an
  id does not depend on the bodies that were asked for before.
- `Document.leads_iff`, `Document.reached_iff`: what leads where can be told from the bodies.
- `Document.build_reads_back`: an accepted document can be read back from its codec and from its resolved bodies.
-/
import CodecCompiler.Proofs.Annotations
import CodecCompiler.Proofs.Dangling

namespace CodecCompiler

open Entries (names get?)

/-! ## Reading back -/

/-- the scalar that a value is -/
def Json.toScalar? : Json → Option Scalar
  | .null => some .null
  | .bool b => some (.bool b)
  | .int n => some (.int n)
  | .float x => some (.float x)
  | .str s => some (.str s)
  | .arr _ | .obj _ => none

/-- the notes that a codec's marks are made of -/
def Marks.toNotes (m : Marks) : Notes := ⟨m.description, !m.required⟩

namespace Codec

mutual

/-- the node that a codec is made of; a recursive codec is made of a reference to its id -/
def toNode? : Codec → Option Node
  | .plain m tag =>
    match tag.kind? with
    | some (.primitive p) => some (.leaf m.toNotes p)
    | _ => none
  | .literal m value => value.toScalar?.map (.literal m.toNotes)
  | .enum m values => (values.mapM Json.toScalar?).map (.enum m.toNotes)
  | .object m shape => (toShape? shape).map (.object m.toNotes)
  | .record m values => (toNode? values).map (.record m.toNotes)
  | .array m items => (toNode? items).map (.array m.toNotes)
  | .tuple m items => (toNodes? items).map (.tuple m.toNotes)
  | .intersection m members => (toNodes? members).map (.intersection m.toNotes)
  | .union m members => (toNodes? members).map (.union m.toNotes)
  | .recursive m id _ => some (.ref m.toNotes id)

def toNodes? : List Codec → Option (List Node)
  | [] => some []
  | c :: cs => do return (← toNode? c) :: (← toNodes? cs)

def toShape? : List (Text × Codec) → Option (List (Text × Node))
  | [] => some []
  | (name, c) :: cs => do return (name, ← toNode? c) :: (← toShape? cs)

end

end Codec

/-- notes in which an empty description counts as none -/
def Notes.normal (n : Notes) : Notes := { n with description := n.description.filter fun d => !d.isEmpty }

/-- a node in which empty descriptions count as none -/
def Node.normal (n : Node) : Node := n.mapNotes (fun _ => Notes.normal) false

@[simp] theorem Notes.toNotes_toMarks (n : Notes) : n.toMarks.toNotes = n.normal := by
  simp [toMarks, Marks.toNotes, normal]

@[simp] theorem Scalar.toScalar?_toJson (s : Scalar) : s.toJson.toScalar? = some s := by
  cases s <;> rfl

theorem Scalar.toScalars?_toJson (values : List Scalar) : (values.map toJson).mapM Json.toScalar? = some values := by
  induction values with
  | nil => rfl
  | cons value values ih =>
    rw [List.map_cons, List.mapM_cons, toScalar?_toJson, ih]
    rfl

namespace Node

/-- whether a node is the value of a field does not count -/
theorem mapNotes_normal (field : Bool) (n : Node) : n.mapNotes (fun _ => Notes.normal) field = n.normal := by
  cases n <;> rfl

mutual

/-- **What is built of a node reads back as the node**, but for empty descriptions. -/
theorem toNode?_toCodec (n : Node) : n.toCodec.toNode? = some n.normal := by
  cases n with
  | leaf n p => simp [toCodec, Codec.toNode?, Tag.kind?_kind, normal, mapNotes]
  | literal n value => simp [toCodec, Codec.toNode?, normal, mapNotes]
  | enum n values =>
    simp only [toCodec, Codec.toNode?, Scalar.toScalars?_toJson, Notes.toNotes_toMarks, Option.map_some]
    rfl
  | object n shape => simp [toCodec, Codec.toNode?, toShape?_toShape shape, normal, mapNotes]
  | record n values =>
    simp only [toCodec, Codec.toNode?, toNode?_toCodec values, Notes.toNotes_toMarks, Option.map_some]
    rfl
  | array n items =>
    simp only [toCodec, Codec.toNode?, toNode?_toCodec items, Notes.toNotes_toMarks, Option.map_some]
    rfl
  | tuple n items => simp [toCodec, Codec.toNode?, toNodes?_toCodecs items, normal, mapNotes]
  | intersection n members => simp [toCodec, Codec.toNode?, toNodes?_toCodecs members, normal, mapNotes]
  | union n members => simp [toCodec, Codec.toNode?, toNodes?_toCodecs members, normal, mapNotes]
  | ref n id => simp [toCodec, Codec.toNode?, normal, mapNotes]

theorem toNodes?_toCodecs (ns : List Node) :
    Codec.toNodes? (toCodecs ns) = some (mapNotesList (fun _ => Notes.normal) ns) := by
  match ns with
  | [] => rfl
  | n :: ns =>
    simp only [toCodecs, Codec.toNodes?, toNode?_toCodec n, toNodes?_toCodecs ns, mapNotesList]
    rfl

theorem toShape?_toShape (shape : List (Text × Node)) :
    Codec.toShape? (toShape shape) = some (mapNotesShape (fun _ => Notes.normal) shape) := by
  match shape with
  | [] => rfl
  | (name, n) :: shape =>
    simp only [toShape, Codec.toShape?, toNode?_toCodec n, toShape?_toShape shape, mapNotesShape, mapNotes_normal]
    rfl

end

/-- nodes of which the same codec is built are the same, but for empty descriptions -/
theorem normal_eq_of_toCodec_eq {n n' : Node} (h : n.toCodec = n'.toCodec) : n.normal = n'.normal := by
  have hread := n.toNode?_toCodec
  rw [h, n'.toNode?_toCodec] at hread
  exact (Option.some.inj hread).symm

end Node

/-! ## Bodies that are asked for -/

namespace Document

variable {doc doc' : Document} {id other : Text} {built : Bodies}

/-- what is built so far are bodies of the document -/
def Remembers (doc : Document) (built : Bodies) : Prop :=
  ∀ id c, get? built id = some c → get? doc.build.bodies id = some c

theorem remembers_nil (doc : Document) : doc.Remembers [] := by
  intro id c h
  cases h

/-- **The body of an id** is that of its definition, and what is built then are bodies of the document again. -/
theorem Remembers.resolve (h : doc.Remembers built) (id : Text) :
    (doc.resolve id built).1 = get? doc.build.bodies id ∧ doc.Remembers (doc.resolve id built).2 := by
  unfold Document.resolve
  cases hbuilt : get? built id with
  | some c => exact ⟨(h id c hbuilt).symm, h⟩
  | none =>
    have hbody := doc.get?_bodies id
    cases hdefinition : get? doc.definitions id with
    | none =>
      rw [hdefinition] at hbody
      exact ⟨hbody.symm, h⟩
    | some definition =>
      rw [hdefinition] at hbody
      refine ⟨hbody.symm, ?_⟩
      intro other c hc
      simp only [Entries.get?_set] at hc
      split_ifs at hc with heq
      · rw [heq, hbody]
        exact hc
      · exact h other c hc

theorem remembers_builtAfter (doc : Document) (calls : List Text) : doc.Remembers (doc.builtAfter calls) := by
  have hfold : ∀ built, doc.Remembers built →
      doc.Remembers (calls.foldl (fun built id => (doc.resolve id built).2) built) := by
    induction calls with
    | nil => exact fun built h => h
    | cons id calls ih => exact fun built h => ih _ (h.resolve id).2
  exact hfold [] doc.remembers_nil

/-- **What was asked for before does not count.** -/
theorem resolve_builtAfter (doc : Document) (id : Text) (calls : List Text) :
    (doc.resolve id (doc.builtAfter calls)).1 = get? doc.build.bodies id :=
  ((doc.remembers_builtAfter calls).resolve id).1

/-! ## Definitions that are reached -/

/-- what a definition leads to can be told from its body -/
theorem leads_iff : doc.Leads id other ↔ ∃ c, get? doc.build.bodies id = some c ∧ other ∈ c.ids := by
  constructor
  · rintro ⟨n, hn, hother⟩
    refine ⟨n.toCodec, ?_, ?_⟩
    · rw [get?_bodies, hn]
      rfl
    · rwa [Node.ids_toCodec]
  · rintro ⟨c, hc, hother⟩
    obtain ⟨n, hn, rfl⟩ := body_node hc
    rw [Node.ids_toCodec] at hother
    exact ⟨n, hn, hother⟩

/-- documents with the same codec and the same bodies of what is reached in one of them reach the same definitions -/
theorem reached_iff (hroot : doc'.build.root = doc.build.root)
    (hbodies : ∀ id, doc.Reached id → get? doc'.build.bodies id = get? doc.build.bodies id) (id : Text) :
    doc'.Reached id ↔ doc.Reached id := by
  have hrefs : doc'.codec.refs = doc.codec.refs := by
    have hids := congrArg Codec.ids hroot
    rwa [build, build, Node.ids_toCodec, Node.ids_toCodec] at hids
  have hleads : ∀ {id other}, doc.Reached id → (doc'.Leads id other ↔ doc.Leads id other) := by
    intro id other hid
    rw [leads_iff, leads_iff, hbodies id hid]
  constructor
  · rintro ⟨first, hfirst, hpath⟩
    induction hpath with
    | refl => exact ⟨first, hrefs ▸ hfirst, .refl⟩
    | tail _ hstep ih => exact ih.step ((hleads ih).1 hstep)
  · rintro ⟨first, hfirst, hpath⟩
    induction hpath with
    | refl => exact ⟨first, hrefs.symm ▸ hfirst, .refl⟩
    | tail hpath hstep ih => exact ih.step ((hleads ⟨first, hfirst, hpath⟩).2 hstep)

theorem Reached.defined (closed : doc.Closed) (h : doc.Reached id) : id ∈ names doc.definitions := by
  apply reached_of_closed _ _ h
  · intro id hid
    exact closed id (refs_part List.mem_cons_self hid)
  · intro e he _ other hother
    exact closed other (refs_part (List.mem_cons_of_mem _ (List.mem_map_of_mem he)) hother)

/-- a definition reads back from the body of its id -/
theorem body_reads_back (hmem : id ∈ names doc.definitions) :
    ∃ definition c, get? doc.definitions id = some definition ∧ get? doc.build.bodies id = some c ∧
      c.toNode? = some definition.normal := by
  obtain ⟨definition, hdefinition⟩ := Entries.exists_get? hmem
  refine ⟨definition, definition.toCodec, hdefinition, ?_, definition.toNode?_toCodec⟩
  rw [get?_bodies, hdefinition]
  rfl

/-- **Building loses nothing of an accepted document.** Its codec reads back from what is built, but for empty
descriptions; and wherever a reference stands in the document, the body that its codec asks for reads back as the
definition of the reference's own id, with the notes of the definition, whatever bodies were asked for before. So another
accepted document that builds to the same codec and the same bodies of what is reached has the same codec and the same
reached definitions, but for empty descriptions. -/
theorem build_reads_back {data : Data} (accepted : ofData data = .ok doc) :
    doc.build.root.toNode? = some doc.codec.normal ∧
    (∀ notes id, .ref notes id ∈ doc.walk →
      ∃ marks body definition, (Node.ref notes id).toCodec = .recursive marks id body ∧
        get? doc.definitions id = some definition ∧
        ∀ calls, ∃ c, (doc.resolve body (doc.builtAfter calls)).1 = some c ∧ c.toNode? = some definition.normal) ∧
    ∀ data' doc', ofData data' = .ok doc' → doc'.build.root = doc.build.root →
      (∀ id, doc.Reached id → get? doc'.build.bodies id = get? doc.build.bodies id) →
      doc'.codec.normal = doc.codec.normal ∧ (∀ id, doc'.Reached id ↔ doc.Reached id) ∧
      ∀ id, doc.Reached id → ∃ n n', get? doc.definitions id = some n ∧ get? doc'.definitions id = some n' ∧
        n'.normal = n.normal := by
  have closed := closed_of_ofData accepted
  refine ⟨doc.codec.toNode?_toCodec, ?_, ?_⟩
  · intro notes id hmem
    have hid : id ∈ names doc.definitions := closed id (ref_mem_walk_iff.1 ⟨notes, hmem⟩)
    obtain ⟨definition, c, hdefinition, hbody, hread⟩ := body_reads_back hid
    refine ⟨_, id, definition, rfl, hdefinition, fun calls => ⟨c, ?_, hread⟩⟩
    rw [resolve_builtAfter, hbody]
  · intro data' doc' accepted' hroot hbodies
    refine ⟨Node.normal_eq_of_toCodec_eq hroot, reached_iff hroot hbodies, ?_⟩
    intro id hid
    obtain ⟨n, c, hn, hc, hread⟩ := body_reads_back (hid.defined closed)
    have hid' := (reached_iff hroot hbodies id).2 hid
    obtain ⟨n', c', hn', hc', hread'⟩ := body_reads_back (hid'.defined (closed_of_ofData accepted'))
    rw [hbodies id hid, hc] at hc'
    cases hc'
    rw [hread] at hread'
    exact ⟨n, n', hn, hn', (Option.some.inj hread').symm⟩

/-! ### A document that is read back -/

/-- a document with empty descriptions, references with notes of their own, and a definition that nothing reaches -/
def remarked : Document where
  codec := .tuple {} [.ref ⟨some "again", true⟩ "a", .leaf ⟨some "", false⟩ .string,
    .enum {} [.int 1, .bool true, .str "1"]]
  definitions := [("a", .object ⟨some "", true⟩ [("x", .ref {} "b"), ("y", .literal ⟨none, true⟩ .null)]),
    ("b", .array ⟨some "many", false⟩ (.ref ⟨some "loop", false⟩ "a")), ("unused", .ref ⟨some "other", false⟩ "b")]

/-- the same document without its empty descriptions and with another definition that nothing reaches -/
def remarkedAnew : Document where
  codec := .tuple ⟨some "", false⟩ [.ref ⟨some "again", true⟩ "a", .leaf {} .string,
    .enum {} [.int 1, .bool true, .str "1"]]
  definitions := [("unused", .leaf {} .null),
    ("b", .array ⟨some "many", false⟩ (.ref ⟨some "loop", false⟩ "a")),
    ("a", .object ⟨none, true⟩ [("x", .ref {} "b"), ("y", .literal ⟨none, true⟩ .null)])]

theorem remarked_reads_back :
    ofData (Data.ofJson remarked.toJson) = .ok remarked ∧ ofData (Data.ofJson remarkedAnew.toJson) = .ok remarkedAnew ∧
    remarked.build.root.toNode? = some remarked.codec.normal ∧
    (∀ calls, ∃ c, (remarked.resolve "a" (remarked.builtAfter calls)).1 = some c ∧ c.toNode? =
      some (.object ⟨none, true⟩ [("x", .ref {} "b"), ("y", .literal ⟨none, true⟩ .null)])) ∧
    remarkedAnew.codec.normal = remarked.codec.normal ∧ remarkedAnew.Reached "b" := by
  have accepted : ofData (Data.ofJson remarked.toJson) = .ok remarked := rfl
  have accepted' : ofData (Data.ofJson remarkedAnew.toJson) = .ok remarkedAnew := rfl
  obtain ⟨hroot, hrefs, hsame⟩ := build_reads_back accepted
  have hmem : .ref ⟨some "again", true⟩ "a" ∈ remarked.walk := by simp [remarked, walk, Node.walk, Node.walkList]
  obtain ⟨marks, body, definition, hcodec, hdefinition, hcalls⟩ := hrefs _ _ hmem
  cases hcodec
  cases hdefinition
  have hreached : remarked.Reached "b" := by
    refine ⟨"a", List.mem_cons_self, .single ⟨_, rfl, ?_⟩⟩
    simp [Node.refs, Node.refsOfShape]
  have hagree : ∀ id, remarked.Reached id → get? remarkedAnew.build.bodies id = get? remarked.build.bodies id := by
    intro id hid
    have hmem : id ∈ (["a", "b"] : List Text) := by
      apply reached_of_closed _ _ hid
      · decide
      · decide
    simp only [List.mem_cons, List.not_mem_nil, or_false] at hmem
    rcases hmem with rfl | rfl
    · rfl
    · rfl
  obtain ⟨hnormal, hreach, -⟩ := hsame _ _ accepted' rfl hagree
  exact ⟨accepted, accepted', hroot, hcalls, hnormal, (hreach "b").2 hreached⟩

end Document

end CodecCompiler
