/-
Annotations: descriptions and optional flags change nothing in a schema but its annotations.

- `Node.mapNotes` changes the notes of every node of a tree, and heeds which nodes are values of fields.
- `Erasure.Spares`: a change of notes that shows only in what is erased.
- `Node.alike_mapNotes`: by such a change the fragment of a node stays the same once erased, however it is merged.
- `Document.generate_mapNotes`: so does the schema of a document.
- `Document.generate_of_notes`: documents that are the same up to their notes compile to schemas that are the same up
  to annotations. If they differ in descriptions only, so do the schemas; and flags of nodes that are no values of
  fields do not show at all.
-/
import CodecCompiler.Proofs.Comparison
import CodecCompiler.Proofs.Erasure

namespace CodecCompiler

open Entries (names get? mapValues)
open Json (erase eraseFields eraseFields_cons_congr)

namespace Node

/-! ## Changing notes -/

mutual

/-- a node with the notes of all its nodes changed; `field` tells whether it is the value of a field -/
def mapNotes (change : Bool → Notes → Notes) (field : Bool) : Node → Node
  | .leaf n p => .leaf (change field n) p
  | .literal n value => .literal (change field n) value
  | .enum n values => .enum (change field n) values
  | .object n shape => .object (change field n) (mapNotesShape change shape)
  | .record n values => .record (change field n) (mapNotes change false values)
  | .array n items => .array (change field n) (mapNotes change false items)
  | .tuple n items => .tuple (change field n) (mapNotesList change items)
  | .intersection n members => .intersection (change field n) (mapNotesList change members)
  | .union n members => .union (change field n) (mapNotesList change members)
  | .ref n id => .ref (change field n) id

def mapNotesList (change : Bool → Notes → Notes) : List Node → List Node
  | [] => []
  | n :: ns => mapNotes change false n :: mapNotesList change ns

def mapNotesShape (change : Bool → Notes → Notes) : List (Text × Node) → List (Text × Node)
  | [] => []
  | (name, n) :: ns => (name, mapNotes change true n) :: mapNotesShape change ns

end

section

variable {change : Bool → Notes → Notes}

theorem mapNotesList_eq (ns : List Node) : mapNotesList change ns = ns.map (mapNotes change false) := by
  induction ns with
  | nil => rfl
  | cons n ns ih => rw [mapNotesList, ih, List.map_cons]

theorem mapNotesShape_eq (shape : List (Text × Node)) :
    mapNotesShape change shape = mapValues (mapNotes change true) shape := by
  induction shape with
  | nil => rfl
  | cons e shape ih =>
    rw [mapNotesShape, ih]
    rfl

theorem notes_mapNotes (field : Bool) (n : Node) : (n.mapNotes change field).notes = change field n.notes := by
  cases n <;> rfl

theorem ownRefs_mapNotes (field : Bool) (n : Node) : (n.mapNotes change field).ownRefs = n.ownRefs := by
  cases n <;> rfl

theorem children_mapNotes (change : Bool → Notes → Notes) (field : Bool) (n : Node) :
    ∃ below, (n.mapNotes change field).children = n.children.map (mapNotes change below) := by
  cases n with
  | leaf | literal | enum | ref => exact ⟨false, rfl⟩
  | object notes shape =>
    refine ⟨true, ?_⟩
    rw [mapNotes, children, children, mapNotesShape_eq, mapValues, List.map_map, List.map_map]
    rfl
  | record notes n | array notes n => exact ⟨false, rfl⟩
  | tuple notes ns | intersection notes ns | union notes ns => exact ⟨false, mapNotesList_eq ns⟩

theorem refs_mapNotes (field : Bool) (n : Node) : (n.mapNotes change field).refs = n.refs := by
  induction n using induction generalizing field with
  | step n ih =>
    obtain ⟨below, hchildren⟩ := children_mapNotes change field n
    rw [refs_eq, refs_eq n, ownRefs_mapNotes, hchildren, List.flatMap_map]
    exact congrArg _ (List.flatMap_congr fun c hc => ih c hc below)

end

end Node

/-- the change keeps the descriptions, unless descriptions are erased, and it keeps the flags of values of fields,
unless required names are erased -/
structure Erasure.Spares (e : Erasure) (change : Bool → Notes → Notes) : Prop where
  description : e.descriptions = false → ∀ field n, (change field n).description = n.description
  optional : e.required = false → ∀ n, (change true n).optional = n.optional

namespace Node

open Fragment (Shaped Alike eraseFields_noted eraseFields_object)

/-! ## Fragments -/

section

variable {change : Bool → Notes → Notes} {e : Erasure} {allow : Bool}

/-- the same fragment once erased, behind a description that is erased or kept -/
theorem eraseFields_notes (h : e.Spares change) (field : Bool) (notes : Notes) {f f' : Fields}
    (hf : eraseFields e f = eraseFields e f') :
    eraseFields e (Fragment.noted notes.description f) =
      eraseFields e (Fragment.noted (change field notes).description f') := by
  rw [eraseFields_noted, eraseFields_noted, hf]
  split_ifs with he
  · rfl
  · rw [h.description (by simpa using he)]

/-- the fields of a shape are as required as they were, where that is to be seen -/
theorem requiredNames_mapNotes (h : e.Spares change) (he : e.required = false) (shape : List (Text × Node)) :
    requiredNames (mapNotesShape change shape) = requiredNames shape := by
  rw [mapNotesShape_eq]
  unfold requiredNames mapValues
  rw [List.filter_map]
  simp [Function.comp_def, notes_mapNotes, h.optional he, names]

theorem alike_fragments {n n' : Node} {f f' : Fields} (hf : n.fragment allow = .ok f) (hf' : n'.fragment allow = .ok f')
    (herased : eraseFields e f = eraseFields e f') : Alike e allow f f' :=
  ⟨(fragment_shaped hf).mono fun _ _ => trivial, (fragment_shaped hf').mono fun _ _ => trivial, herased⟩

theorem alike_list {ns : List Node} {field : Bool}
    (h : ∀ n ∈ ns, ∀ f f', n.fragment allow = .ok f → (n.mapNotes change field).fragment allow = .ok f' →
      Alike e allow f f') {fs fs' : List Fields} (hfs : fragmentsOfList allow ns = .ok fs)
    (hfs' : fragmentsOfList allow (ns.map (mapNotes change field)) = .ok fs') :
    List.Forall₂ (Alike e allow) fs fs' := by
  rw [fragmentsOfList_eq_ok] at hfs hfs'
  induction hfs generalizing fs' with
  | nil =>
    cases hfs'
    exact .nil
  | cons hfirst _ ih =>
    rw [List.map_cons] at hfs'
    cases hfs' with
    | cons hfirst' hrest' =>
      rw [List.forall_mem_cons] at h
      exact .cons (h.1 _ _ hfirst hfirst') (ih h.2 hrest')

theorem eraseFields_objectFragment (h : e.Spares change) {shape : List (Text × Node)} {fs fs' : Entries Fields}
    (hshape : ∀ n ∈ shape.map (·.2), ∀ f f', n.fragment allow = .ok f →
      (n.mapNotes change true).fragment allow = .ok f' → Alike e allow f f') (hfs : fragmentsOfShape allow shape = .ok fs)
    (hfs' : fragmentsOfShape allow (mapNotesShape change shape) = .ok fs') :
    eraseFields e (objectFragment fs allow (requiredNames shape)) =
      eraseFields e (objectFragment fs' allow (requiredNames (mapNotesShape change shape))) := by
  obtain ⟨gs, hgs, rfl⟩ := fragmentsOfShape_eq_ok.1 hfs
  obtain ⟨gs', hgs', rfl⟩ := fragmentsOfShape_eq_ok.1 hfs'
  have hnodes : (mapNotesShape change shape).map (·.2) = (shape.map (·.2)).map (mapNotes change true) := by
    rw [mapNotesShape_eq, mapValues, List.map_map, List.map_map]
    rfl
  have hnames : names (mapNotesShape change shape) = names shape := by
    rw [mapNotesShape_eq, Entries.names_mapValues]
  rw [hnodes] at hgs'
  have herased := Fragment.erased_all (alike_list hshape hgs hgs')
  have hproperties : ∀ hs : List Fields, eraseFields e (mapValues Json.obj ((names shape).zip hs)) =
      mapValues Json.obj ((names shape).zip (hs.map (eraseFields e))) := by
    intro hs
    rw [Json.eraseFields_schemas]
    · simp only [Entries.mapValues_zip, List.map_map]
      rfl
    · intro field hfield
      obtain ⟨p, -, rfl⟩ := List.mem_map.1 hfield
      exact ⟨p.2, rfl⟩
  refine eraseFields_object ?_ fun he => ?_
  · rw [hnames, hproperties, hproperties, herased]
  · rw [requiredNames_mapNotes h he]

/-- what a kind prescribes is the same once erased, when the fragments of the nodes below are -/
theorem erased_prescription (h : e.Spares change) {n : Node} {field : Bool}
    (hbelow : ∀ c ∈ n.children, ∀ below f f', c.fragment allow = .ok f →
      (c.mapNotes change below).fragment allow = .ok f' → Alike e allow f f') {g g' : Fields}
    (hg : n.prescription allow = .ok g) (hg' : (n.mapNotes change field).prescription allow = .ok g') :
    eraseFields e g = eraseFields e g' := by
  have hlist : ∀ {ns : List Node}, (∀ c ∈ ns, c ∈ n.children) → ∀ {fs fs' : List Fields},
      fragmentsOfList allow ns = .ok fs → fragmentsOfList allow (mapNotesList change ns) = .ok fs' →
        List.Forall₂ (Alike e allow) fs fs' := by
    intro ns hns fs fs' hfs hfs'
    rw [mapNotesList_eq] at hfs'
    exact alike_list (fun c hc => hbelow c (hns c hc) false) hfs hfs'
  cases n with
  | leaf notes p => cases p <;> exact congrArg _ (Except.ok.inj (hg.symm.trans hg'))
  | literal | enum | ref => exact congrArg _ (Except.ok.inj (hg.symm.trans hg'))
  | object notes shape =>
    obtain ⟨fs, hfs, hg⟩ := bind_eq_ok_iff.1 hg
    obtain ⟨fs', hfs', hg'⟩ := bind_eq_ok_iff.1 hg'
    cases pure_eq_ok_iff.1 hg
    cases pure_eq_ok_iff.1 hg'
    exact eraseFields_objectFragment h (fun c hc => hbelow c hc true) hfs hfs'
  | record notes values =>
    obtain ⟨v, hv, hg⟩ := bind_eq_ok_iff.1 hg
    obtain ⟨v', hv', hg'⟩ := bind_eq_ok_iff.1 hg'
    cases pure_eq_ok_iff.1 hg
    cases pure_eq_ok_iff.1 hg'
    refine eraseFields_cons_congr rfl rfl (eraseFields_cons_congr rfl ?_ rfl)
    exact congrArg Json.obj (hbelow values List.mem_cons_self false v v' hv hv').erased
  | array notes items =>
    obtain ⟨v, hv, hg⟩ := bind_eq_ok_iff.1 hg
    obtain ⟨v', hv', hg'⟩ := bind_eq_ok_iff.1 hg'
    cases pure_eq_ok_iff.1 hg
    cases pure_eq_ok_iff.1 hg'
    refine eraseFields_cons_congr rfl rfl (eraseFields_cons_congr rfl ?_ rfl)
    exact congrArg Json.obj (hbelow items List.mem_cons_self false v v' hv hv').erased
  | tuple notes items =>
    obtain ⟨fs, hfs, hg⟩ := bind_eq_ok_iff.1 hg
    obtain ⟨fs', hfs', hg'⟩ := bind_eq_ok_iff.1 hg'
    cases pure_eq_ok_iff.1 hg
    cases pure_eq_ok_iff.1 hg'
    have hall := hlist (fun _ hc => hc) hfs hfs'
    refine eraseFields_cons_congr rfl rfl (eraseFields_cons_congr rfl ?_ ?_)
    · exact (Fragment.erase_exposed fs).trans
        ((congrArg _ (Fragment.erased_all hall)).trans (Fragment.erase_exposed fs').symm)
    · rw [hall.length_eq]
  | intersection notes members =>
    obtain ⟨fs, hfs, hg⟩ := bind_eq_ok_iff.1 hg
    obtain ⟨fs', hfs', hg'⟩ := bind_eq_ok_iff.1 hg'
    obtain ⟨merged, merged', hmerged, hmerged', halike⟩ :=
      (Fragment.respects_alike e allow).intersect (hlist (fun _ hc => hc) hfs hfs')
    cases hg.symm.trans hmerged
    cases hg'.symm.trans hmerged'
    exact halike.erased
  | union notes members =>
    obtain ⟨fs, hfs, hg⟩ := bind_eq_ok_iff.1 hg
    obtain ⟨fs', hfs', hg'⟩ := bind_eq_ok_iff.1 hg'
    cases pure_eq_ok_iff.1 hg
    cases pure_eq_ok_iff.1 hg'
    exact ((Fragment.respects_alike e allow).anyOf fs fs' (hlist (fun _ hc => hc) hfs hfs')).erased

/-- **Notes change nothing in the fragment of a node but its annotations**, whatever is merged on the way. -/
theorem alike_mapNotes (h : e.Spares change) {n : Node} {field : Bool} {f f' : Fields}
    (hf : n.fragment allow = .ok f) (hf' : (n.mapNotes change field).fragment allow = .ok f') : Alike e allow f f' := by
  refine alike_fragments hf hf' ?_
  induction n using induction generalizing field f f' with
  | step n ih =>
    obtain ⟨g, hg, rfl⟩ := fragment_eq_ok.1 hf
    obtain ⟨g', hg', rfl⟩ := fragment_eq_ok.1 hf'
    rw [notes_mapNotes]
    refine eraseFields_notes h field n.notes (erased_prescription h (fun c hc below f f' hf hf' => ?_) hg hg')
    exact alike_fragments hf hf' (ih c hc hf hf')

end

end Node

namespace Document

/-! ## Documents -/

/-- a document with the notes of all its nodes changed -/
def mapNotes (change : Bool → Notes → Notes) (doc : Document) : Document where
  codec := doc.codec.mapNotes change false
  definitions := mapValues (Node.mapNotes change false) doc.definitions

section

variable {doc doc' : Document} {options : Options} {change : Bool → Notes → Notes} {e : Erasure}

theorem Closed.mapNotes (closed : doc.Closed) : (doc.mapNotes change).Closed := by
  intro id hid
  have hrefs : (doc.mapNotes change).refs = doc.refs := by
    unfold Document.mapNotes refs
    rw [Node.refs_mapNotes, Node.refsOfShape_eq, Node.refsOfShape_eq, mapValues, List.map_map, List.flatMap_map]
    simp [Node.refs_mapNotes, List.flatMap_map]
  rw [hrefs] at hid
  rw [Document.mapNotes, Entries.names_mapValues]
  exact closed id hid

theorem compares_mapNotes (change : Bool → Notes → Notes) (doc : Document) :
    doc.Compares (doc.mapNotes change) fun n n' => ∃ field, n' = n.mapNotes change field where
  codec := ⟨false, rfl⟩
  ownRefs := by
    rintro n _ ⟨field, rfl⟩
    rw [Node.ownRefs_mapNotes]
  children := by
    rintro n _ ⟨field, rfl⟩
    obtain ⟨below, hchildren⟩ := Node.children_mapNotes change field n
    rw [hchildren, List.forall₂_map_right_iff]
    exact List.forall₂_same.2 fun c _ => ⟨below, rfl⟩
  definition := by
    rintro n _ - id - m hm
    refine ⟨m.mapNotes change false, ?_, false, rfl⟩
    rw [mapNotes, Entries.get?_mapValues, hm]
    rfl

/-- **Changing notes changes nothing in a schema but its annotations.** -/
theorem generate_mapNotes (h : e.Spares change) (closed : doc.Closed) (hplain : options.handlers = []) :
    ∃ schema schema' : Fields, (generate doc.build options).1 = .ok schema ∧
      (generate (doc.mapNotes change).build options).1 = .ok schema' ∧
      eraseFields e schema = eraseFields e schema' := by
  obtain ⟨top, top', definitions, definitions', resolved, htop, htop', hgenerate, hgenerate', hpaired⟩ :=
    (compares_mapNotes change doc).generate_paired closed closed.mapNotes hplain
  have hdefinitions : eraseFields e definitions = eraseFields e definitions' := by
    clear hgenerate hgenerate'
    induction hpaired with
    | nil => rfl
    | @cons entry entry' _ _ hfirst _ ih =>
      obtain ⟨hid, n, _, f, f', ⟨field, rfl⟩, hf, hf', hvalue, hvalue'⟩ := hfirst
      obtain ⟨id, value⟩ := entry
      obtain ⟨id', value'⟩ := entry'
      obtain rfl : id = id' := hid
      obtain rfl : value = .obj f := hvalue
      obtain rfl : value' = .obj f' := hvalue'
      exact eraseFields_cons_congr rfl (congrArg Json.obj (Node.alike_mapNotes h hf hf').erased) ih
  refine ⟨("definitions", .obj definitions) :: top, ("definitions", .obj definitions') :: top', by rw [hgenerate],
    by rw [hgenerate'], eraseFields_cons_congr rfl ?_ ?_⟩
  · exact congrArg Json.obj hdefinitions
  · exact (Node.alike_mapNotes h htop htop').erased

/-- documents that a change of notes makes the same have the same schema up to what is erased -/
theorem erased_of_mapNotes (h : e.Spares change) (closed : doc.Closed) (closed' : doc'.Closed)
    (hplain : options.handlers = []) (hsame : doc.mapNotes change = doc'.mapNotes change) {schema schema' : Fields}
    (hschema : (generate doc.build options).1 = .ok schema) (hschema' : (generate doc'.build options).1 = .ok schema') :
    eraseFields e schema = eraseFields e schema' := by
  obtain ⟨s, t, hs, ht, hst⟩ := generate_mapNotes h closed hplain
  obtain ⟨s', t', hs', ht', hst'⟩ := generate_mapNotes h closed' hplain
  rw [← hsame] at ht'
  cases ht.symm.trans ht'
  cases hschema.symm.trans hs
  cases hschema'.symm.trans hs'
  rw [hst, hst']

end

end Document

/-! ## Kinds of notes -/

namespace Notes

/-- no notes at all -/
def removed (_ : Bool) (_ : Notes) : Notes := {}

/-- the notes without their description -/
def undescribed (_ : Bool) (n : Notes) : Notes := { n with description := none }

/-- the notes with their flag where it is the flag of a field's value -/
def flaggedFields (field : Bool) (n : Notes) : Notes := { n with optional := field && n.optional }

end Notes

theorem Erasure.spares_removed : (⟨true, true⟩ : Erasure).Spares Notes.removed := ⟨nofun, nofun⟩

theorem Erasure.spares_undescribed : (⟨true, false⟩ : Erasure).Spares Notes.undescribed := ⟨nofun, fun _ _ => rfl⟩

theorem Erasure.spares_flaggedFields : (⟨false, false⟩ : Erasure).Spares Notes.flaggedFields :=
  ⟨fun _ _ _ => rfl, fun _ n => Bool.true_and n.optional⟩

namespace Document

/-- a document with notes on nodes of every role: values of fields, members, branches, items, and definitions that lead
back to themselves -/
def praised : Document where
  codec := .object ⟨some "top", true⟩ [("required", .array ⟨some "a list", true⟩ (.ref ⟨some "item", true⟩ "tree")),
    ("description", .intersection {} [.object ⟨some "first", true⟩ [("left", .leaf ⟨some "", true⟩ .string)],
      .union ⟨none, true⟩ [.ref ⟨some "branch", true⟩ "tree",
        .object {} [("right", .leaf ⟨some "second", false⟩ .null)]]])]
  definitions := [("tree", .record ⟨some "nested", true⟩ (.tuple ⟨some "pair", true⟩ [.ref ⟨none, true⟩ "tree"]))]

variable {doc doc' : Document} {options : Options}

/-- **Notes are no structure.** Two accepted documents that are the same once their notes are removed compile to schemas
that are the same once descriptions and lists of required names are erased. Where they are the same once descriptions
are removed, it is enough to erase descriptions; where they are the same but for flags of nodes that are no values of
fields, the schemas are the same. -/
theorem generate_of_notes {data data' : Data} (accepted : ofData data = .ok doc)
    (accepted' : ofData data' = .ok doc') (hplain : options.handlers = []) :
    ∃ schema schema' : Fields, (generate doc.build options).1 = .ok schema ∧
      (generate doc'.build options).1 = .ok schema' ∧
      (doc.mapNotes Notes.removed = doc'.mapNotes Notes.removed →
        erase ⟨true, true⟩ (.obj schema) = erase ⟨true, true⟩ (.obj schema')) ∧
      (doc.mapNotes Notes.undescribed = doc'.mapNotes Notes.undescribed →
        erase ⟨true, false⟩ (.obj schema) = erase ⟨true, false⟩ (.obj schema')) ∧
      (doc.mapNotes Notes.flaggedFields = doc'.mapNotes Notes.flaggedFields → schema = schema') := by
  have closed := closed_of_ofData accepted
  have closed' := closed_of_ofData accepted'
  obtain ⟨definitions, top, -, hschema, -⟩ := exists_schema closed hplain
  obtain ⟨definitions', top', -, hschema', -⟩ := exists_schema closed' hplain
  refine ⟨_, _, hschema, hschema', fun hsame => ?_, fun hsame => ?_, fun hsame => ?_⟩
  · exact congrArg Json.obj (erased_of_mapNotes Erasure.spares_removed closed closed' hplain hsame hschema hschema')
  · exact congrArg Json.obj (erased_of_mapNotes Erasure.spares_undescribed closed closed' hplain hsame hschema hschema')
  · have herased := erased_of_mapNotes Erasure.spares_flaggedFields closed closed' hplain hsame hschema hschema'
    rwa [Json.eraseFields_nothing, Json.eraseFields_nothing] at herased

theorem praised_in_fewer_words :
    (∃ schema schema' : Fields, (generate praised.build ⟨.decoded, [], true⟩).1 = .ok schema ∧
      (generate (praised.mapNotes Notes.removed).build ⟨.decoded, [], true⟩).1 = .ok schema' ∧
      erase ⟨true, true⟩ (.obj schema) = erase ⟨true, true⟩ (.obj schema')) ∧
    (∃ schema schema' : Fields, (generate praised.build ⟨.decoded, [], true⟩).1 = .ok schema ∧
      (generate (praised.mapNotes Notes.undescribed).build ⟨.decoded, [], true⟩).1 = .ok schema' ∧
      erase ⟨true, false⟩ (.obj schema) = erase ⟨true, false⟩ (.obj schema')) ∧
    ∃ schema : Fields, (generate praised.build ⟨.decoded, [], true⟩).1 = .ok schema ∧
      (generate (praised.mapNotes Notes.flaggedFields).build ⟨.decoded, [], true⟩).1 = .ok schema := by
  have haccepted : ofData (Data.ofJson praised.toJson) = .ok praised := rfl
  have hremoved : ofData (Data.ofJson (praised.mapNotes Notes.removed).toJson) =
    .ok (praised.mapNotes Notes.removed) := rfl
  have hundescribed : ofData (Data.ofJson (praised.mapNotes Notes.undescribed).toJson) =
    .ok (praised.mapNotes Notes.undescribed) := rfl
  have hflagged : ofData (Data.ofJson (praised.mapNotes Notes.flaggedFields).toJson) =
    .ok (praised.mapNotes Notes.flaggedFields) := rfl
  have hplain : (⟨.decoded, [], true⟩ : Options).handlers = [] := rfl
  refine ⟨?_, ?_, ?_⟩
  · obtain ⟨schema, schema', hschema, hschema', herased, -, -⟩ := generate_of_notes haccepted hremoved hplain
    exact ⟨schema, schema', hschema, hschema', herased rfl⟩
  · obtain ⟨schema, schema', hschema, hschema', -, herased, -⟩ := generate_of_notes haccepted hundescribed hplain
    exact ⟨schema, schema', hschema, hschema', herased rfl⟩
  · obtain ⟨schema, schema', hschema, hschema', -, -, hsame⟩ := generate_of_notes haccepted hflagged hplain
    obtain rfl : schema = schema' := hsame rfl
    exact ⟨schema, hschema, hschema'⟩

end Document

end CodecCompiler
