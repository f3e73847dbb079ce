/-
Dangling references: which of them validation reports, and when.

- `Node.walk`, `Document.walk`: the nodes in preorder; those of the codec come before those of the definitions.
- `Node.Writes.ids`: the references of what is written name ids.
- `Document.refs_eq_walk`: the references of a document stand in the order of its walk.
- `Document.firstDangling?_eq_some`: the first reference without a definition in that order.
- `Document.issues_of_no_document`, `Document.issues_of_writes`: the issues of values that write no document, and of those
  that do.
- `Document.reports_first_dangling`: issues with the parts of a document hide its references; without such issues, the
  first dangling reference of the walk is the only issue.
-/
import CodecCompiler.Proofs.Outcomes

namespace CodecCompiler

open Entries (names get?)

namespace Node

/-! ## Preorder -/

mutual

/-- the nodes of a tree in preorder -/
def walk : Node → List Node
  | .leaf notes p => [.leaf notes p]
  | .literal notes value => [.literal notes value]
  | .enum notes values => [.enum notes values]
  | .ref notes id => [.ref notes id]
  | .object notes shape => .object notes shape :: walkShape shape
  | .record notes n => .record notes n :: walk n
  | .array notes n => .array notes n :: walk n
  | .tuple notes ns => .tuple notes ns :: walkList ns
  | .intersection notes ns => .intersection notes ns :: walkList ns
  | .union notes ns => .union notes ns :: walkList ns

def walkList : List Node → List Node
  | [] => []
  | n :: ns => walk n ++ walkList ns

def walkShape : List (Text × Node) → List Node
  | [] => []
  | (_, n) :: ns => walk n ++ walkShape ns

end

theorem walkList_eq (ns : List Node) : walkList ns = ns.flatMap walk := by
  induction ns with
  | nil => rfl
  | cons n ns ih => rw [walkList, ih, List.flatMap_cons]

theorem walkShape_eq (shape : List (Text × Node)) : walkShape shape = (shape.map (·.2)).flatMap walk := by
  induction shape with
  | nil => rfl
  | cons e shape ih => rw [walkShape, ih, List.map_cons, List.flatMap_cons]

/-- a node comes before what its children are walked through in order -/
theorem walk_eq (n : Node) : n.walk = n :: n.children.flatMap walk := by
  cases n with
  | leaf | literal | enum | ref => rfl
  | object notes shape => simp only [walk, children, walkShape_eq]
  | record notes n | array notes n => simp [walk, children]
  | tuple notes ns | intersection notes ns | union notes ns => simp only [walk, children, walkList_eq]

theorem refs_eq_walk (n : Node) : n.refs = n.walk.flatMap ownRefs := by
  induction n using induction with
  | step n ih =>
    have hchildren : n.children.flatMap refs = (n.children.flatMap walk).flatMap ownRefs := by
      rw [List.flatMap_assoc]
      exact List.flatMap_congr ih
    rw [refs_eq, walk_eq, List.flatMap_cons, hchildren]

theorem refsOfShape_eq_walk (shape : List (Text × Node)) : refsOfShape shape = (walkShape shape).flatMap ownRefs := by
  rw [refsOfShape_eq, walkShape_eq, List.flatMap_assoc]
  exact List.flatMap_congr fun n _ => refs_eq_walk n

/-- the first id of the references among nodes that has a property -/
theorem find?_ownRefs {p : Text → Bool} {ns : List Node} {id : Text} (h : (ns.flatMap ownRefs).find? p = some id) :
    ∃ before notes after, ns = before ++ .ref notes id :: after ∧ p id = true ∧
      ∀ notes other, .ref notes other ∈ before → p other = false := by
  induction ns with
  | nil => cases h
  | cons n ns ih =>
    have hlater : n.ownRefs.find? p = none → (ns.flatMap ownRefs).find? p = some id →
        ∃ before notes after, n :: ns = before ++ .ref notes id :: after ∧ p id = true ∧
          ∀ notes other, .ref notes other ∈ before → p other = false := by
      intro hfirst hrest
      obtain ⟨before, notes, after, rfl, hid, hbefore⟩ := ih hrest
      refine ⟨n :: before, notes, after, rfl, hid, fun notes other hother => ?_⟩
      rcases List.mem_cons.1 hother with rfl | hother
      · simpa [ownRefs] using hfirst
      · exact hbefore notes other hother
    rw [List.flatMap_cons, List.find?_append] at h
    cases n with
    | ref notes own =>
      by_cases hown : p own = true
      · have heq : own = id := by simpa [ownRefs, hown] using h
        refine ⟨[], notes, ns, by rw [heq]; rfl, heq ▸ hown, fun _ _ hother => absurd hother List.not_mem_nil⟩
      · have hnone : (ref notes own).ownRefs.find? p = none := by simp [ownRefs, hown]
        rw [hnone] at h
        exact hlater hnone h
    | _ => exact hlater rfl h

/-! ## Ids -/

variable {IsId : Text → Prop}

theorem WritesEach.written {vs : List Json} {ns : List Node} (h : WritesEach IsId vs ns) :
    ∀ n ∈ ns, ∃ v, Writes IsId v n := by
  induction ns generalizing vs with
  | nil => exact fun n hn => absurd hn List.not_mem_nil
  | cons n ns ih =>
    cases h with
    | cons hfirst hrest => exact List.forall_mem_cons.2 ⟨⟨_, hfirst⟩, ih hrest⟩

theorem WritesNamed.written {fields : Fields} {shape : List (Text × Node)} (h : WritesNamed IsId fields shape) :
    ∀ n ∈ shape.map (·.2), ∃ v, Writes IsId v n := by
  induction shape generalizing fields with
  | nil => exact fun n hn => absurd hn List.not_mem_nil
  | cons e shape ih =>
    cases h with
    | cons hfirst hrest => exact List.forall_mem_cons.2 ⟨⟨_, hfirst⟩, ih hrest⟩

theorem WritesShape.written {field : Option Json} {shape : List (Text × Node)} (h : WritesShape IsId field shape) :
    ∀ n ∈ shape.map (·.2), ∃ v, Writes IsId v n := by
  cases h with
  | absent => exact fun n hn => absurd hn List.not_mem_nil
  | given hnamed => exact hnamed.written

theorem WritesItems.written {field : Option Json} {ns : List Node} (h : WritesItems IsId field ns) :
    ∀ n ∈ ns, ∃ v, Writes IsId v n := by
  cases h with
  | absent => exact fun n hn => absurd hn List.not_mem_nil
  | given heach => exact heach.written

/-- the nodes below one that is written are written, and so is its id -/
theorem Writes.parts {v : Json} {n : Node} (h : Writes IsId v n) :
    (∀ id ∈ n.ownRefs, IsId id) ∧ ∀ c ∈ n.children, ∃ w, Writes IsId w c := by
  have hno : ∀ id ∈ ([] : List Text), IsId id := fun id hid => absurd hid List.not_mem_nil
  have hleaf : ∀ c ∈ ([] : List Node), ∃ w, Writes IsId w c := fun c hc => absurd hc List.not_mem_nil
  cases h with
  | node head own =>
    cases own with
    | leaf | literal | enum => exact ⟨hno, hleaf⟩
    | object hshape => exact ⟨hno, hshape.written⟩
    | record _ hv | array _ hv => exact ⟨hno, List.forall_mem_singleton.2 ⟨_, hv⟩⟩
    | tuple hitems => exact ⟨hno, hitems.written⟩
    | intersection _ _ heach | union _ _ heach => exact ⟨hno, heach.written⟩
    | ref _ hid => exact ⟨List.forall_mem_singleton.2 hid, hleaf⟩

/-- **The references of what is written name ids.** -/
theorem Writes.ids {v : Json} {n : Node} (h : Writes IsId v n) : ∀ id ∈ n.refs, IsId id := by
  induction n using induction generalizing v with
  | step n ih =>
    obtain ⟨hown, hchildren⟩ := h.parts
    intro id hid
    rw [refs_eq] at hid
    rcases List.mem_append.1 hid with hid | hid
    · exact hown id hid
    · obtain ⟨c, hc, hid⟩ := List.mem_flatMap.1 hid
      obtain ⟨w, hw⟩ := hchildren c hc
      exact ih c hc hw id hid

end Node

namespace Document

variable {v : Json} {doc : Document}

/-! ## Documents -/

/-- the nodes of a document: those of its codec, and behind them those of each definition -/
def walk (doc : Document) : List Node := doc.codec.walk ++ Node.walkShape doc.definitions

theorem refs_eq_walk (doc : Document) : doc.refs = doc.walk.flatMap Node.ownRefs := by
  unfold refs walk
  rw [List.flatMap_append, Node.refs_eq_walk, Node.refsOfShape_eq_walk]

theorem ref_mem_walk_iff {id : Text} : (∃ notes, .ref notes id ∈ doc.walk) ↔ id ∈ doc.refs := by
  rw [refs_eq_walk, List.mem_flatMap]
  constructor
  · rintro ⟨notes, hmem⟩
    exact ⟨_, hmem, List.mem_singleton_self id⟩
  · rintro ⟨n, hn, hid⟩
    cases n with
    | ref notes own =>
      rw [List.mem_singleton.1 hid]
      exact ⟨notes, hn⟩
    | _ => exact absurd hid List.not_mem_nil

theorem Writes.ids (h : Writes Text.IsId v doc) : ∀ id ∈ doc.refs, id.IsId := by
  cases h with
  | document _ _ hcodec hdefinitions =>
    intro id hid
    rcases List.mem_append.1 hid with hid | hid
    · exact hcodec.ids id hid
    · rw [Node.refsOfShape_eq] at hid
      obtain ⟨n, hn, hid⟩ := List.mem_flatMap.1 hid
      obtain ⟨w, hw⟩ := hdefinitions.written n hn
      exact hw.ids id hid

theorem firstDangling?_eq_some {id : Text} (h : doc.firstDangling? = some id) :
    ∃ before notes after, doc.walk = before ++ .ref notes id :: after ∧ id ∉ names doc.definitions ∧
      ∀ notes other, .ref notes other ∈ before → other ∈ names doc.definitions := by
  have hdefined : ∀ other, (!Entries.has doc.definitions other) = false ↔ other ∈ names doc.definitions := by
    intro other
    rw [Bool.not_eq_false', Entries.has_iff]
  unfold firstDangling? at h
  rw [refs_eq_walk] at h
  obtain ⟨before, notes, after, hwalk, hid, hbefore⟩ := Node.find?_ownRefs h
  refine ⟨before, notes, after, hwalk, fun hmem => ?_, fun notes other hother => ?_⟩
  · rw [(hdefined id).2 hmem] at hid
    cases hid
  · exact (hdefined other).1 (hbefore notes other hother)

/-- what is checked of a value that writes a document: its references -/
theorem ofJson_of_writes (h : Writes Text.IsId v doc) : ofJson v = checkRefs doc := by
  have hshape : shapeOfData (Data.ofJson v) = .ok doc := shapeOfData_eq_ok_iff.2 h
  unfold ofJson ofData
  rw [hshape]

/-- a value that writes no document has issues, none of them about a reference -/
theorem issues_of_no_document (h : ¬ ∃ doc, Writes Text.IsId v doc) :
    ∃ found, ofJson v = .error found ∧ found ≠ [] ∧ ∀ issue ∈ found, issue.problem.isStructural = true := by
  have hgives := shapeOfData_gives (Data.ofJson v)
  cases hshape : shapeOfData (Data.ofJson v) with
  | ok doc => exact absurd ⟨doc, shapeOfData_eq_ok_iff.1 hshape⟩ h
  | error found =>
    rw [hshape] at hgives
    have hissues : ofJson v = .error found := by
      unfold ofJson ofData
      rw [hshape]
    cases hgives with
    | issues hsome hall => exact ⟨found, hissues, hsome, hall⟩

theorem not_closed_iff : ¬ doc.Closed ↔ ∃ notes id, .ref notes id ∈ doc.walk ∧ id ∉ names doc.definitions := by
  simp only [Closed, not_forall, exists_prop]
  constructor
  · rintro ⟨id, hmem, hid⟩
    obtain ⟨notes, hmem⟩ := ref_mem_walk_iff.2 hmem
    exact ⟨notes, id, hmem, hid⟩
  · rintro ⟨notes, id, hmem, hid⟩
    exact ⟨id, ref_mem_walk_iff.1 ⟨notes, hmem⟩, hid⟩

/-- a value that writes a document is refused where the document is not closed -/
theorem refused_iff (h : Writes Text.IsId v doc) : (∃ found, ofJson v = .error found) ↔ ¬ doc.Closed := by
  rw [ofJson_of_writes h, ← firstDangling?_eq_none_iff]
  unfold checkRefs
  cases hdangling : doc.firstDangling? with
  | none => simp
  | some id => exact iff_of_true ⟨_, rfl⟩ (Option.some_ne_none id)

/-- the only issue of a value that writes a document is the first dangling reference of its walk -/
theorem issues_of_writes (h : Writes Text.IsId v doc) {found : List Issue} (hfound : ofJson v = .error found) :
    ∃ before notes after, ∃ s : String, doc.walk = before ++ .ref notes s :: after ∧
      (s : Text) ∉ names doc.definitions ∧
      (∀ notes id, .ref notes id ∈ before → id ∈ names doc.definitions) ∧ found = [⟨[], .dangling s⟩] := by
  rw [ofJson_of_writes h] at hfound
  unfold checkRefs at hfound
  cases hdangling : doc.firstDangling? with
  | none =>
    rw [hdangling] at hfound
    cases hfound
  | some id =>
    rw [hdangling] at hfound
    obtain ⟨before, notes, after, hwalk, hid, hbefore⟩ := firstDangling?_eq_some hdangling
    have href : id ∈ doc.refs := ref_mem_walk_iff.1 ⟨notes, by rw [hwalk]; simp⟩
    obtain ⟨s, -, rfl⟩ := h.ids id href
    dsimp only at hfound
    rw [Text.lossy_ofString] at hfound
    cases hfound
    exact ⟨before, notes, after, s, hwalk, hid, hbefore, rfl⟩

/-- **Of the references only the first dangling one is reported.** A value that writes no document has issues, none of
them about a reference. A value that writes a document is refused exactly when some reference of its nodes has no
definition, and the first such reference, the codec walked in preorder before the definitions, is the only issue: one of
the whole document. -/
theorem reports_first_dangling (v : Json) :
    ((¬ ∃ doc, Writes Text.IsId v doc) →
      ∃ found, ofJson v = .error found ∧ found ≠ [] ∧ ∀ issue ∈ found, issue.problem.isStructural = true) ∧
    ∀ doc, Writes Text.IsId v doc →
      ((∃ found, ofJson v = .error found) ↔ ∃ notes id, .ref notes id ∈ doc.walk ∧ id ∉ names doc.definitions) ∧
      ∀ found, ofJson v = .error found →
        ∃ before notes after, ∃ s : String, doc.walk = before ++ .ref notes s :: after ∧
          (s : Text) ∉ names doc.definitions ∧
          (∀ notes id, .ref notes id ∈ before → id ∈ names doc.definitions) ∧ found = [⟨[], .dangling s⟩] := by
  refine ⟨issues_of_no_document, fun doc hdoc => ⟨?_, fun found hfound => issues_of_writes hdoc hfound⟩⟩
  rw [refused_iff hdoc, not_closed_iff]

/-- a definition that nothing refers to has its references checked too, and one issue is enough -/
example : ofJson (.obj [("codec", .obj [("type", .str "any")]), ("definitions", .obj [("unused", .obj
    [("type", .str "tuple"), ("items", .arr [.obj [("type", .str "ref"), ("id", .str "unused")],
      .obj [("type", .str "ref"), ("id", .str "a")], .obj [("type", .str "ref"), ("id", .str "b")]])])])]) =
    .error [⟨[], .dangling "a"⟩] := rfl

end Document

end CodecCompiler
