/-
Dumps of documents: what validation makes of a value is a normal form of it.

- `Rearranged`: one value is another but for the order of the fields of its document and node objects.
- `Node.keeps`: a rearranged value writes the same nodes; `Document.Writes.rearranged`: so it does documents.
- `Document.dump_is_normal`: the dump of an accepted document is accepted as that document, so is every rearranged form
  of the value that it was read from, and all of them compile to the same.
-/
import CodecCompiler.Proofs.Outcomes

namespace CodecCompiler

open Entries (names get?)

/-! ## Order of fields -/

/-- what a value stands for in a document -/
inductive Place where
  | document
  /-- a node, or a list of them -/
  | nodes
  /-- named nodes: a shape, or the definitions -/
  | named
  deriving DecidableEq, Repr

/-- the place of the value of a field -/
def Place.inside : Place → Text → Place
  | .document, name => if name = "definitions" then .named else .nodes
  | .nodes, name => if name = "shape" then .named else .nodes
  | .named, _ => .nodes

mutual

/-- the same value, but for the order of the fields of documents and nodes; named nodes keep theirs -/
inductive Rearranged : Place → Json → Json → Prop
  | same (place : Place) (v : Json) : Rearranged place v v
  | items {vs ws : List Json} : RearrangedItems vs ws → Rearranged .nodes (.arr vs) (.arr ws)
  | named {fields others : Fields} : RearrangedFields .named fields others →
      Rearranged .named (.obj fields) (.obj others)
  | object {place : Place} {fields inner others : Fields} : place ≠ .named → RearrangedFields place fields inner →
      inner.Perm others → Rearranged place (.obj fields) (.obj others)

inductive RearrangedItems : List Json → List Json → Prop
  | nil : RearrangedItems [] []
  | cons {v w : Json} {vs ws : List Json} : Rearranged .nodes v w → RearrangedItems vs ws →
      RearrangedItems (v :: vs) (w :: ws)

inductive RearrangedFields : Place → Fields → Fields → Prop
  | nil (place : Place) : RearrangedFields place [] []
  | cons {place : Place} {name : Text} {v w : Json} {fields others : Fields} : Rearranged (place.inside name) v w →
      RearrangedFields place fields others → RearrangedFields place ((name, v) :: fields) ((name, w) :: others)

end

section

variable {place : Place} {fields others : Fields}

theorem RearrangedFields.refl (place : Place) (fields : Fields) : RearrangedFields place fields fields := by
  induction fields with
  | nil => exact .nil place
  | cons e fields ih => exact .cons (.same _ e.2) ih

theorem RearrangedFields.names_eq (h : RearrangedFields place fields others) : names others = names fields := by
  induction fields generalizing others with
  | nil =>
    cases h
    rfl
  | cons e fields ih =>
    obtain ⟨name, v⟩ := e
    cases h with
    | cons _ hrest => exact congrArg (name :: ·) (ih hrest)

theorem RearrangedFields.get? (h : RearrangedFields place fields others) (name : Text) :
    Option.Rel (Rearranged (place.inside name)) (get? fields name) (get? others name) := by
  induction fields generalizing others with
  | nil =>
    cases h
    exact .none
  | cons e fields ih =>
    cases h with
    | cons hfirst hrest =>
      rw [Entries.get?_cons, Entries.get?_cons]
      split_ifs with hname
      · exact .some (hname ▸ hfirst)
      · exact ih hrest

/-- the fields of a rearranged object have its names, and rearranged values under them -/
theorem Rearranged.members {w : Json} (h : Rearranged place (.obj fields) w) (hplace : place ≠ .named)
    (hdistinct : Entries.Distinct fields) : ∃ others, w = .obj others ∧
      (∀ name, name ∈ names others ↔ name ∈ names fields) ∧
      ∀ name, Option.Rel (Rearranged (place.inside name)) (Entries.get? fields name) (Entries.get? others name) := by
  cases h with
  | same => exact ⟨fields, rfl, fun _ => Iff.rfl, fun name => (RearrangedFields.refl place fields).get? name⟩
  | named => exact absurd rfl hplace
  | @object _ _ inner others _ hinner hperm =>
    have hnames := hinner.names_eq
    have hinnerDistinct : Entries.Distinct inner := by
      unfold Entries.Distinct
      rw [hnames]
      exact hdistinct
    refine ⟨others, rfl, fun name => ?_, fun name => ?_⟩
    · rw [← hnames]
      exact (hperm.map _).mem_iff.symm
    · rw [← Entries.get?_perm hperm hinnerDistinct name]
      exact hinner.get? name

/-- scalars are not rearranged -/
theorem Rearranged.scalar {value : Scalar} {w : Json} (h : Rearranged place value.toJson w) : w = value.toJson := by
  cases value <;> cases h <;> rfl

theorem RearrangedItems.scalars {values : List Scalar} {ws : List Json}
    (h : RearrangedItems (values.map Scalar.toJson) ws) : ws = values.map Scalar.toJson := by
  induction values generalizing ws with
  | nil =>
    cases h
    rfl
  | cons value values ih =>
    cases h with
    | cons hfirst hrest => rw [hfirst.scalar, ih hrest, List.map_cons]

theorem Rearranged.scalars {values : List Scalar} {w : Json} (h : Rearranged place (.arr (values.map Scalar.toJson)) w) :
    w = .arr (values.map Scalar.toJson) := by
  cases h with
  | same => rfl
  | items hitems => exact congrArg Json.arr hitems.scalars

end

namespace Node

variable {IsId : Text → Prop} {fields others : Fields}

/-! ## Nodes -/

theorem describes_rearranged {field other : Option Json} {d : Option Text} (hd : Notes.Describes field d)
    (h : Option.Rel (Rearranged .nodes) field other) : Notes.Describes other d := by
  cases hd with
  | absent =>
    cases h
    exact .absent
  | null =>
    cases h with
    | some h =>
      cases h
      exact .null
  | text s =>
    cases h with
    | some h =>
      cases h
      exact .text s

theorem flags_rearranged {field other : Option Json} {b : Bool} (hb : Notes.Flags field b)
    (h : Option.Rel (Rearranged .nodes) field other) : Notes.Flags other b := by
  cases hb with
  | absent =>
    cases h
    exact .absent
  | given htruth =>
    cases h with
    | some h =>
      have hsame := htruth
      cases htruth <;> cases h <;> exact .given hsame

/-- what stands under a name stands there rearranged -/
theorem found_rearranged {R : Json → Json → Prop} {field other : Option Json} (h : Option.Rel R field other) {v : Json}
    (hv : field = some v) : ∃ w, other = some w ∧ R v w := by
  subst hv
  cases h with
  | some h => exact ⟨_, rfl, h⟩

/-- a rearranged value writes the same nodes, the same lists of nodes and the same named nodes -/
structure Keeps (IsId : Text → Prop) (v : Json) : Prop where
  node : ∀ w n, Rearranged .nodes v w → Writes IsId v n → Writes IsId w n
  list : ∀ vs w ns, v = .arr vs → Rearranged .nodes v w → WritesEach IsId vs ns →
    ∃ ws, w = .arr ws ∧ (vs ≠ [] → ws ≠ []) ∧ WritesEach IsId ws ns
  shape : ∀ w shape, Rearranged .named v w → WritesShape IsId (some v) shape → WritesShape IsId (some w) shape

theorem writesEach_rearranged {vs ws : List Json} {ns : List Node} (hkeeps : ∀ v ∈ vs, Keeps IsId v)
    (h : RearrangedItems vs ws) (heach : WritesEach IsId vs ns) : WritesEach IsId ws ns := by
  induction vs generalizing ws ns with
  | nil =>
    cases h
    exact heach
  | cons v vs ih =>
    cases h with
    | cons hfirst hrest =>
      cases heach with
      | cons hn hns =>
        have hv := (hkeeps v List.mem_cons_self).node _ _ hfirst hn
        exact .cons hv (ih (fun u hu => hkeeps u (List.mem_cons_of_mem v hu)) hrest hns)

theorem writesNamed_rearranged {shape : List (Text × Node)} (hkeeps : ∀ e ∈ fields, Keeps IsId e.2)
    (h : RearrangedFields .named fields others) (hnamed : WritesNamed IsId fields shape) :
    WritesNamed IsId others shape := by
  induction fields generalizing others shape with
  | nil =>
    cases h
    exact hnamed
  | cons e fields ih =>
    obtain ⟨name, v⟩ := e
    cases h with
    | cons hfirst hrest =>
      cases hnamed with
      | cons hn hns =>
        have hv := (hkeeps (name, v) List.mem_cons_self).node _ _ hfirst hn
        exact .cons hv (ih (fun f hf => hkeeps f (List.mem_cons_of_mem _ hf)) hrest hns)

theorem writesShape_rearranged {field other : Option Json} {shape : List (Text × Node)}
    (hkeeps : ∀ v, field = some v → Keeps IsId v) (h : Option.Rel (Rearranged .named) field other)
    (hshape : WritesShape IsId field shape) : WritesShape IsId other shape := by
  cases h with
  | none => exact hshape
  | some h => exact (hkeeps _ rfl).shape _ _ h hshape

theorem head_rearranged {kind : Kind} {notes : Notes} (hnames : ∀ name, name ∈ names others ↔ name ∈ names fields)
    (h : ∀ name, Option.Rel (Rearranged (Place.nodes.inside name)) (get? fields name) (get? others name))
    (head : Head fields kind notes) : Head others kind notes := by
  refine ⟨?_, ?_, ?_, fun name hname => head.known name ((hnames name).1 hname)⟩
  · obtain ⟨w, hw, htype⟩ := found_rearranged (h "type") head.type
    cases htype
    exact hw
  · exact describes_rearranged head.description (h "description")
  · exact flags_rearranged head.optional (h "optional")

theorem own_rearranged {kind : Kind} {notes : Notes} {n : Node} (hkeeps : ∀ e ∈ fields, Keeps IsId e.2)
    (h : ∀ name, Option.Rel (Rearranged (Place.nodes.inside name)) (get? fields name) (get? others name))
    (own : WritesOwn IsId fields kind notes n) : WritesOwn IsId others kind notes n := by
  have hfound : ∀ {name v}, get? fields name = some v → Keeps IsId v := fun hv => hkeeps _ (Entries.mem_of_get? hv)
  cases own with
  | leaf p => exact .leaf p
  | literal hv =>
    obtain ⟨w, hw, hvalue⟩ := found_rearranged (h "value") hv
    rw [hvalue.scalar] at hw
    exact .literal hw
  | enum hv hsome hnull =>
    obtain ⟨w, hw, hvalues⟩ := found_rearranged (h "values") hv
    rw [hvalues.scalars] at hw
    exact .enum hw hsome hnull
  | object hshape => exact .object (writesShape_rearranged (fun v hv => hfound hv) (h "shape") hshape)
  | record hv hvalues =>
    obtain ⟨w, hw, hrest⟩ := found_rearranged (h "values") hv
    exact .record hw ((hfound hv).node _ _ hrest hvalues)
  | array hv hitems =>
    obtain ⟨w, hw, hrest⟩ := found_rearranged (h "items") hv
    exact .array hw ((hfound hv).node _ _ hrest hitems)
  | tuple hitems =>
    have hrel := h "items"
    generalize hfield : get? fields "items" = field at hitems hrel
    cases hitems with
    | absent =>
      cases hother : get? others "items" with
      | none => exact .tuple (hother ▸ .absent)
      | some w =>
        rw [hother] at hrel
        cases hrel
    | given heach =>
      obtain ⟨w, hw, hrest⟩ := found_rearranged hrel rfl
      obtain ⟨ws, rfl, -, hws⟩ := (hfound hfield).list _ _ _ rfl hrest heach
      exact .tuple (hw ▸ .given hws)
  | intersection hv hsome heach =>
    obtain ⟨w, hw, hrest⟩ := found_rearranged (h "of") hv
    obtain ⟨ws, rfl, hne, hws⟩ := (hfound hv).list _ _ _ rfl hrest heach
    exact .intersection hw (hne hsome) hws
  | union hv hsome heach =>
    obtain ⟨w, hw, hrest⟩ := found_rearranged (h "of") hv
    obtain ⟨ws, rfl, hne, hws⟩ := (hfound hv).list _ _ _ rfl hrest heach
    exact .union hw (hne hsome) hws
  | ref hv hid =>
    obtain ⟨w, hw, hrest⟩ := found_rearranged (h "id") hv
    cases hrest
    exact .ref hw hid

/-- **A rearranged value writes the same nodes.** -/
theorem keeps {v : Json} (hv : v.WellFormed) : Keeps IsId v := by
  induction hv with
  | null | bool | int | float | str =>
    refine ⟨fun w n _ hwrites => ?_, fun vs w ns heq => ?_, fun w shape _ hshape => ?_⟩
    · cases hwrites
    · cases heq
    · cases hshape
  | @arr items _ ih =>
    refine ⟨fun w n _ hwrites => ?_, fun vs w ns heq h heach => ?_, fun w shape _ hshape => ?_⟩
    · cases hwrites
    · cases heq
      cases h with
      | same => exact ⟨items, rfl, id, heach⟩
      | @items _ ws hitems =>
        refine ⟨ws, rfl, fun hsome hnone => ?_, writesEach_rearranged ih hitems heach⟩
        subst hnone
        cases hitems
        exact hsome rfl
    · cases hshape
  | @obj fields hdistinct _ ih =>
    refine ⟨fun w n h hwrites => ?_, fun vs w ns heq => ?_, fun w shape h hshape => ?_⟩
    · obtain ⟨others, rfl, hnames, hrel⟩ := h.members Place.noConfusion hdistinct
      cases hwrites with
      | node head own => exact .node (head_rearranged hnames hrel head) (own_rearranged ih hrel own)
    · cases heq
    · cases h with
      | same => exact hshape
      | named hfields =>
        cases hshape with
        | given hnamed => exact .given (writesNamed_rearranged ih hfields hnamed)
      | object hplace => exact absurd rfl hplace

end Node

namespace Document

variable {IsId : Text → Prop} {v w : Json} {doc : Document}

/-! ## Documents -/

theorem Writes.rearranged (hdoc : Writes IsId v doc) (hv : v.WellFormed) (h : Rearranged .document v w) :
    Writes IsId w doc := by
  cases hdoc with
  | @document fields codecValue codec definitions hknown hcodecField hcodec hdefinitions =>
    cases hv with
    | obj hdistinct hvalues =>
      have hkeeps : ∀ {name u}, get? fields name = some u → Node.Keeps IsId u :=
        fun hu => Node.keeps (hvalues _ (Entries.mem_of_get? hu))
      obtain ⟨others, rfl, hnames, hrel⟩ := h.members Place.noConfusion hdistinct
      obtain ⟨u, hu, hcodecRest⟩ := Node.found_rearranged (hrel "codec") hcodecField
      refine .document (fun name hname => hknown name ((hnames name).1 hname)) hu ?_ ?_
      · exact (hkeeps hcodecField).node _ _ hcodecRest hcodec
      · exact Node.writesShape_rearranged (fun u hu => hkeeps hu) (hrel "definitions") hdefinitions

/-- scalars that are close to each other, a flag written as a number, and named nodes that are not in the order of their
names -/
def assorted : Json :=
  .obj [("codec", .obj [("type", .str "enum"), ("optional", .int 1),
      ("values", .arr [.int 1, .float ⟨0x3FF0000000000000⟩, .bool true, .str "1"])]),
    ("definitions", .obj [("b", .obj [("type", .str "object"), ("shape", .obj [("z", .obj [("type", .str "ref"),
      ("id", .str "a")]), ("y", .obj [("type", .str "any")])])]), ("a", .obj [("type", .str "literal"),
      ("value", .null)])])]

/-- the same with the fields of its document and its nodes in another order -/
def assortedAnew : Json :=
  .obj [("definitions", .obj [("b", .obj [("shape", .obj [("z", .obj [("id", .str "a"), ("type", .str "ref")]),
      ("y", .obj [("type", .str "any")])]), ("type", .str "object")]), ("a", .obj [("value", .null),
      ("type", .str "literal")])]),
    ("codec", .obj [("optional", .int 1), ("type", .str "enum"),
      ("values", .arr [.int 1, .float ⟨0x3FF0000000000000⟩, .bool true, .str "1"])])]

def assortedDocument : Document where
  codec := .enum ⟨none, true⟩ [.int 1, .float ⟨0x3FF0000000000000⟩, .bool true, .str "1"]
  definitions := [("b", .object {} [("z", .ref {} "a"), ("y", .leaf {} .any)]), ("a", .literal {} .null)]

theorem assorted_wellFormed : assorted.WellFormed := by
  have hobj : ∀ fields : Fields, (Json.obj fields).WellFormed ↔ (names fields).Nodup ∧ ∀ e ∈ fields, e.2.WellFormed :=
    fun fields => ⟨fun h => by cases h; constructor <;> assumption, fun h => .obj h.1 h.2⟩
  have harr : ∀ vs : List Json, (Json.arr vs).WellFormed ↔ ∀ v ∈ vs, v.WellFormed :=
    fun vs => ⟨fun h => by cases h; assumption, .arr⟩
  simp [assorted, hobj, harr, Json.WellFormed.null, Json.WellFormed.bool, Json.WellFormed.int, Json.WellFormed.float,
    Json.WellFormed.str]

/-- two fields change places -/
theorem rearranged_swap {place : Place} (hplace : place ≠ .named) {name name' : Text} {v v' w w' : Json}
    (h : Rearranged (place.inside name) v w) (h' : Rearranged (place.inside name') v' w') (rest : Fields) :
    Rearranged place (.obj ((name, v) :: (name', v') :: rest)) (.obj ((name', w') :: (name, w) :: rest)) :=
  .object hplace (.cons h (.cons h' (.refl place rest))) (.swap _ _ _)

theorem assorted_rearranged : Rearranged .document assorted assortedAnew := by
  have hdocument : Place.document ≠ .named := by decide
  have hnodes : Place.nodes ≠ .named := by decide
  refine rearranged_swap hdocument ?_ ?_ []
  · exact rearranged_swap hnodes (.same _ _) (.same _ _) _
  · refine .named (.cons ?_ (.cons ?_ (.nil _)))
    · refine rearranged_swap hnodes (.same _ _) ?_ []
      refine .named (.cons ?_ (.cons (.same _ _) (.nil _)))
      exact rearranged_swap hnodes (.same _ _) (.same _ _) []
    · exact rearranged_swap hnodes (.same _ _) (.same _ _) []

/-- **Validation leads to a normal form.** The dump of an accepted document is accepted as that document. A value that
differs from an accepted one only in the order of the fields of its document object and its node objects is accepted as
the same document, so that it has the same dump. Hence a value and its dump compile to the same under all options. -/
theorem dump_is_normal (accepted : ofJson v = .ok doc) :
    ofJson doc.toJson = .ok doc ∧
      (∀ w, v.WellFormed → Rearranged .document v w → ofJson w = .ok doc) ∧
      ∀ options, (ofJson doc.toJson).map (generate ·.build options) = (ofJson v).map (generate ·.build options) := by
  have hdump : ofJson doc.toJson = .ok doc := ofJson_toJson accepted
  refine ⟨hdump, fun w hv h => ?_, fun options => by rw [hdump, accepted]⟩
  obtain ⟨hwrites, hclosed⟩ := (accepts_iff v doc).1 accepted
  exact (accepts_iff w doc).2 ⟨hwrites.rearranged hv h, hclosed⟩

theorem assorted_dump_is_normal : ofJson assorted = .ok assortedDocument ∧ assorted.WellFormed ∧
    Rearranged .document assorted assortedAnew ∧
    ofJson assortedDocument.toJson = .ok assortedDocument ∧
      (∀ w, assorted.WellFormed → Rearranged .document assorted w → ofJson w = .ok assortedDocument) ∧
      ∀ options, (ofJson assortedDocument.toJson).map (generate ·.build options) =
        (ofJson assorted).map (generate ·.build options) :=
  ⟨rfl, assorted_wellFormed, assorted_rearranged,
    dump_is_normal (show ofJson assorted = .ok assortedDocument from rfl)⟩

end Document

end CodecCompiler
