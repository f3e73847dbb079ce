/-
What is accepted as a document: what is written as one, and refers to its own definitions only.

- `Node.Accepts`: the checks of a value as a node, as a list of nodes and as named nodes accept what is written;
  `Node.accepts`: so they do for every value.
- `Document.accepts_iff`: a value is accepted as a document exactly when it writes that document, with strings for ids,
  and every reference in it has a definition.
- `Document.halved_refused`: half of a surrogate pair is no id, although it is a text and not empty.
-/
import CodecCompiler.Proofs.Checks
import CodecCompiler.Proofs.Compilation

namespace CodecCompiler

open Entries (names get?)

namespace Node

variable {data : Data} {enter : Entrance} {fields : Fields}

/-! ## Nodes -/

/-- the checks of a value as a node, as a list of nodes and as named nodes accept what is written -/
structure Accepts (data : Data) (enter : Entrance) (v : Json) : Prop where
  node : ∀ n, ofDatum data enter (.ofJson v) = .ok n ↔ Writes Text.IsId v n
  list : ∀ nonEmpty ns, listOf data enter nonEmpty (.ofJson v) = .ok ns ↔
    ∃ vs, v = .arr vs ∧ (nonEmpty = true → vs ≠ []) ∧ WritesEach Text.IsId vs ns
  shape : ∀ shape, shapeOf data enter (.ofJson v) = .ok shape ↔ WritesShape Text.IsId (some v) shape

theorem nodesOf_eq_ok_iff {vs : List Json} (h : ∀ v ∈ vs, Accepts data enter v) {i : Nat} {ns : List Node} :
    nodesOf data enter i (Datum.ofItems vs) = .ok ns ↔ WritesEach Text.IsId vs ns := by
  induction vs generalizing i ns with
  | nil =>
    constructor
    · intro hns
      cases hns
      exact .nil
    · intro hns
      cases hns
      rfl
  | cons v vs ih =>
    have hfirst := (h v List.mem_cons_self).node
    have hrest := fun i ns => @ih (fun w hw => h w (List.mem_cons_of_mem v hw)) i ns
    simp only [Datum.ofItems, nodesOf, Checked.both_eq_ok_iff, Checked.under_eq_ok_iff, hfirst, hrest]
    constructor
    · rintro ⟨n, rest, hn, hns, rfl⟩
      exact .cons hn hns
    · intro hns
      cases hns with
      | cons hn hns => exact ⟨_, _, hn, hns, rfl⟩

theorem namedOf_eq_ok_iff (h : ∀ e ∈ fields, Accepts data enter e.2) {shape : List (Text × Node)} :
    namedOf data enter (Datum.ofFields fields) = .ok shape ↔ WritesNamed Text.IsId fields shape := by
  induction fields generalizing shape with
  | nil =>
    constructor
    · intro hns
      cases hns
      exact .nil
    · intro hns
      cases hns
      rfl
  | cons e fields ih =>
    have hfirst := (h e List.mem_cons_self).node
    have hrest := fun shape => @ih (fun w hw => h w (List.mem_cons_of_mem e hw)) shape
    have hname : ∀ name, Datum.text (.str e.1) = .ok name ↔ e.1 = name := fun name => by simp [Datum.text]
    simp only [Datum.ofFields, namedOf, Checked.both_eq_ok_iff, Checked.under_eq_ok_iff, hfirst, hrest, hname]
    constructor
    · rintro ⟨_, rest, ⟨_, n, rfl, hn, rfl⟩, hns, rfl⟩
      exact .cons hn hns
    · intro hns
      cases hns with
      | cons hn hns => exact ⟨_, _, ⟨_, _, rfl, hn, rfl⟩, hns, rfl⟩

/-- the keys of an object are texts and stay as they are -/
theorem shapeOf_obj : shapeOf data enter (.ofJson (.obj fields)) = namedOf data enter (Datum.ofFields fields) := by
  have hsettled : settled (Datum.ofFields fields) = id := by
    funext shape
    rw [settled, Datum.any_isOctets_ofFields, if_neg Bool.false_ne_true]
    rfl
  rw [Datum.ofJson, shapeOf, hsettled]
  exact congrFun Except.map_id _

theorem opened_ofJson (v : Json) : data.opened (.ofJson v) = .ofJson v := by
  cases v <;> rfl

theorem valuesOf_eq_ok_iff {v : Json} {values : List Scalar} : valuesOf data (.ofJson v) = .ok values ↔
    v = .arr (values.map Scalar.toJson) ∧ values ≠ [] ∧ Scalar.null ∉ values := by
  unfold valuesOf
  rw [opened_ofJson]
  cases v with
  | arr vs =>
    simp only [Datum.ofJson, Datum.items?, Checked.nonEmpty_eq_ok_iff, Checked.each_scalar_eq_ok_iff, Json.arr.injEq]
    constructor
    · rintro ⟨hsome, rfl, hnull⟩
      refine ⟨rfl, ?_, hnull⟩
      rintro rfl
      cases hsome
    · rintro ⟨rfl, hsome, hnull⟩
      cases values with
      | nil => exact absurd rfl hsome
      | cons a values => exact ⟨rfl, rfl, hnull⟩
  | null | bool | int | float | str | obj =>
    refine iff_of_false (fun h => ?_) fun h => ?_
    · cases h
    · cases h.1

theorem field_eq_ok_iff {α : Type} {check : Datum → Checked α} {s : String} {a : α} :
    Checked.present s ((Datum.field? (Datum.ofFields fields) s).map check) = .ok a ↔
      ∃ v, get? fields s = some v ∧ check (.ofJson v) = .ok a := by
  rw [Checked.present_eq_ok_iff, Datum.field?_ofFields, Option.map_map, Option.map_eq_some_iff]
  rfl

theorem nodeField_eq_ok_iff (h : ∀ e ∈ fields, Accepts data enter e.2) {s : String} {n : Node} :
    Checked.present s (nodeAt data enter s (Datum.ofFields fields)) = .ok n ↔
      ∃ v, get? fields s = some v ∧ Writes Text.IsId v n := by
  rw [Checked.present_eq_ok_iff, nodeAt_ofFields, Option.map_eq_some_iff]
  refine exists_congr fun v => and_congr_right fun hv => ?_
  exact (h _ (Entries.mem_of_get? hv)).node n

theorem listField_eq_ok_iff (h : ∀ e ∈ fields, Accepts data enter e.2) {s : String} {ns : List Node} :
    Checked.present s (nodesAt data enter true s (Datum.ofFields fields)) = .ok ns ↔
      ∃ vs, get? fields s = some (.arr vs) ∧ vs ≠ [] ∧ WritesEach Text.IsId vs ns := by
  rw [Checked.present_eq_ok_iff, nodesAt_ofFields, Option.map_eq_some_iff]
  constructor
  · rintro ⟨v, hv, hns⟩
    obtain ⟨vs, rfl, hsome, heach⟩ := ((h _ (Entries.mem_of_get? hv)).list true ns).1 hns
    exact ⟨vs, hv, hsome rfl, heach⟩
  · rintro ⟨vs, hv, hsome, heach⟩
    exact ⟨.arr vs, hv, ((h _ (Entries.mem_of_get? hv)).list true ns).2 ⟨vs, rfl, fun _ => hsome, heach⟩⟩

theorem itemsField_eq_ok_iff (h : ∀ e ∈ fields, Accepts data enter e.2) {s : String} {ns : List Node} :
    Checked.orElse s [] (nodesAt data enter false s (Datum.ofFields fields)) = .ok ns ↔
      WritesItems Text.IsId (get? fields s) ns := by
  rw [Checked.orElse_eq_ok_iff, nodesAt_ofFields]
  cases hv : get? fields s with
  | none =>
    constructor
    · rintro (⟨-, rfl⟩ | h)
      · exact .absent
      · cases h
    · intro h
      cases h
      exact .inl ⟨rfl, rfl⟩
  | some v =>
    have hlist := (h _ (Entries.mem_of_get? hv)).list false ns
    simp only [Option.map_some, Option.some.injEq, reduceCtorEq, false_and, false_or, hlist]
    constructor
    · rintro ⟨vs, rfl, -, heach⟩
      exact .given heach
    · intro h
      cases h with
      | given heach => exact ⟨_, rfl, False.elim, heach⟩

theorem shapeField_eq_ok_iff {field : Option Json} (h : ∀ v, field = some v → Accepts data enter v) {s : String}
    {shape : List (Text × Node)} :
    Checked.orElse s [] (field.map fun v => shapeOf data enter (.ofJson v)) = .ok shape ↔
      WritesShape Text.IsId field shape := by
  rw [Checked.orElse_eq_ok_iff]
  cases field with
  | none =>
    constructor
    · rintro (⟨-, rfl⟩ | hnone)
      · exact .absent
      · cases hnone
    · intro hnone
      cases hnone
      exact .inl ⟨rfl, rfl⟩
  | some v => simp [(h v rfl).shape]

/-- what the fields of a kind write is decided by the notes and the kind's own field -/
theorem writes_obj_iff {kind : Kind} {n : Node} (htype : get? fields "type" = some (.str kind.typeName)) :
    Writes Text.IsId (.obj fields) n ↔
      ∃ notes, Head fields kind notes ∧ WritesOwn Text.IsId fields kind notes n := by
  constructor
  · intro hwrites
    cases hwrites with
    | @node _ other _ _ head own =>
      have hname := Json.str.inj (Option.some.inj (htype.symm.trans head.type))
      have hkind : some kind = some other := (ofTypeName?_eq_some.2 rfl).symm.trans (ofTypeName?_eq_some.2 hname)
      cases hkind
      exact ⟨_, head, own⟩
  · rintro ⟨notes, head, own⟩
    exact .node head own

theorem assemble_accepts {kind : Kind} {n : Node} (htype : get? fields "type" = some (.str kind.typeName)) {α : Type}
    {make : Notes → α → Node} {own : Checked α}
    (hown : ∀ notes, (∃ a, own = .ok a ∧ make notes a = n) ↔ WritesOwn Text.IsId fields kind notes n) :
    assemble kind (Datum.ofFields fields) make own = .ok n ↔ Writes Text.IsId (.obj fields) n := by
  rw [assemble_eq_ok_iff htype, writes_obj_iff htype]
  exact exists_congr fun notes => and_congr_right fun _ => hown notes

/-- an object is accepted as a node of the kind that it names, by the rule of that kind -/
theorem ofDatum_obj (h : ∀ e ∈ fields, Accepts data enter e.2) {n : Node} :
    ofDatum data enter (.ofJson (.obj fields)) = .ok n ↔ Writes Text.IsId (.obj fields) n := by
  rw [Datum.ofJson, ofDatum]
  cases hkind : kindOf data (Datum.ofFields fields) with
  | error found =>
    refine iff_of_false (fun hfail => ?_) fun hwrites => ?_
    · cases hfail
    cases hwrites with
    | node head _ => cases hkind.symm.trans (kindOf_eq_ok_iff.2 head.type)
  | ok kind =>
    have htype := kindOf_eq_ok_iff.1 hkind
    cases kind with
    | primitive p =>
      refine assemble_accepts htype fun notes => ?_
      constructor
      · rintro ⟨_, -, rfl⟩
        exact .leaf p
      · intro own
        cases own
        exact ⟨(), rfl, rfl⟩
    | literal =>
      refine assemble_accepts htype fun notes => ?_
      simp only [field_eq_ok_iff, value_eq_ok_iff]
      constructor
      · rintro ⟨value, ⟨v, hv, rfl⟩, rfl⟩
        exact .literal hv
      · intro own
        cases own with
        | literal hv => exact ⟨_, ⟨_, hv, rfl⟩, rfl⟩
    | enum =>
      refine assemble_accepts htype fun notes => ?_
      simp only [field_eq_ok_iff, valuesOf_eq_ok_iff]
      constructor
      · rintro ⟨values, ⟨v, hv, rfl, hsome, hnull⟩, rfl⟩
        exact .enum hv hsome hnull
      · intro own
        cases own with
        | enum hv hsome hnull => exact ⟨_, ⟨_, hv, rfl, hsome, hnull⟩, rfl⟩
    | object =>
      refine assemble_accepts htype fun notes => ?_
      simp only [shapeAt_ofFields, shapeField_eq_ok_iff fun v hv => h _ (Entries.mem_of_get? hv)]
      constructor
      · rintro ⟨shape, hshape, rfl⟩
        exact .object hshape
      · intro own
        cases own with
        | object hshape => exact ⟨_, hshape, rfl⟩
    | record =>
      refine assemble_accepts htype fun notes => ?_
      simp only [nodeField_eq_ok_iff h]
      constructor
      · rintro ⟨values, ⟨v, hv, hvalues⟩, rfl⟩
        exact .record hv hvalues
      · intro own
        cases own with
        | record hv hvalues => exact ⟨_, ⟨_, hv, hvalues⟩, rfl⟩
    | array =>
      refine assemble_accepts htype fun notes => ?_
      simp only [nodeField_eq_ok_iff h]
      constructor
      · rintro ⟨items, ⟨v, hv, hitems⟩, rfl⟩
        exact .array hv hitems
      · intro own
        cases own with
        | array hv hitems => exact ⟨_, ⟨_, hv, hitems⟩, rfl⟩
    | tuple =>
      refine assemble_accepts htype fun notes => ?_
      simp only [itemsField_eq_ok_iff h]
      constructor
      · rintro ⟨items, hitems, rfl⟩
        exact .tuple hitems
      · intro own
        cases own with
        | tuple hitems => exact ⟨_, hitems, rfl⟩
    | intersection =>
      refine assemble_accepts htype fun notes => ?_
      simp only [listField_eq_ok_iff h]
      constructor
      · rintro ⟨members, ⟨vs, hvs, hsome, heach⟩, rfl⟩
        exact .intersection hvs hsome heach
      · intro own
        cases own with
        | intersection hvs hsome heach => exact ⟨_, ⟨_, hvs, hsome, heach⟩, rfl⟩
    | union =>
      refine assemble_accepts htype fun notes => ?_
      simp only [listField_eq_ok_iff h]
      constructor
      · rintro ⟨members, ⟨vs, hvs, hsome, heach⟩, rfl⟩
        exact .union hvs hsome heach
      · intro own
        cases own with
        | union hvs hsome heach => exact ⟨_, ⟨_, hvs, hsome, heach⟩, rfl⟩
    | recursive =>
      refine assemble_accepts htype fun notes => ?_
      simp only [field_eq_ok_iff, id_eq_ok_iff]
      constructor
      · rintro ⟨id, ⟨v, hv, rfl, hid⟩, rfl⟩
        exact .ref hv hid
      · intro own
        cases own with
        | ref hv hid => exact ⟨_, ⟨_, hv, rfl, hid⟩, rfl⟩

/-- **The checks of a value accept what is written**, whatever stands around it. -/
theorem accepts (data : Data) (enter : Entrance) (v : Json) : Accepts data enter v := by
  induction v using Json.induction with
  | step v ih =>
    refine ⟨fun n => ?_, fun nonEmpty ns => ?_, fun shape => ?_⟩
    · cases v with
      | obj fields => exact ofDatum_obj (fun e he => ih e.2 (List.mem_map_of_mem he))
      | null | bool | int | float | str | arr =>
        refine iff_of_false (fun h => ?_) fun h => ?_
        · cases h
        · cases h
    · cases v with
      | arr vs =>
        rw [Datum.ofJson, listOf, Checked.nonEmpty_eq_ok_iff,
          nodesOf_eq_ok_iff (show ∀ w ∈ vs, Accepts data enter w from ih)]
        have hempty : (nonEmpty && (Datum.ofItems vs).isEmpty) = false ↔ (nonEmpty = true → vs ≠ []) := by
          cases nonEmpty <;> cases vs <;> simp [Datum.ofItems]
        rw [hempty]
        constructor
        · rintro ⟨hsome, heach⟩
          exact ⟨vs, rfl, hsome, heach⟩
        · rintro ⟨ws, hws, hboth⟩
          cases hws
          exact hboth
      | null | bool | int | float | str | obj =>
        refine iff_of_false (fun h => ?_) ?_
        · cases h
        · rintro ⟨_, h, -⟩
          cases h
    · cases v with
      | obj fields =>
        rw [shapeOf_obj, namedOf_eq_ok_iff (fun e he => ih e.2 (List.mem_map_of_mem he))]
        exact ⟨.given, fun h => by cases h; assumption⟩
      | null | bool | int | float | str | arr =>
        refine iff_of_false (fun h => ?_) fun h => ?_
        · cases h
        · cases h

/-- the fields of a node without notes -/
theorem Head.bare {kind : Kind} (htype : get? fields "type" = some (.str kind.typeName))
    (hdescription : get? fields "description" = none) (hoptional : get? fields "optional" = none)
    (hknown : ∀ name ∈ names fields, name ∈ knownFields kind) : Head fields kind {} := by
  refine ⟨htype, ?_, ?_, fun name hname => mem_knownFields.1 (hknown name hname)⟩
  · rw [hdescription]
    exact .absent
  · rw [hoptional]
    exact .absent

end Node

namespace Document

/-! ## Documents -/

theorem shapeOfData_eq_ok_iff {v : Json} {doc : Document} :
    shapeOfData (Data.ofJson v) = .ok doc ↔ Writes Text.IsId v doc := by
  cases v with
  | null | bool | int | float | str | arr =>
    refine iff_of_false (fun h => ?_) fun h => ?_
    · cases h
    · cases h
  | obj fields =>
    let data := Data.ofJson (.obj fields)
    let enter := Node.entrance data (depth data) []
    have haccepts := Node.accepts data enter
    change Checked.named (Datum.textKeys (Datum.ofFields fields)) (Checked.also (Checked.both Document.mk
      (Checked.present "codec" ((Datum.field? (Datum.ofFields fields) "codec").map (Node.ofDatum data enter)))
      (Checked.orElse "definitions" []
        ((Datum.field? (Datum.ofFields fields) "definitions").map (Node.shapeOf data enter))))
      (Node.onlyKnown ["codec", "definitions"] (Datum.ofFields fields))) = .ok doc ↔ _
    have hdefinitions : (Datum.field? (Datum.ofFields fields) "definitions").map (Node.shapeOf data enter) =
        (get? fields "definitions").map fun v => Node.shapeOf data enter (.ofJson v) := by
      rw [Datum.field?_ofFields, Option.map_map]
      rfl
    rw [hdefinitions, Checked.named_eq_ok_iff, Datum.textKeys_ofFields, Checked.also_eq_ok_iff,
      Checked.both_eq_ok_iff, Node.onlyKnown_eq_ok_iff]
    simp only [Node.field_eq_ok_iff, Node.shapeField_eq_ok_iff fun v _ => haccepts v, (haccepts _).node]
    constructor
    · rintro ⟨-, ⟨codec, definitions, ⟨v, hv, hcodec⟩, hshape, rfl⟩, hknown⟩
      exact .document hknown hv hcodec hshape
    · intro h
      cases h with
      | document hknown hv hcodec hshape =>
        have hstrings : ∀ name ∈ (["codec", "definitions"] : List Text), name.isString = true := by decide
        exact ⟨fun name hname => hstrings name (hknown name hname), ⟨_, _, ⟨_, hv, hcodec⟩, hshape, rfl⟩, hknown⟩

/-- **Accepted are the documents of the grammar.** A value is read as a document exactly when its parts write the parts
of that document and every reference, wherever it stands, has a definition; an id has to be a string. -/
theorem accepts_iff (v : Json) (doc : Document) :
    ofJson v = .ok doc ↔ Writes Text.IsId v doc ∧ doc.Closed :=
  ofData_eq_ok_iff.trans (and_congr_left fun _ => shapeOfData_eq_ok_iff)

/-- half of a surrogate pair that stands alone -/
def half : Text := ⟨[.half ⟨0, by decide⟩]⟩

/-- a value with a reference of that name, and its definition -/
def halved : Json :=
  .obj [("codec", .obj [("type", .str "ref"), ("id", .str half)]),
    ("definitions", .obj [(half, .obj [("type", .str "any")])])]

/-- **Half of a surrogate pair is no id**: a value that would be a document if any text but the empty one were an id is
not accepted. -/
theorem halved_refused :
    (∃ doc, Writes (fun id => id ≠ "") halved doc ∧ doc.Closed) ∧ ¬ ∃ doc, ofJson halved = .ok doc := by
  have hany : Node.Writes (fun id => id ≠ "") (.obj [("type", .str "any")]) (.leaf {} .any) :=
    .node (.bare rfl rfl rfl (by decide)) (.leaf .any)
  have href : Node.Writes (fun id => id ≠ "") (.obj [("type", .str "ref"), ("id", .str half)]) (.ref {} half) :=
    .node (.bare rfl rfl rfl (by decide)) (.ref rfl (by decide))
  refine ⟨⟨⟨.ref {} half, [(half, .leaf {} .any)]⟩, .document (by decide) rfl href (.given (.cons hany .nil)), ?_⟩, ?_⟩
  · unfold Closed
    decide
  · rintro ⟨doc, h⟩
    have hissue : ofJson halved = .error [⟨[.name "codec", .name "ref", .name "id"], .badText⟩] := rfl
    cases hissue.symm.trans h

end Document

end CodecCompiler
