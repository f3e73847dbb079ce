/-
The checks of a document's parts on JSON values, each with the rule that it accepts by.

- `Datum.field?_ofFields`: fields are found among data as they are among JSON values.
- `truth_eq_ok_iff`, `description_eq_ok_iff`, `scalar_eq_ok_iff`, `id_eq_ok_iff`: values that are no collections.
- `Checked.present_eq_ok_iff`, `Checked.orElse_eq_ok_iff`: fields that have to be there, and fields that may be absent.
- `Node.assemble_eq_ok_iff`: a node is accepted when the fields that all nodes have are right and its own field is.
-/
import CodecCompiler.Document.Validation
import CodecCompiler.Proofs.Grammar
import CodecCompiler.Proofs.Translation

namespace CodecCompiler

open Entries (names get?)

/-! ## JSON values as data -/

namespace Datum

theorem field?_ofFields (fields : Fields) (name : Text) :
    field? (ofFields fields) name = (get? fields name).map ofJson := by
  induction fields with
  | nil => rfl
  | cons e fields ih =>
    simp only [ofFields, field?, isText, Entries.get?, decide_eq_true_eq, ih]
    split_ifs <;> rfl

theorem textKeys_ofFields (fields : Fields) : textKeys (ofFields fields) = names fields := by
  induction fields with
  | nil => rfl
  | cons e fields ih => exact congrArg (e.1 :: ·) ih

theorem any_isOctets_ofFields (fields : Fields) : (ofFields fields).any (·.1.isOctets) = false := by
  induction fields with
  | nil => rfl
  | cons e fields ih => exact (List.any_cons ..).trans ih

end Datum

namespace Text

theorem toChars?_eq_some {t : Text} {cs : List Char} : t.toChars? = some cs ↔ t = ofChars cs := by
  refine ⟨fun h => ?_, fun h => h ▸ toChars?_ofChars cs⟩
  obtain ⟨points⟩ := t
  unfold toChars? at h
  induction points generalizing cs with
  | nil =>
    cases h
    rfl
  | cons p points ih =>
    rw [List.mapM_cons] at h
    cases p with
    | half n => exact nomatch h
    | char c =>
      obtain ⟨d, hd, h⟩ := Option.bind_eq_some_iff.1 h
      obtain ⟨rest, hrest, h⟩ := Option.bind_eq_some_iff.1 h
      cases hd
      cases h
      have heq : points = rest.map .char := Text.mk.inj (ih hrest)
      rw [heq]
      rfl

theorem toString?_eq_some {t : Text} {s : String} : t.toString? = some s ↔ t = s := by
  unfold toString? ofString
  rw [Option.map_eq_some_iff, ← toChars?_eq_some]
  constructor
  · rintro ⟨cs, hcs, rfl⟩
    rw [String.toList_ofList]
    exact hcs
  · intro h
    exact ⟨s.toList, h, String.ofList_toList⟩

end Text

/-! ## Checks of values that are no collections -/

section

variable {v : Json}

theorem Checked.string_eq_ok_iff {t : Text} {s : String} : Checked.string t = .ok s ↔ t = s := by
  unfold Checked.string
  rw [← Text.toString?_eq_some]
  cases t.toString? with
  | none => exact iff_of_false (fun h => nomatch h) (fun h => nomatch h)
  | some r => simp

theorem truthOfInt_eq_ok_iff {n : Int} {b : Bool} : truthOfInt n = .ok b ↔ n = if b then 1 else 0 := by
  unfold truthOfInt
  cases b <;> split_ifs <;> simp_all [Checked.fail]

theorem truthOfString_eq_ok_iff {s : String} {b : Bool} :
    truthOfString s = .ok b ↔ s.map Char.toLower ∈ Json.words b := by
  have hapart : ∀ w ∈ Json.words true, w ∉ Json.words false := by decide
  change (if s.map Char.toLower ∈ Json.words false then .ok false else
    if s.map Char.toLower ∈ Json.words true then .ok true else Checked.fail .unreadableTruth) = _ ↔ _
  by_cases hfalse : s.map Char.toLower ∈ Json.words false
  · rw [if_pos hfalse]
    cases b with
    | false => exact iff_of_true rfl hfalse
    | true => exact iff_of_false (fun h => nomatch h) fun htrue => hapart _ htrue hfalse
  · rw [if_neg hfalse]
    by_cases htrue : s.map Char.toLower ∈ Json.words true
    · rw [if_pos htrue]
      cases b with
      | false => exact iff_of_false (fun h => nomatch h) hfalse
      | true => exact iff_of_true rfl htrue
    · rw [if_neg htrue]
      cases b with
      | false => exact iff_of_false (fun h => nomatch h) hfalse
      | true => exact iff_of_false (fun h => nomatch h) htrue

theorem truth_eq_ok_iff {b : Bool} : Datum.truth (.ofJson v) = .ok b ↔ v.Truth b := by
  cases v with
  | null => exact iff_of_false (fun h => nomatch h) fun h => nomatch h
  | bool c =>
    constructor
    · intro h
      cases h
      exact .bool b
    · intro h
      cases h
      rfl
  | int n =>
    refine truthOfInt_eq_ok_iff.trans ⟨?_, ?_⟩
    · rintro rfl
      exact .int b
    · intro h
      cases h
      rfl
  | float x =>
    change truthOfFloat x = .ok b ↔ _
    unfold truthOfFloat
    constructor
    · intro h
      cases hx : x.toInt? with
      | none => rw [hx] at h; exact nomatch h
      | some n =>
        rw [hx] at h
        exact .float b (hx.trans (congrArg some (truthOfInt_eq_ok_iff.1 h)))
    · intro h
      cases h with
      | float _ hx =>
        rw [hx]
        exact truthOfInt_eq_ok_iff.2 rfl
  | str t =>
    change Checked.string t >>= truthOfString = .ok b ↔ _
    simp only [bind_eq_ok_iff, Checked.string_eq_ok_iff, truthOfString_eq_ok_iff]
    constructor
    · rintro ⟨s, rfl, hs⟩
      exact .word b hs
    · intro h
      cases h with
      | word _ hs => exact ⟨_, rfl, hs⟩
  | arr vs => exact iff_of_false (fun h => nomatch h) fun h => nomatch h
  | obj fields => exact iff_of_false (fun h => nomatch h) fun h => nomatch h

theorem description_eq_ok_iff {d : Option Text} :
    Datum.description (.ofJson v) = .ok d ↔ Notes.Describes (some v) d := by
  cases v with
  | null =>
    constructor
    · intro h
      cases h
      exact .null
    · intro h
      cases h
      rfl
  | str s =>
    constructor
    · intro h
      cases h
      exact .text s
    · intro h
      cases h
      rfl
  | bool | int | float | arr | obj =>
    refine iff_of_false (fun h => ?_) fun h => ?_
    · cases h
    · cases h

theorem scalar_eq_ok_iff {a : Scalar} : Datum.scalar (.ofJson v) = .ok a ↔ v = a.toJson ∧ a ≠ .null := by
  cases v <;> cases a <;> simp [Datum.ofJson, Datum.scalar, Scalar.toJson, Datum.noScalar]

theorem value_eq_ok_iff {a : Scalar} : Datum.value (.ofJson v) = .ok a ↔ v = a.toJson := by
  cases v <;> cases a <;> simp [Datum.ofJson, Datum.value, Datum.scalar, Scalar.toJson, Datum.noScalar]

theorem id_eq_ok_iff {id : Text} : Datum.id (.ofJson v) = .ok id ↔ v = .str id ∧ id.IsId := by
  have hid : ∀ t : Text, Datum.id (.str t) = .ok id ↔ t = id ∧ id.IsId := by
    intro t
    have hread : Datum.id (.str t) = Checked.string t >>= fun s =>
      if s.isEmpty then Checked.fail .emptyText else return (s : Text) := rfl
    simp only [hread, bind_eq_ok_iff, Checked.string_eq_ok_iff]
    constructor
    · rintro ⟨s, rfl, h⟩
      by_cases hs : s.isEmpty
      · rw [if_pos hs] at h
        exact nomatch h
      · rw [if_neg hs] at h
        have heq : (s : Text) = id := pure_eq_ok_iff.1 h
        exact ⟨heq, s, by simpa using hs, heq.symm⟩
    · rintro ⟨rfl, s, hs, rfl⟩
      exact ⟨s, rfl, by rw [if_neg (by simpa using hs)]; rfl⟩
  cases v with
  | str t =>
    refine (hid t).trans ?_
    rw [Json.str.injEq]
  | null | bool | int | float | arr | obj =>
    refine iff_of_false (fun h => ?_) fun h => ?_
    · cases h
    · cases h.1

end

/-! ## Checks of fields -/

namespace Checked

variable {α : Type} {a : α} {field : Option (Checked α)}

theorem present_eq_ok_iff {name : String} : present name field = .ok a ↔ field = some (.ok a) := by
  cases field with
  | none => exact iff_of_false (fun h => nomatch h) fun h => nomatch h
  | some result => simp [present, under_eq_ok_iff]

theorem orElse_eq_ok_iff {name : String} {absent : α} :
    orElse name absent field = .ok a ↔ field = none ∧ absent = a ∨ field = some (.ok a) := by
  cases field with
  | none => simp [orElse]
  | some result => simp [orElse, under_eq_ok_iff]

theorem nonEmpty_eq_ok_iff {isEmpty : Bool} {result : Checked α} :
    nonEmpty isEmpty result = .ok a ↔ isEmpty = false ∧ result = .ok a := by
  cases isEmpty with
  | false => simp [nonEmpty]
  | true => exact iff_of_false (fun h => nomatch h) fun h => nomatch h.1

theorem named_eq_ok_iff {keys : List Text} {result : Checked α} :
    named keys result = .ok a ↔ (∀ key ∈ keys, key.isString = true) ∧ result = .ok a := by
  unfold named
  rw [← List.all_eq_true]
  by_cases h : keys.all Text.isString = true
  · rw [if_pos h]
    exact (and_iff_right h).symm
  · rw [if_neg h]
    exact iff_of_false (fun hfail => nomatch hfail) fun hboth => h hboth.1

theorem each_scalar_eq_ok_iff {vs : List Json} {i : Nat} {values : List Scalar} :
    each Datum.scalar i (Datum.ofItems vs) = .ok values ↔ vs = values.map Scalar.toJson ∧ Scalar.null ∉ values := by
  induction vs generalizing i values with
  | nil => cases values <;> simp [Datum.ofItems, each]
  | cons v vs ih =>
    simp only [Datum.ofItems, each, both_eq_ok_iff, under_eq_ok_iff, scalar_eq_ok_iff, ih]
    constructor
    · rintro ⟨a, as, ⟨rfl, ha⟩, ⟨rfl, has⟩, rfl⟩
      exact ⟨rfl, by simp [has, Ne.symm ha]⟩
    · rintro ⟨hvs, hnull⟩
      cases values with
      | nil => exact nomatch hvs
      | cons a as =>
        obtain ⟨rfl, rfl⟩ := List.cons.inj hvs
        rw [List.mem_cons, not_or] at hnull
        exact ⟨a, as, ⟨rfl, Ne.symm hnull.1⟩, ⟨rfl, hnull.2⟩, rfl⟩

end Checked

namespace Node

variable {data : Data} {enter : Entrance} {fields : Fields} {kind : Kind} {notes : Notes}

theorem ofTypeName?_eq_some {name : Text} : Kind.ofTypeName? name = some kind ↔ name = kind.typeName := by
  refine ⟨fun h => ?_, fun h => h ▸ Kind.ofTypeName?_typeName kind⟩
  have hfound := List.find?_some h
  exact (of_decide_eq_true hfound).symm

theorem kindOf_eq_ok_iff : kindOf data (Datum.ofFields fields) = .ok kind ↔
    get? fields "type" = some (.str kind.typeName) := by
  unfold kindOf
  rw [Datum.field?_ofFields]
  cases get? fields "type" with
  | none => exact iff_of_false (fun h => nomatch h) fun h => nomatch h
  | some v =>
    cases v with
    | str name =>
      rw [Option.some.injEq, Json.str.injEq, ← ofTypeName?_eq_some]
      simp only [Option.map_some, Datum.ofJson]
      cases Kind.ofTypeName? name with
      | none => exact iff_of_false (fun h => nomatch h) fun h => nomatch h
      | some k => simp
    | null | bool | int | float | arr | obj =>
      refine iff_of_false (fun h => ?_) fun h => ?_
      · cases h
      · cases h

theorem notesOf_eq_ok_iff : notesOf (Datum.ofFields fields) = .ok notes ↔
    Notes.Describes (get? fields "description") notes.description ∧
      Notes.Flags (get? fields "optional") notes.optional := by
  have hdescribes : ∀ (field : Option Json) (d : Option Text),
      Checked.orElse "description" none ((field.map Datum.ofJson).map Datum.description) = .ok d ↔
        Notes.Describes field d := by
    intro field d
    cases field with
    | none =>
      constructor
      · intro h
        cases h
        exact .absent
      · intro h
        cases h
        rfl
    | some v => simp [Checked.orElse_eq_ok_iff, description_eq_ok_iff]
  have hflags : ∀ (field : Option Json) (b : Bool),
      Checked.orElse "optional" false ((field.map Datum.ofJson).map Datum.truth) = .ok b ↔ Notes.Flags field b := by
    intro field b
    cases field with
    | none =>
      constructor
      · intro h
        cases h
        exact .absent
      · intro h
        cases h
        rfl
    | some v =>
      simp only [Checked.orElse_eq_ok_iff, Option.map_some, Option.some.injEq, truth_eq_ok_iff, reduceCtorEq,
        false_and, false_or]
      exact ⟨.given, fun h => by cases h; assumption⟩
  unfold notesOf
  rw [Checked.both_eq_ok_iff, Datum.field?_ofFields, Datum.field?_ofFields]
  simp only [hdescribes, hflags]
  constructor
  · rintro ⟨d, b, hd, hb, rfl⟩
    exact ⟨hd, hb⟩
  · rintro ⟨hd, hb⟩
    exact ⟨_, _, hd, hb, rfl⟩

theorem onlyKnown_eq_ok_iff {known : List Text} :
    onlyKnown known (Datum.ofFields fields) = .ok () ↔ ∀ name ∈ names fields, name ∈ known := by
  have hunknown : unknownKeys known (Datum.ofFields fields) = [] ↔ ∀ name ∈ names fields, name ∈ known := by
    induction fields with
    | nil => simp [Datum.ofFields, unknownKeys]
    | cons e fields ih =>
      unfold unknownKeys at ih ⊢
      by_cases he : e.1 ∈ known <;> simp [Datum.ofFields, he, ih]
  unfold onlyKnown
  cases hfound : unknownKeys known (Datum.ofFields fields) with
  | nil => exact iff_of_true rfl (hunknown.1 hfound)
  | cons issue rest =>
    refine iff_of_false (fun h => nomatch h) fun h => ?_
    rw [hunknown.2 h] at hfound
    exact nomatch hfound

theorem mem_knownFields {name : Text} : name ∈ knownFields kind ↔
    name ∈ (["description", "optional", "type"] : List Text) ∨ ∃ own, kind.fieldName? = some own ∧ name = own := by
  cases hown : kind.fieldName? with
  | none => simp [knownFields, hown]
  | some own => simp [knownFields, hown, or_assoc]

theorem isString_of_mem_knownFields {name : Text} (h : name ∈ knownFields kind) : name.isString = true := by
  rcases mem_knownFields.1 h with hname | ⟨own, -, rfl⟩
  · have hall : ∀ other ∈ (["description", "optional", "type"] : List Text), other.isString = true := by decide
    exact hall name hname
  · exact Text.isString_ofString own

/-- a node of a kind is accepted when its fields are right and its own field is -/
theorem assemble_eq_ok_iff {α : Type} {make : Notes → α → Node} {own : Checked α} {n : Node}
    (htype : get? fields "type" = some (.str kind.typeName)) :
    assemble kind (Datum.ofFields fields) make own = .ok n ↔
      ∃ notes, Head fields kind notes ∧ ∃ a, own = .ok a ∧ make notes a = n := by
  unfold assemble
  rw [Checked.under_eq_ok_iff, Checked.named_eq_ok_iff, Datum.textKeys_ofFields, Checked.also_eq_ok_iff,
    Checked.both_eq_ok_iff, onlyKnown_eq_ok_iff]
  constructor
  · rintro ⟨-, ⟨notes, a, hnotes, hown, hmake⟩, hknown⟩
    obtain ⟨hdescription, hoptional⟩ := notesOf_eq_ok_iff.1 hnotes
    have hhead : Head fields kind notes :=
      ⟨htype, hdescription, hoptional, fun name hname => mem_knownFields.1 (hknown name hname)⟩
    exact ⟨notes, hhead, a, hown, hmake⟩
  · rintro ⟨notes, hhead, a, hown, hmake⟩
    have hknown : ∀ name ∈ names fields, name ∈ knownFields kind :=
      fun name hname => mem_knownFields.2 (hhead.known name hname)
    have hnotes := notesOf_eq_ok_iff.2 ⟨hhead.description, hhead.optional⟩
    exact ⟨fun name hname => isString_of_mem_knownFields (hknown name hname), ⟨notes, a, hnotes, hown, hmake⟩, hknown⟩

variable {name : Text} {entries : List (Datum × Datum)}

/-! ### Nodes in fields -/

theorem nodeAt_eq : nodeAt data enter name entries = (Datum.field? entries name).map (ofDatum data enter) := by
  induction entries with
  | nil => rfl
  | cons e entries ih =>
    rw [nodeAt, Datum.field?, ih]
    split_ifs <;> rfl

theorem nodesAt_eq {nonEmpty : Bool} :
    nodesAt data enter nonEmpty name entries = (Datum.field? entries name).map (listOf data enter nonEmpty) := by
  induction entries with
  | nil => rfl
  | cons e entries ih =>
    rw [nodesAt, Datum.field?, ih]
    split_ifs <;> rfl

theorem shapeAt_eq : shapeAt data enter name entries = (Datum.field? entries name).map (shapeOf data enter) := by
  induction entries with
  | nil => rfl
  | cons e entries ih =>
    rw [shapeAt, Datum.field?, ih]
    split_ifs <;> rfl

theorem nodeAt_ofFields : nodeAt data enter name (Datum.ofFields fields) =
    (get? fields name).map fun v => ofDatum data enter (.ofJson v) := by
  rw [nodeAt_eq, Datum.field?_ofFields, Option.map_map]
  rfl

theorem nodesAt_ofFields {nonEmpty : Bool} : nodesAt data enter nonEmpty name (Datum.ofFields fields) =
    (get? fields name).map fun v => listOf data enter nonEmpty (.ofJson v) := by
  rw [nodesAt_eq, Datum.field?_ofFields, Option.map_map]
  rfl

theorem shapeAt_ofFields : shapeAt data enter name (Datum.ofFields fields) =
    (get? fields name).map fun v => shapeOf data enter (.ofJson v) := by
  rw [shapeAt_eq, Datum.field?_ofFields, Option.map_map]
  rfl

end Node

end CodecCompiler
