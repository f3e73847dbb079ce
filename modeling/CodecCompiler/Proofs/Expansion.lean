/-
Expansion: definitions in the place of the references of a schema.

- `Json.expand` puts schemas in the place of references, wherever a schema stands in a schema; `Json.expandAt` takes
  them from definitions, and does so again in what it put there, down to a depth.
- `Fragment.Plain`: neither the fragment nor one of its alternatives is a reference.
- `Fragment.intersect_expandFields`: merging commutes with expansion, where the fragments are plain.
-/
import CodecCompiler.Proofs.Merging
import CodecCompiler.Proofs.References

namespace CodecCompiler

open Entries (names get?)

namespace Json

/-! ## Schemas in the place of references -/

mutual

/-- a schema, or a list of schemas, with others in the place of the references that `enter` knows -/
def expand (enter : Json → Option Json) : Json → Json
  | .obj fields =>
    match (get? fields "$ref").bind enter with
    | some schema => schema
    | none => .obj (expandFields enter fields)
  | .arr schemas => .arr (expandList enter schemas)
  | v => v

/-- the fields of a schema, those that hold schemas expanded -/
def expandFields (enter : Json → Option Json) : List (Text × Json) → List (Text × Json)
  | [] => []
  | (name, v) :: fields =>
    (name, if name = "properties" then expandNamed enter v
      else if name ∈ (["additionalProperties", "items", "anyOf"] : List Text) then expand enter v
      else v) :: expandFields enter fields

/-- schemas by name -/
def expandNamed (enter : Json → Option Json) : Json → Json
  | .obj schemas => .obj (expandValues enter schemas)
  | v => v

def expandValues (enter : Json → Option Json) : List (Text × Json) → List (Text × Json)
  | [] => []
  | (name, v) :: schemas => (name, expand enter v) :: expandValues enter schemas

def expandList (enter : Json → Option Json) : List Json → List Json
  | [] => []
  | v :: schemas => expand enter v :: expandList enter schemas

end

section

variable {enter : Json → Option Json}

/-- what the value of a field becomes -/
def expandField (enter : Json → Option Json) (name : Text) (v : Json) : Json :=
  if name = "properties" then expandNamed enter v
  else if name ∈ (["additionalProperties", "items", "anyOf"] : List Text) then expand enter v
  else v

theorem get?_expandFields (fields : Fields) (name : Text) :
    get? (expandFields enter fields) name = (get? fields name).map (expandField enter name) := by
  induction fields with
  | nil => rfl
  | cons e fields ih =>
    rw [expandFields, Entries.get?_cons, ih]
    by_cases he : e.1 = name
    · subst he
      simp [Entries.get?, expandField]
    · simp [Entries.get?, he]

theorem expandValues_eq (schemas : Fields) : expandValues enter schemas = Entries.mapValues (expand enter) schemas := by
  induction schemas with
  | nil => rfl
  | cons e schemas ih =>
    rw [expandValues, ih]
    rfl

theorem expandList_eq (schemas : List Json) : expandList enter schemas = schemas.map (expand enter) := by
  induction schemas with
  | nil => rfl
  | cons v schemas ih => rw [expandList, ih, List.map_cons]

/-- a schema that is no reference is expanded field by field -/
theorem expand_of_no_reference {fields : Fields} (h : get? fields "$ref" = none) :
    expand enter (.obj fields) = .obj (expandFields enter fields) := by
  rw [expand, h]
  rfl

theorem expand_reference {fields : Fields} {reference schema : Json} (h : get? fields "$ref" = some reference)
    (hschema : enter reference = some schema) : expand enter (.obj fields) = schema := by
  rw [expand, h, Option.bind_some, hschema]

end

/-- the definition that a reference names -/
def definition? (definitions : Fields) (reference : Json) : Option Json :=
  (definitions.find? fun e => target e.1 = reference).map (·.2)

theorem exists_definition? {definitions : Fields} {id : Text} (h : id ∈ names definitions) :
    ∃ v, definition? definitions (target id) = some v ∧ (id, v) ∈ definitions := by
  obtain ⟨v, hv⟩ := Entries.exists_get? h
  cases hfound : definitions.find? fun e => target e.1 = target id with
  | none =>
    have hnone := List.find?_eq_none.1 hfound _ (Entries.mem_of_get? hv)
    simp at hnone
  | some e =>
    have hid : e.1 = id := target_injective (by simpa using List.find?_some hfound)
    refine ⟨e.2, by rw [definition?, hfound, Option.map_some], ?_⟩
    rw [← hid]
    exact List.mem_of_find?_eq_some hfound

/-- a schema with definitions in the place of references, down to a depth -/
def expandAt (definitions : Fields) : (depth : Nat) → Json → Json
  | 0, v => v
  | depth + 1, v => v.expand fun reference => (definition? definitions reference).map (expandAt definitions depth)

end Json

namespace Fragment

open Json (expand expandFields expandField)

/-! ## Fragments -/

variable {enter : Json → Option Json} {allow : Bool}

theorem expandFields_noted (d : Option Text) (f : Fields) :
    expandFields enter (noted d f) = noted d (expandFields enter f) := by
  cases d with
  | none => rfl
  | some d =>
    simp only [noted]
    split_ifs <;> rfl

theorem expandFields_object (properties : Fields) (required : List Json) :
    expandFields enter (object properties allow required) =
      object (Entries.mapValues (expand enter) properties) allow required := by
  rw [← Json.expandValues_eq]
  rfl

theorem propertiesOf_expandFields (f : Fields) :
    propertiesOf (expandFields enter f) = Entries.mapValues (expand enter) (propertiesOf f) := by
  unfold propertiesOf
  rw [Json.get?_expandFields]
  cases get? f "properties" with
  | none => rfl
  | some v =>
    cases v with
    | obj properties => exact Json.expandValues_eq properties
    | _ => rfl

theorem requiredOf_expandFields (f : Fields) : requiredOf (expandFields enter f) = requiredOf f := by
  unfold requiredOf
  rw [Json.get?_expandFields]
  cases get? f "required" with
  | none => rfl
  | some v => rfl

theorem isObject_expandFields (f : Fields) : isObject (expandFields enter f) = isObject f := by
  unfold isObject
  rw [Json.get?_expandFields]
  cases get? f "type" with
  | none => rfl
  | some v => rfl

theorem Mergeable.expandFields {f : Fields} (h : Mergeable f) : Mergeable (expandFields enter f) := by
  obtain ⟨hproperties, hrequired⟩ := mergeable_iff.1 h
  refine mergeable_iff.2 ⟨fun w hw => ?_, fun w hw => ?_⟩
  · rw [Json.get?_expandFields] at hw
    obtain ⟨v, hv, rfl⟩ := Option.map_eq_some_iff.1 hw
    obtain ⟨properties, rfl⟩ := hproperties v hv
    exact ⟨_, rfl⟩
  · rw [Json.get?_expandFields] at hw
    obtain ⟨v, hv, rfl⟩ := Option.map_eq_some_iff.1 hw
    exact hrequired v hv

theorem expand_exposed {branches : List Fields} (h : ∀ b ∈ branches, get? b "$ref" = none) :
    expand enter (exposed branches) = exposed (branches.map (expandFields enter)) := by
  change Json.arr (Json.expandList enter (branches.map .obj)) = _
  rw [Json.expandList_eq, List.map_map, exposed, List.map_map]
  exact congrArg Json.arr (List.map_congr_left fun b hb => Json.expand_of_no_reference (h b hb))

/-! ## Merging -/

/-- a fragment that a merge can read, where neither the fragment nor one of its alternatives is a reference -/
structure Plain (f : Fields) : Prop where
  mergeable : Mergeable f
  here : get? f "$ref" = none
  alternatives : ∀ union, alternatives? f = some union →
    ∃ branches, union = exposed branches ∧ ∀ b ∈ branches, Mergeable b ∧ get? b "$ref" = none

theorem Plain.ready {f : Fields} (h : Plain f) : Ready (fun b => get? b "$ref" = none) f :=
  ⟨h.mergeable, h.here, h.alternatives⟩

/-- **A merge carries expansion along.** -/
theorem carried_expandFields (enter : Json → Option Json) (allow : Bool) :
    Carried allow allow (fun b => get? b "$ref" = none) (expandFields enter) (expand enter) id where
  object properties required _ := by rw [expandFields_object, List.map_id]
  properties f _ := propertiesOf_expandFields f
  required f := by rw [requiredOf_expandFields, List.map_id]
  isObject := isObject_expandFields
  mergeable _ _ := Mergeable.expandFields
  field f := Json.get?_expandFields f "anyOf"
  anyOf _ := rfl
  null := rfl
  exposed _ := expand_exposed
  kept _ _ := rfl

/-- **Merging commutes with expansion**, where nothing that is merged is a reference. -/
theorem intersect_expandFields {fs : List Fields} (h : ∀ f ∈ fs, Plain f) {g : Fields}
    (hg : intersect fs allow = .ok g) : intersect (fs.map (expandFields enter)) allow = .ok (expandFields enter g) :=
  (carried_expandFields enter allow).intersect (fun f hf => (h f hf).ready) hg

theorem intersect_no_reference {fs : List Fields} {g : Fields} (hg : intersect fs allow = .ok g) :
    get? g "$ref" = none := by
  unfold intersect at hg
  split at hg
  · obtain ⟨_, -, hg⟩ := bind_eq_ok_iff.1 hg
    cases pure_eq_ok_iff.1 hg
    rfl
  · obtain ⟨_, -, hg⟩ := bind_eq_ok_iff.1 hg
    cases pure_eq_ok_iff.1 hg
    rfl

theorem plain_of_single {f : Fields} (hmergeable : Mergeable f) (hhere : get? f "$ref" = none)
    (hsingle : alternatives? f = none) (d : Option Text) : Plain (noted d f) := by
  refine ⟨hmergeable.noted d, ?_, fun union hunion => ?_⟩
  · rw [get?_noted (by simp), hhere]
  · rw [alternatives?_noted, hsingle] at hunion
    exact nomatch hunion

theorem plain_anyOf {branches : List Fields} (h : ∀ b ∈ branches, Mergeable b ∧ get? b "$ref" = none)
    (d : Option Text) : Plain (noted d [("anyOf", exposed branches)]) := by
  refine ⟨.noted d ⟨rfl, rfl⟩, ?_, fun union hunion => ?_⟩
  · rw [get?_noted (by simp)]
    rfl
  · rw [alternatives?_noted] at hunion
    exact ⟨branches, (Option.some.inj hunion).symm, h⟩

/-- what plain fragments merge into is plain -/
theorem intersect_plain {fs : List Fields} (h : ∀ f ∈ fs, Plain f) {g : Fields} (hg : intersect fs allow = .ok g)
    (d : Option Text) : Plain (noted d g) := by
  obtain ⟨unions, rfl, hunions, hbranches⟩ := exists_mergedWith (fun f hf => (h f hf).ready) hg
  unfold mergedWith
  by_cases hsome : unions = []
  · rw [if_pos hsome]
    exact plain_of_single ⟨rfl, rfl⟩ rfl rfl d
  · rw [if_neg hsome]
    refine plain_anyOf (fun f hf => ?_) d
    obtain ⟨-, -, b, -, o, -, rfl⟩ := mem_pairs.1 hf
    exact ⟨⟨rfl, rfl⟩, rfl⟩

end Fragment

end CodecCompiler
