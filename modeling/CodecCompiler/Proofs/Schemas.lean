/-
The form of compiled schemas, written down field by field.

- `Json.Schema`: ten forms, each behind a description or nothing, with schemas inside. Objects require only what is
  among their properties, and references name known ids.
- `Json.Schema.inside`: the schemas that stand directly inside a schema have one of the forms.
- `Fragment.Shaped.schema`: every shape that fragments take has such a form.
- `Document.generate_schema`: so has, for every accepted document, the schema behind the definitions that it compiles
  to, each definition, and whatever schema stands at any place inside.
-/
import CodecCompiler.Proofs.Compilation
import CodecCompiler.Proofs.References

namespace CodecCompiler

open Entries (names mapValues)

namespace Json

/-! ## Forms -/

/-- what stands in front of a form: nothing, or a description that is not empty -/
def Lead (fields : Fields) : Prop := fields = [] ∨ ∃ d : Text, d ≠ "" ∧ fields = ([("description", .str d)] : Fields)

/-- a schema in one of the forms; closing flags are `allow`, and references name `known` ids -/
inductive Schema (allow : Bool) (known : Text → Prop) : Json → Prop
  | empty {lead : Fields} : Lead lead → Schema allow known (.obj lead)
  | primitive {lead : Fields} {type : Text} : Lead lead → type ∈ (["string", "number", "boolean", "null"] : List Text) →
      Schema allow known (.obj (lead ++ ([("type", .str type)] : Fields)))
  | enum {lead : Fields} (values : List Json) : Lead lead →
      Schema allow known (.obj (lead ++ ([("type", .str "string"), ("enum", .arr values)] : Fields)))
  | const {lead : Fields} (value : Json) : Lead lead →
      Schema allow known (.obj (lead ++ ([("type", .str "string"), ("const", value)] : Fields)))
  | object {lead properties : Fields} {required : List Text} : Lead lead → (∀ e ∈ properties, Schema allow known e.2) →
      (∀ name ∈ required, name ∈ names properties) →
      Schema allow known (.obj (lead ++ ([("type", .str "object"), ("properties", .obj properties),
        ("additionalProperties", .bool allow), ("required", .arr (required.map .str))] : Fields)))
  | record {lead : Fields} {values : Json} : Lead lead → Schema allow known values →
      Schema allow known (.obj (lead ++ ([("type", .str "object"), ("additionalProperties", values),
        ("properties", .obj []), ("required", .arr [])] : Fields)))
  | array {lead : Fields} {items : Json} : Lead lead → Schema allow known items →
      Schema allow known (.obj (lead ++ ([("type", .str "array"), ("items", items)] : Fields)))
  | tuple {lead : Fields} {items : List Json} : Lead lead → (∀ v ∈ items, Schema allow known v) →
      Schema allow known (.obj (lead ++ ([("type", .str "array"), ("items", .arr items),
        ("minItems", .int items.length), ("maxItems", .int items.length)] : Fields)))
  | anyOf {lead : Fields} {branches : List Json} : Lead lead → (∀ v ∈ branches, Schema allow known v) →
      Schema allow known (.obj (lead ++ ([("anyOf", .arr branches)] : Fields)))
  | reference {lead : Fields} {id : Text} : Lead lead → known id →
      Schema allow known (.obj (lead ++ ([("$ref", .str ("#/definitions/" ++ id))] : Fields)))

variable {allow : Bool} {known : Text → Prop}

/-- no schema stands in a description -/
theorem subschemas_lead {lead : Fields} (h : Lead lead) (fields : Fields) :
    subschemas (lead ++ fields) = subschemas fields := by
  rcases h with rfl | ⟨d, -, rfl⟩
  · rfl
  · rfl

/-- **What stands directly inside a schema** has one of the forms too, unless it is a closing flag. -/
theorem Schema.inside {fields inner : Fields} (h : Schema allow known (.obj fields))
    (hinner : .obj inner ∈ subschemas fields) : Schema allow known (.obj inner) := by
  cases h with
  | empty hlead =>
    rw [← List.append_nil fields, subschemas_lead hlead] at hinner
    exact absurd hinner List.not_mem_nil
  | @object _ properties _ hlead hproperties _ =>
    rw [subschemas_lead hlead] at hinner
    have hmem : .obj inner ∈ properties.map (·.2) := by simpa [subschemas, heldBy] using hinner
    obtain ⟨e, he, heq⟩ := List.mem_map.1 hmem
    exact heq ▸ hproperties e he
  | @record _ values hlead hvalues =>
    rw [subschemas_lead hlead] at hinner
    obtain rfl : .obj inner = values := by simpa [subschemas, heldBy] using hinner
    exact hvalues
  | @array _ items hlead hitems =>
    rw [subschemas_lead hlead] at hinner
    have hone : subschemas ([("type", .str "array"), ("items", items)] : Fields) = [items] := by
      cases hitems <;> simp [subschemas, heldBy]
    obtain rfl : .obj inner = items := by simpa [hone] using hinner
    exact hitems
  | @tuple _ items hlead hitems =>
    rw [subschemas_lead hlead] at hinner
    exact hitems _ (by simpa [subschemas, heldBy] using hinner)
  | @anyOf _ branches hlead hbranches =>
    rw [subschemas_lead hlead] at hinner
    exact hbranches _ (by simpa [subschemas, heldBy] using hinner)
  | primitive hlead | enum _ hlead | const _ hlead | reference hlead =>
    rw [subschemas_lead hlead] at hinner
    simp [subschemas, heldBy] at hinner

end Json

namespace Fragment

open Json (Lead Schema)

variable {allow : Bool} {known : Text → Prop}

theorem lead_noted (d : Option Text) : Lead (noted d []) := by
  cases d with
  | none => exact Or.inl rfl
  | some d =>
    simp only [noted]
    split_ifs with hempty
    · exact Or.inl rfl
    · refine Or.inr ⟨d, ?_, rfl⟩
      rintro rfl
      exact hempty rfl

theorem noted_eq_append (d : Option Text) (f : Fields) : noted d f = noted d [] ++ f := by
  cases d with
  | none => rfl
  | some d =>
    simp only [noted]
    split_ifs <;> rfl

/-- **Shaped fragments have one of the forms.** -/
theorem Shaped.schema {f : Fields} (h : Shaped allow known f) : Schema allow known (.obj f) := by
  induction h with
  | any d => exact .empty (lead_noted d)
  | @primitive d p hp =>
    rw [noted_eq_append]
    refine .primitive (lead_noted d) ?_
    cases p with
    | any => exact absurd rfl hp
    | _ => simp [Primitive.name]
  | literal d value =>
    rw [noted_eq_append]
    exact .const value (lead_noted d)
  | enum d values =>
    rw [noted_eq_append]
    exact .enum values (lead_noted d)
  | @object d properties required _ hrequired ih =>
    rw [noted_eq_append]
    refine .object (lead_noted d) (fun e he => ?_) fun name hname => ?_
    · obtain ⟨p, hp, rfl⟩ := List.mem_map.1 he
      exact ih p hp
    · rw [Entries.names_mapValues]
      exact hrequired name hname
  | record d _ ih =>
    rw [noted_eq_append]
    exact .record (lead_noted d) ih
  | array d _ ih =>
    rw [noted_eq_append]
    exact .array (lead_noted d) ih
  | @tuple d items _ ih =>
    rw [noted_eq_append, tupleFragment, ← List.length_map (f := Json.obj)]
    refine .tuple (lead_noted d) fun v hv => ?_
    obtain ⟨g, hg, rfl⟩ := List.mem_map.1 hv
    exact ih g hg
  | @anyOf d branches _ ih =>
    rw [noted_eq_append]
    refine .anyOf (lead_noted d) fun v hv => ?_
    obtain ⟨g, hg, rfl⟩ := List.mem_map.1 hv
    exact ih g hg
  | reference d hid =>
    rw [noted_eq_append]
    exact .reference (lead_noted d) hid

end Fragment

namespace Document

open Json (Schema SchemaAt)

/-! ## Compiled documents -/

variable {doc : Document} {options : Options}

/-- a document that compiles to every form, with objects that are merged out of objects and of branches that are none -/
def manifold : Document where
  codec := .intersection ⟨some "all of it", false⟩ [
    .object {} [("kind", .literal {} (.str "leaf")), ("size", .leaf {} .any)],
    .union {} [.ref {} "pair", .record {} (.leaf ⟨some "a value", false⟩ .number),
      .object {} [("left", .ref {} "pair"), ("right", .array ⟨none, true⟩ (.leaf {} .null))],
      .union {} [.enum {} [.int 1, .bool true]]]]
  definitions := [("pair", .tuple ⟨some "", false⟩ [.ref {} "rest", .leaf {} .boolean]),
    ("rest", .record {} (.union {} [.ref ⟨some "again", false⟩ "pair", .enum {} [.str "none"]]))]

/-- **Compiled documents consist of schemas of ten forms.** What an accepted document compiles to are its definitions
in front of a schema; this schema and every definition have one of the forms, with references to definitions only; and
so has every schema at any place inside. -/
theorem generate_schema {data : Data} (accepted : ofData data = .ok doc) (hplain : options.handlers = []) :
    ∃ definitions top : Fields, (generate doc.build options).1 = .ok (("definitions", .obj definitions) :: top) ∧
      Schema options.allowAdditional (· ∈ names definitions) (.obj top) ∧
      (∀ e ∈ definitions, Schema options.allowAdditional (· ∈ names definitions) e.2) ∧
      ∀ fields, SchemaAt (.obj (("definitions", .obj definitions) :: top)) (.obj fields) →
        fields = (("definitions", .obj definitions) :: top : Fields) ∨
          Schema options.allowAdditional (· ∈ names definitions) (.obj fields) := by
  obtain ⟨definitions, top, htop, hgenerate, hcompiled⟩ := exists_schema (closed_of_ofData accepted) hplain
  have hschema : Schema options.allowAdditional (· ∈ names definitions) (.obj top) :=
    ((Node.fragment_shaped htop).mono hcompiled.codec).schema
  have hdefinitions : ∀ e ∈ definitions, Schema options.allowAdditional (· ∈ names definitions) e.2 := by
    intro e he
    obtain ⟨node, f, hnode, hf, hvalue⟩ := hcompiled.fragments e he
    rw [hvalue]
    exact ((Node.fragment_shaped hf).mono (hcompiled.further e.1 (Entries.mem_names he) node hnode)).schema
  refine ⟨definitions, top, hgenerate, hschema, hdefinitions, fun fields hat => ?_⟩
  generalize hwhole : (("definitions", .obj definitions) :: top : Fields) = whole at hat
  generalize hv : Json.obj fields = v at hat
  induction hat generalizing fields with
  | top => exact Or.inl (Json.obj.inj hv)
  | @inside outer _ _ hmem ih =>
    subst hv
    right
    rcases ih outer rfl with hsame | houter
    · have hsplit : .obj fields ∈ definitions.map (·.2) ++ Json.subschemas top := by
        rwa [hsame, ← hwhole] at hmem
      rcases List.mem_append.1 hsplit with hdefinition | hinside
      · obtain ⟨e, he, heq⟩ := List.mem_map.1 hdefinition
        exact heq ▸ hdefinitions e he
      · exact hschema.inside hinside
    · exact houter.inside hmem

theorem manifold_schema :
    ofData (Data.ofJson manifold.toJson) = .ok manifold ∧
    ∃ definitions top : Fields,
      (generate manifold.build ⟨.decoded, [], true⟩).1 = .ok (("definitions", .obj definitions) :: top) ∧
      Schema true (· ∈ names definitions) (.obj top) ∧
      (∀ e ∈ definitions, Schema true (· ∈ names definitions) e.2) ∧
      ∀ fields, SchemaAt (.obj (("definitions", .obj definitions) :: top)) (.obj fields) →
        fields = (("definitions", .obj definitions) :: top : Fields) ∨
          Schema true (· ∈ names definitions) (.obj fields) :=
  ⟨rfl, generate_schema (show ofData (Data.ofJson manifold.toJson) = .ok manifold from rfl)
    (show (⟨.decoded, [], true⟩ : Options).handlers = [] from rfl)⟩

end Document

end CodecCompiler
