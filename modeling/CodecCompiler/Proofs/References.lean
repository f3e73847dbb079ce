/-
References of a schema, and the definitions that they lead to.

- `Json.SchemaAt`: the places of a schema where schemas stand, and `Json.RefersTo`: what stands under `$ref` there.
- `Shaped.subschema`: a schema inside a shaped fragment is shaped; `Shaped.reference_known`: what it refers to is known.
- `generate_ok`: what a successful compilation with the built-in handlers consists of.
- `generate_discovers`: the definitions are those of the ids that the discovery walk meets, in its order, each made
  from the body that its first node names, and every reference of the schema has its definition.
-/
import CodecCompiler.Proofs.Runs

namespace CodecCompiler

open Entries (names)
open Compile

/-! ## Places of schemas -/

namespace Json

/-- the schemas that a field of a schema holds: those of properties and definitions by name, one for further
properties, one or several for items, and the branches of an alternative -/
def heldBy (e : Text × Json) : List Json :=
  if e.1 = "properties" ∨ e.1 = "definitions" then
    match e.2 with
    | .obj fields => fields.map (·.2)
    | _ => []
  else if e.1 = "additionalProperties" then [e.2]
  else if e.1 = "items" then
    match e.2 with
    | .arr items => items
    | v => [v]
  else if e.1 = "anyOf" then
    match e.2 with
    | .arr branches => branches
    | _ => []
  else []

/-- the schemas directly inside a schema -/
def subschemas (fields : Fields) : List Json := fields.flatMap heldBy

/-- a schema at some place of a whole one -/
inductive SchemaAt (whole : Json) : Json → Prop
  | top : SchemaAt whole whole
  | inside {fields : Fields} {v : Json} : SchemaAt whole (.obj fields) → v ∈ subschemas fields → SchemaAt whole v

/-- a schema at some place refers to a target -/
def RefersTo (whole target : Json) : Prop :=
  ∃ fields : Fields, SchemaAt whole (.obj fields) ∧ (("$ref" : Text), target) ∈ fields

end Json

/-! ## References of shaped fragments -/

/-- what a reference to an id is written as -/
def target (id : Text) : Json := .str ("#/definitions/" ++ id)

theorem target_injective : Function.Injective target := by
  rintro ⟨id⟩ ⟨other⟩ h
  have hpoints := congrArg Text.points (Json.str.inj h)
  exact congrArg Text.mk (List.append_cancel_left hpoints)

namespace Fragment

open Json (subschemas heldBy SchemaAt RefersTo)

variable {allow : Bool} {known : Text → Prop}

theorem mem_of_noted {d : Option Text} {f : Fields} {e : Text × Json} (h : e ∈ noted d f) (he : e.1 ≠ "description") :
    e ∈ f := by
  cases d with
  | none => exact h
  | some d =>
    simp only [noted] at h
    split_ifs at h
    · exact h
    · rcases List.mem_cons.1 h with rfl | h
      · exact absurd rfl he
      · exact h

theorem subschemas_noted (d : Option Text) (f : Fields) : subschemas (noted d f) = subschemas f := by
  cases d with
  | none => rfl
  | some d =>
    simp only [noted]
    split_ifs <;> rfl

theorem Shaped.subschema {f g : Fields} (h : Shaped allow known f) (hg : .obj g ∈ subschemas f) :
    Shaped allow known g := by
  cases h with
  | @object d properties required hp _ =>
    rw [subschemas_noted] at hg
    have hmem : Json.obj g ∈ (Entries.mapValues Json.obj properties).map (·.2) := by
      simpa [subschemas, heldBy, objectFragment, Fragment.object] using hg
    simp only [Entries.mapValues, List.map_map, List.mem_map, Function.comp_apply, Json.obj.injEq] at hmem
    obtain ⟨e, he, rfl⟩ := hmem
    exact hp e he
  | @record d values hv =>
    rw [subschemas_noted] at hg
    have heq : g = values := by simpa [subschemas, heldBy, recordFragment] using hg
    rwa [heq]
  | @array d items hi =>
    rw [subschemas_noted] at hg
    have heq : g = items := by simpa [subschemas, heldBy, arrayFragment] using hg
    rwa [heq]
  | @tuple d items hi =>
    rw [subschemas_noted] at hg
    have hmem : g ∈ items := by simpa [subschemas, heldBy, tupleFragment] using hg
    exact hi g hmem
  | @anyOf d branches hb =>
    rw [subschemas_noted] at hg
    have hmem : g ∈ branches := by simpa [subschemas, heldBy] using hg
    exact hb g hmem
  | _ =>
    rw [subschemas_noted] at hg
    simp [subschemas, heldBy, CodecCompiler.reference] at hg

theorem Shaped.reference_known {f : Fields} (h : Shaped allow known f) {r : Json} (hr : (("$ref" : Text), r) ∈ f) :
    ∃ id, known id ∧ r = target id := by
  cases h with
  | @reference d id hid =>
    have hmem := mem_of_noted hr (show ("$ref" : Text) ≠ "description" by simp)
    exact ⟨id, hid, by simpa [CodecCompiler.reference, target] using hmem⟩
  | _ =>
    have hmem := mem_of_noted hr (show ("$ref" : Text) ≠ "description" by simp)
    simp [objectFragment, Fragment.object, recordFragment, arrayFragment, tupleFragment] at hmem

/-- the schemas of a document made of shaped fragments: the document itself, and shaped fragments -/
theorem shaped_at {definitions top : Fields} (htop : Shaped allow known top)
    (hdefinitions : ∀ e ∈ definitions, ∃ f, e.2 = .obj f ∧ Shaped allow known f) {v : Json}
    (h : SchemaAt (.obj (("definitions", .obj definitions) :: top)) v) {g : Fields} (hv : v = .obj g) :
    g = (("definitions", .obj definitions) :: top : Fields) ∨ Shaped allow known g := by
  induction h generalizing g with
  | top => exact Or.inl (Json.obj.inj hv).symm
  | @inside fields v _ hmem ih =>
    subst hv
    right
    rcases ih rfl with rfl | hfields
    · have hsplit : .obj g ∈ definitions.map (·.2) ++ subschemas top := hmem
      rcases List.mem_append.1 hsplit with hdef | hsub
      · obtain ⟨e, he, heq⟩ := List.mem_map.1 hdef
        obtain ⟨f, hf, hshaped⟩ := hdefinitions e he
        rw [heq] at hf
        exact (Json.obj.inj hf) ▸ hshaped
      · exact htop.subschema hsub
    · exact hfields.subschema hmem

/-- every reference in a document made of shaped fragments names a known id -/
theorem refersTo_known {definitions top : Fields} (htop : Shaped allow known top)
    (hdefinitions : ∀ e ∈ definitions, ∃ f, e.2 = .obj f ∧ Shaped allow known f) {r : Json}
    (h : RefersTo (.obj (("definitions", .obj definitions) :: top)) r) : ∃ id, known id ∧ r = target id := by
  obtain ⟨g, hg, hr⟩ := h
  rcases shaped_at htop hdefinitions hg rfl with rfl | hshaped
  · rcases List.mem_cons.1 hr with heq | hr
    · simp at heq
    · exact htop.reference_known hr
  · exact hshaped.reference_known hr

end Fragment

/-! ## Successful compilations -/

section

variable {system : CodecSystem} {options : Options} {schema : Fields} {progress : Progress}

/-- what a compilation that succeeds consists of: a walk, the definitions that it settles, and the top fragment -/
theorem generate_ok (hplain : options.handlers = []) (h : generate system options = (.ok schema, progress)) :
    ∃ top met, system.root.translate options.allowAdditional = .ok top ∧
      schema = (("definitions", .obj progress.definitions) :: top : Fields) ∧
      Discovers system.bodies [] [system.root] met ∧ Extends (options.context system.bodies) {} progress met := by
  have hb := Options.registry_context hplain system.bodies
  unfold generate at h
  rcases hrun : (compile (options.context system.bodies) system.root).runFrom {} with ⟨top | top, p⟩
  · rw [hrun] at h
    exact nomatch (Prod.mk.inj h).1
  · rw [hrun] at h
    obtain ⟨hschema, rfl⟩ := Prod.mk.inj h
    obtain ⟨htop, met, hwalk, hextends⟩ := fragmentAt_sound hb hrun
    refine ⟨top, met, htop, ?_, hwalk, hextends⟩
    rw [← (Codec.translate_shaped htop).withDefinitions_eq]
    exact (Except.ok.inj hschema).symm

theorem refersTo_defined (hplain : options.handlers = []) (h : generate system options = (.ok schema, progress))
    {r : Json} (hr : Json.RefersTo (.obj schema) r) :
    ∃ id, (id ∈ names progress.definitions ∧ id ∈ system.ids) ∧ r = target id := by
  obtain ⟨top, met, htop, rfl, hwalk, hextends⟩ := generate_ok hplain h
  have hnames : names progress.definitions = names met := hextends.names_eq
  rw [hnames]
  refine Fragment.refersTo_known ((Codec.translate_shaped htop).mono ?_) ?_ hr
  · intro id hid
    exact ⟨hwalk.ids_stack system.root List.mem_cons_self id hid, List.mem_append_left _ hid⟩
  · intro e he
    obtain ⟨entries, hentries, hsettled⟩ := hextends.definitions
    rw [hentries] at he
    obtain ⟨visit, hvisit, -, c, f, hc, hf, hvalue⟩ := forall₂_mem_right hsettled e he
    obtain ⟨d, hd, hids⟩ := hwalk.ids_body visit hvisit
    have heq : c = d := Option.some.inj (hc.symm.trans hd)
    subst heq
    refine ⟨f, hvalue, (Codec.translate_shaped hf).mono ?_⟩
    intro id hid
    exact ⟨hids id hid, List.mem_append_right _ (Codec.ids_of_body hc hid)⟩

/-- **Definitions are discovered.** When a codec compiles with the built-in handlers, the ids of its definitions are
those met by the depth-first walk, in the order of their first meeting; the bodies asked for are those that the first
node of each id names, once each and in that order; and every reference of the schema is made for one of these ids. -/
theorem generate_discovers (hplain : options.handlers = [])
    (h : generate system options = (.ok schema, progress)) :
    ∃ met : Entries Text, (∀ other, Discovers system.bodies [] [system.root] other ↔ other = met) ∧
      Entries.get? schema "definitions" = some (.obj progress.definitions) ∧
      names progress.definitions = names met ∧ (names met).Nodup ∧ progress.resolved = met.map (·.2) ∧
      ∀ r, Json.RefersTo (.obj schema) r → ∃ id ∈ names progress.definitions, r = .str ("#/definitions/" ++ id) := by
  have hrefers : ∀ r, Json.RefersTo (.obj schema) r →
      ∃ id ∈ names progress.definitions, r = .str ("#/definitions/" ++ id) := by
    intro r hr
    obtain ⟨id, ⟨hid, -⟩, heq⟩ := refersTo_defined hplain h hr
    exact ⟨id, hid, heq⟩
  obtain ⟨top, met, -, rfl, hwalk, hextends⟩ := generate_ok hplain h
  refine ⟨met, fun other => ⟨fun hother => hother.unique hwalk, ?_⟩, ?_, hextends.names_eq, hwalk.distinct,
    hextends.resolved, hrefers⟩
  · rintro rfl
    exact hwalk
  · rw [Entries.get?_cons]
    simp

/-- bodies that lead into each other, two of them for one id, and an id that only a discarded member refers to -/
def tangled : CodecSystem where
  root := .tuple {} [.recursive {} "x" "first", .intersection {} [.recursive {} "z" "fourth",
    .union {} [.object {} [("y", .recursive {} "y" "third")], .recursive {} "x" "second"]]]
  bodies := [("first", .array {} (.recursive {} "y" "third")), ("second", .plain {} (.text "null")),
    ("third", .recursive {} "x" "second"), ("fourth", .plain {} (.text "string"))]

theorem tangled_discovers :
    ∃ schema progress, generate tangled {} = (.ok schema, progress) ∧
    names progress.definitions = ["x", "y", "z"] ∧ progress.resolved = ["first", "third", "fourth"] ∧
    ∃ met : Entries Text, (∀ other, Discovers tangled.bodies [] [tangled.root] other ↔ other = met) ∧
      Entries.get? schema "definitions" = some (.obj progress.definitions) ∧
      names progress.definitions = names met ∧ (names met).Nodup ∧ progress.resolved = met.map (·.2) ∧
      ∀ r, Json.RefersTo (.obj schema) r → ∃ id ∈ names progress.definitions, r = .str ("#/definitions/" ++ id) :=
  ⟨_, _, rfl, rfl, rfl, generate_discovers (show ({} : Options).handlers = [] from rfl) rfl⟩

end

end CodecCompiler
