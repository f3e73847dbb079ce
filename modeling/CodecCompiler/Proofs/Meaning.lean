/-
What merged schemas mean. A relation between fragments and values says which values are right for a field; all here
holds for every such relation.

- `Fragment.Meets`: an object value meets the properties and the required names of a fragment, and may have any other
  field besides. `Fragment.Satisfies`: it also has no other field where the fragment is closed.
- `Fragment.Agree`: fragments that declare the same field have the same schema for it.
- `Fragment.satisfies_joined`: a value satisfies what agreeing fragments are joined into when it meets each of them and
  has no fields but theirs.
- `Codec.Solid`: object codecs, and intersections of such without a union; `runs_solid`: what they compile to.
- `intersection_keeps_meaning`: so the fragment of an intersection means what its members mean together, also where the
  branches of a union are spread over an object.
-/
import CodecCompiler.Proofs.Merging
import CodecCompiler.Proofs.Runs

namespace CodecCompiler

open Entries (names)
open Compile

namespace Fragment

/-! ## Values and schemas -/

/-- an object value meets a fragment openly: the fields that the fragment declares are related to their schemas, and the
required ones are there -/
structure Meets (sat : Json → Json → Prop) (value f : Fields) : Prop where
  related : ∀ e ∈ value, ∀ schema, Entries.get? (propertiesOf f) e.1 = some schema → sat schema e.2
  present : ∀ name, .str name ∈ requiredOf f → name ∈ names value

/-- an object value satisfies a fragment: it meets it, and has no other fields where the fragment is closed -/
structure Satisfies (sat : Json → Json → Prop) (value f : Fields) : Prop where
  meets : Meets sat value f
  closed : Entries.get? f "additionalProperties" = some (.bool false) →
    ∀ name ∈ names value, name ∈ names (propertiesOf f)

/-- an object value satisfies one of the alternatives of a fragment -/
def SatisfiesSome (sat : Json → Json → Prop) (value f : Fields) : Prop :=
  ∃ branches a, Entries.get? f "anyOf" = some (.arr branches) ∧ .obj a ∈ branches ∧ Satisfies sat value a

/-- fields of one name have one schema, in whichever of the fragments they are declared -/
def Agree (fs : List Fields) : Prop :=
  ∀ f ∈ fs, ∀ g ∈ fs, ∀ a ∈ propertiesOf f, ∀ b ∈ propertiesOf g, a.1 = b.1 → a.2 = b.2

instance (fs : List Fields) : Decidable (Agree fs) :=
  inferInstanceAs (Decidable (∀ f ∈ fs, ∀ g ∈ fs, ∀ a ∈ propertiesOf f, ∀ b ∈ propertiesOf g, a.1 = b.1 → a.2 = b.2))

section

variable {allow : Bool} {fs : List Fields} {sat : Json → Json → Prop} {value : Fields}

theorem mem_names_joined (allow : Bool) {name : Text} :
    name ∈ names (propertiesOf (joined allow fs)) ↔ ∃ f ∈ fs, name ∈ names (propertiesOf f) := by
  rw [propertiesOf_joined, Entries.mem_names_mergeAll]
  simp

/-- where fragments agree, the schema of a field is the one that any of them has for it -/
theorem get?_joined (agree : Agree fs) {name : Text} {schema : Json} :
    Entries.get? (propertiesOf (joined allow fs)) name = some schema ↔
      ∃ f ∈ fs, Entries.get? (propertiesOf f) name = some schema := by
  have hsource : ∀ {a}, Entries.get? (propertiesOf (joined allow fs)) name = some a →
      ∃ f ∈ fs, (name, a) ∈ propertiesOf f := by
    intro a ha
    obtain ⟨es, hes, hmem⟩ := Entries.mem_mergeAll (Entries.mem_of_get? ha)
    obtain ⟨f, hf, rfl⟩ := List.mem_map.1 hes
    exact ⟨f, hf, hmem⟩
  constructor
  · intro h
    obtain ⟨f, hf, hmem⟩ := hsource h
    obtain ⟨a, ha⟩ := Entries.exists_get? (Entries.mem_names hmem)
    have heq : a = schema := agree f hf f hf _ (Entries.mem_of_get? ha) _ hmem rfl
    exact ⟨f, hf, heq ▸ ha⟩
  · rintro ⟨f, hf, h⟩
    have hmem := Entries.mem_of_get? h
    obtain ⟨a, ha⟩ := Entries.exists_get? ((mem_names_joined allow).2 ⟨f, hf, Entries.mem_names hmem⟩)
    obtain ⟨g, hg, hmem'⟩ := hsource ha
    have heq : a = schema := agree g hg f hf _ hmem' _ hmem rfl
    rw [ha, heq]

theorem meets_joined (agree : Agree fs) : Meets sat value (joined allow fs) ↔ ∀ f ∈ fs, Meets sat value f := by
  constructor
  · intro h f hf
    refine ⟨fun e he schema hschema => ?_, fun name hname => ?_⟩
    · exact h.related e he schema ((get?_joined agree).2 ⟨f, hf, hschema⟩)
    · exact h.present name (List.mem_flatMap.2 ⟨f, hf, hname⟩)
  · intro h
    refine ⟨fun e he schema hschema => ?_, fun name hname => ?_⟩
    · obtain ⟨f, hf, hfield⟩ := (get?_joined agree).1 hschema
      exact (h f hf).related e he schema hfield
    · obtain ⟨f, hf, hmem⟩ := List.mem_flatMap.1 hname
      exact (h f hf).present name hmem

/-- **Joining keeps meaning.** A value satisfies what agreeing fragments are joined into exactly when it meets each of
them and, unless other fields are allowed, has fields of theirs only. -/
theorem satisfies_joined (agree : Agree fs) :
    Satisfies sat value (joined allow fs) ↔ (∀ f ∈ fs, Meets sat value f) ∧
      (allow = false → ∀ name ∈ names value, ∃ f ∈ fs, name ∈ names (propertiesOf f)) := by
  have hflag : Entries.get? (joined allow fs) "additionalProperties" = some (.bool allow) := rfl
  constructor
  · intro h
    refine ⟨(meets_joined agree).1 h.meets, fun hallow name hname => ?_⟩
    have hmem : name ∈ names (propertiesOf (joined allow fs)) := h.closed (hflag.trans (by rw [hallow])) name hname
    exact (mem_names_joined allow).1 hmem
  · rintro ⟨hmeets, hclosed⟩
    refine ⟨(meets_joined agree).2 hmeets, fun hfalse name hname => (mem_names_joined allow).2 ?_⟩
    have hallow : allow = false := Json.bool.inj (Option.some.inj (hflag.symm.trans hfalse))
    exact hclosed hallow name hname

end

/-! ## Notes in front -/

section

variable (d : Option Text) (f : Fields)

theorem meets_noted {sat : Json → Json → Prop} {value : Fields} : Meets sat value (noted d f) ↔ Meets sat value f := by
  constructor
  · intro h
    exact ⟨by simpa using h.related, by simpa using h.present⟩
  · intro h
    exact ⟨by simpa using h.related, by simpa using h.present⟩

theorem satisfies_noted {sat : Json → Json → Prop} {value : Fields} :
    Satisfies sat value (noted d f) ↔ Satisfies sat value f := by
  have hflag : Entries.get? (noted d f) "additionalProperties" = Entries.get? f "additionalProperties" :=
    get?_noted (by simp) d f
  constructor
  · intro h
    exact ⟨(meets_noted d f).1 h.meets, by simpa [hflag] using h.closed⟩
  · intro h
    exact ⟨(meets_noted d f).2 h.meets, by simpa [hflag] using h.closed⟩

end

end Fragment

open Fragment

/-! ## Object codecs and intersections of them -/

namespace Codec

/-- an object codec, or an intersection of such codecs, without a union at any depth -/
inductive Solid : Codec → Prop
  | object (m : Marks) (shape : List (Text × Codec)) : Solid (.object m shape)
  | intersection (m : Marks) {members : List Codec} : (∀ c ∈ members, Solid c) → Solid (.intersection m members)

/-- an object codec, or a member of an intersection at some depth, has a field of the name -/
inductive Declares (name : Text) : Codec → Prop
  | object {m : Marks} {shape : List (Text × Codec)} : name ∈ names shape → Declares name (.object m shape)
  | member {m : Marks} {members : List Codec} {c : Codec} : c ∈ members → Declares name c →
      Declares name (.intersection m members)

end Codec

/-- the first handler of a kind is one that does what the kind prescribes -/
def Context.Keeps (ctx : Context) (k : Kind) : Prop :=
  ∃ handler, ctx.registry.find? (.kind k) = some handler ∧ handler.action = .builtin

/-! ## Runs -/

section

variable {ctx : Context} {enter : Codec → Compile Fields} {p p' : Progress} {f : Fields}

theorem runs_kept {c : Codec} {k : Kind} (hk : c.tag = .kind k) (hkeeps : ctx.Keeps k) :
    Runs (fragmentOf ctx enter c) p f p' ↔
      ∃ g, Runs (prescribed ctx enter c) p g p' ∧ f = described c.description g := by
  obtain ⟨handler, hfind, haction⟩ := hkeeps
  rw [fragmentOf_eq]
  rw [← hk] at hfind
  exact runs_found hfind haction

/-- the fragments of a list are those of its codecs, each compiled at some point on the way -/
theorem forall₂_fragmentsOf {cs : List Codec} {fs : List Fields} (h : Runs (fragmentsOf ctx enter cs) p fs p') :
    List.Forall₂ (fun c f => ∃ q q', Runs (fragmentOf ctx enter c) q f q') cs fs := by
  induction cs generalizing p fs with
  | nil =>
    obtain ⟨rfl, rfl⟩ := runs_pure.1 h
    exact .nil
  | cons c cs ih =>
    simp only [fragmentsOf, runs_bind, runs_pure] at h
    obtain ⟨f, q, hf, gs, q', hgs, rfl, rfl⟩ := h
    exact .cons ⟨p, q, hf⟩ (ih hgs)

theorem names_fragmentsOfShape {shape : List (Text × Codec)} {fs : Entries Fields}
    (h : Runs (fragmentsOfShape ctx enter shape) p fs p') : names fs = names shape := by
  obtain ⟨gs, hgs, rfl⟩ := runs_fragmentsOfShape.1 h
  have hlength := (forall₂_fragmentsOf hgs).length_eq
  refine Entries.names_zip ?_
  rw [← hlength, names, List.length_map, List.length_map]

/-- what an object codec, or an intersection of such, compiles to: an object schema for the fields that it declares -/
structure SolidFragment (c : Codec) (f : Fields) : Prop where
  mergeable : Mergeable f
  single : alternatives? f = none
  object : isObject f = true
  declares : ∀ name, name ∈ names (propertiesOf f) ↔ c.Declares name

theorem undescribed_object (properties : Fields) (allow : Bool) (required : List Json) :
    Undescribed (Fragment.object properties allow required) := by
  simp [Fragment.object]

theorem undescribed_joined (allow : Bool) (fs : List Fields) : Undescribed (joined allow fs) := undescribed_object _ _ _

theorem solidFragment_object {c : Codec} {d : Option Text} {properties : Fields} {allow : Bool} {required : List Json}
    (h : ∀ name, name ∈ names properties ↔ c.Declares name) :
    SolidFragment c (noted d (Fragment.object properties allow required)) := by
  refine ⟨.noted d ⟨rfl, rfl⟩, ?_, ?_, fun name => ?_⟩
  · rw [alternatives?_noted]
    rfl
  · rw [isObject_noted]
    rfl
  · rw [propertiesOf_noted]
    exact h name

theorem declares_object {m : Marks} {shape : List (Text × Codec)} {name : Text} :
    (Codec.object m shape).Declares name ↔ name ∈ names shape :=
  ⟨fun h => by cases h; assumption, .object⟩

theorem declares_intersection {m : Marks} {members : List Codec} {name : Text} :
    (Codec.intersection m members).Declares name ↔ ∃ c ∈ members, c.Declares name :=
  ⟨fun h => by cases h with | member hc hd => exact ⟨_, hc, hd⟩, fun ⟨_, hc, hd⟩ => .member hc hd⟩

/-- what solid fragments are joined into declares what their codecs do -/
theorem declares_joined {members : List Codec} {fs : List Fields} (h : List.Forall₂ SolidFragment members fs)
    (name : Text) : (∃ f ∈ fs, name ∈ names (propertiesOf f)) ↔ ∃ c ∈ members, c.Declares name := by
  constructor
  · rintro ⟨f, hf, hname⟩
    obtain ⟨c, hc, hsolid⟩ := forall₂_mem_right h f hf
    exact ⟨c, hc, (hsolid.declares name).1 hname⟩
  · rintro ⟨c, hc, hname⟩
    obtain ⟨f, hf, hsolid⟩ := forall₂_mem_right h.flip c hc
    exact ⟨f, hf, (hsolid.declares name).2 hname⟩

theorem intersect_solid {members : List Codec} {fs : List Fields} (h : List.Forall₂ SolidFragment members fs)
    (allow : Bool) : intersect fs allow = .ok (joined allow fs) := by
  refine intersect_joined (fun f hf => ?_) fun f hf => ?_
  · obtain ⟨c, -, hsolid⟩ := forall₂_mem_right h f hf
    exact hsolid.mergeable
  · obtain ⟨c, -, hsolid⟩ := forall₂_mem_right h f hf
    exact hsolid.single

theorem forall₂_solid {cs : List Codec} {fs : List Fields}
    (h : ∀ c ∈ cs, ∀ q f q', Runs (fragmentOf ctx enter c) q f q' → SolidFragment c f)
    (hfs : Runs (fragmentsOf ctx enter cs) p fs p') : List.Forall₂ SolidFragment cs fs := by
  have hruns := List.forall₂_iff_zip.1 (forall₂_fragmentsOf hfs)
  refine List.forall₂_iff_zip.2 ⟨hruns.1, fun {c f} hmem => ?_⟩
  obtain ⟨q, q', hf⟩ := hruns.2 hmem
  exact h c (List.of_mem_zip hmem).1 q f q' hf

theorem runs_solid (hobject : ctx.Keeps .object) (hintersection : ctx.Keeps .intersection) {c : Codec} (hc : c.Solid)
    (h : Runs (fragmentOf ctx enter c) p f p') : SolidFragment c f := by
  induction hc generalizing p f p' with
  | object m shape =>
    obtain ⟨g, hg, rfl⟩ := (runs_kept rfl hobject).1 h
    obtain ⟨properties, q, hp, hg⟩ := runs_bind.1 hg
    obtain ⟨rfl, rfl⟩ := runs_pure.1 hg
    rw [objectFragment, described_eq (undescribed_object _ _ _)]
    refine solidFragment_object fun name => ?_
    rw [Entries.names_mapValues, names_fragmentsOfShape hp, declares_object]
  | @intersection m members _ ih =>
    obtain ⟨g, hg, rfl⟩ := (runs_kept rfl hintersection).1 h
    obtain ⟨fs, q, hfs, hg⟩ := runs_bind.1 hg
    obtain ⟨hmerge, rfl⟩ := runs_ofMerge.1 hg
    have hsolid := forall₂_solid (fun c hc _ _ _ hf => ih c hc hf) hfs
    cases (intersect_solid hsolid ctx.allowAdditional).symm.trans hmerge
    rw [described_eq (undescribed_joined _ _)]
    refine solidFragment_object fun name => ?_
    rw [declares_intersection, ← declares_joined hsolid]
    exact mem_names_joined ctx.allowAdditional

/-- an intersection has the fragment that the fragments of its members merge into -/
theorem runs_intersection (hintersection : ctx.Keeps .intersection) (m : Marks) {members : List Codec}
    {fs : List Fields} (hfs : Runs (fragmentsOf ctx enter members) p fs p')
    (hmerge : intersect fs ctx.allowAdditional = .ok f) :
    Runs (fragmentOf ctx enter (.intersection m members)) p (described m.description f) p' :=
  (runs_kept rfl hintersection).2 ⟨f, runs_bind.2 ⟨fs, p', hfs, runs_ofMerge.2 ⟨hmerge, rfl⟩⟩, rfl⟩

/-! ## A union beside an object -/

/-- the fragment of a union, or of an intersection with one -/
def someOf (d : Option Text) (fs : List Fields) : Fields := noted d [("anyOf", exposed fs)]

theorem described_someOf (d : Option Text) (fs : List Fields) : described d [("anyOf", exposed fs)] = someOf d fs :=
  described_eq (by simp) d

theorem satisfiesSome_someOf {sat : Json → Json → Prop} {value : Fields} {d : Option Text} {fs : List Fields} :
    SatisfiesSome sat value (someOf d fs) ↔ ∃ a ∈ fs, Satisfies sat value a := by
  have halternatives : Entries.get? (someOf d fs) "anyOf" = some (exposed fs) := get?_noted (by simp) d _
  constructor
  · rintro ⟨branches, a, hbranches, ha, hsat⟩
    cases hbranches.symm.trans halternatives
    obtain ⟨b, hb, hba⟩ := List.mem_map.1 ha
    cases hba
    exact ⟨a, hb, hsat⟩
  · rintro ⟨a, ha, hsat⟩
    exact ⟨fs.map .obj, a, halternatives, List.mem_map_of_mem ha, hsat⟩

theorem runs_union (hunion : ctx.Keeps .union) (m : Marks) {branches : List Codec} {fs : List Fields}
    (hfs : Runs (fragmentsOf ctx enter branches) p fs p') :
    Runs (fragmentOf ctx enter (.union m branches)) p (someOf m.description fs) p' :=
  (runs_kept rfl hunion).2
    ⟨[("anyOf", exposed fs)], runs_bind.2 ⟨fs, p', hfs, runs_pure.2 ⟨rfl, rfl⟩⟩, (described_someOf _ _).symm⟩

theorem mergeable_someOf (d : Option Text) (fs : List Fields) : Mergeable (someOf d fs) := .noted d ⟨rfl, rfl⟩

theorem alternatives?_someOf (d : Option Text) (fs : List Fields) :
    alternatives? (someOf d fs) = some (exposed fs) := by
  rw [someOf, alternatives?_noted]
  rfl

theorem isObject_someOf (d : Option Text) (fs : List Fields) : isObject (someOf d fs) = false := by
  rw [someOf, isObject_noted]
  rfl

/-- a codec and the branches of a union are compiled one after the other, as the members of an intersection are -/
inductive InTurn (ctx : Context) (enter : Codec → Compile Fields) (c : Codec) (m : Marks) (branches : List Codec) :
    List Codec → Progress → Fields → List Fields → Progress → Prop
  | codecFirst {p q p' : Progress} {f : Fields} {fs : List Fields} : Runs (fragmentOf ctx enter c) p f q →
      Runs (fragmentsOf ctx enter branches) q fs p' → InTurn ctx enter c m branches [c, .union m branches] p f fs p'
  | unionFirst {p q p' : Progress} {f : Fields} {fs : List Fields} : Runs (fragmentsOf ctx enter branches) p fs q →
      Runs (fragmentOf ctx enter c) q f p' → InTurn ctx enter c m branches [.union m branches, c] p f fs p'

theorem runs_pair {c c' : Codec} {q : Progress} {g : Fields} (hf : Runs (fragmentOf ctx enter c) p f q)
    (hg : Runs (fragmentOf ctx enter c') q g p') : Runs (fragmentsOf ctx enter [c, c']) p [f, g] p' := by
  simp only [fragmentsOf, runs_bind, runs_pure]
  exact ⟨f, q, hf, [g], p', ⟨g, p', hg, [], p', ⟨rfl, rfl⟩, rfl, rfl⟩, rfl, rfl⟩

theorem intersect_someOf {d : Option Text} {fs gs : List Fields} {c : Codec} (hf : SolidFragment c f)
    (hfs : ∀ b ∈ fs, Mergeable b) (hgs : gs = [f, someOf d fs] ∨ gs = [someOf d fs, f]) (allow : Bool) :
    intersect gs allow = .ok [("anyOf", exposed (fs.map fun b => joined allow [f, b]))] := by
  have hpairs : pairs allow [fs] [f] = fs.map fun b => joined allow [f, b] := by
    simp only [pairs, List.flatMap_singleton, List.map_singleton, ← List.map_eq_flatMap]
  have hmergeable : ∀ g ∈ gs, Mergeable g := by
    intro g hg
    have hcases : g = f ∨ g = someOf d fs := by
      rcases hgs with rfl | rfl
      · simpa using hg
      · simpa [or_comm] using hg
    rcases hcases with rfl | rfl
    · exact hf.mergeable
    · exact mergeable_someOf d fs
  have hunions : gs.filterMap alternatives? = [fs].map exposed := by
    rcases hgs with rfl | rfl <;> simp [hf.single, alternatives?_someOf]
  have hobjects : gs.filter isObject = [f] := by
    rcases hgs with rfl | rfl <;> simp [hf.object, isObject_someOf]
  rw [intersect_product hmergeable hunions (by simp) (by simpa using hfs), hobjects, hpairs]

theorem InTurn.runs (hunion : ctx.Keeps .union) {c : Codec} {m : Marks} {branches members : List Codec}
    {fs : List Fields} (h : InTurn ctx enter c m branches members p f fs p') :
    ∃ gs, Runs (fragmentsOf ctx enter members) p gs p' ∧
      (gs = [f, someOf m.description fs] ∨ gs = [someOf m.description fs, f]) := by
  cases h with
  | codecFirst hf hfs => exact ⟨_, runs_pair hf (runs_union hunion m hfs), .inl rfl⟩
  | unionFirst hfs hf => exact ⟨_, runs_pair (runs_union hunion m hfs) hf, .inr rfl⟩

/-! ## Meaning -/

variable (sat : Json → Json → Prop)

theorem intersection_solid (hobject : ctx.Keeps .object) (hintersection : ctx.Keeps .intersection) (m : Marks)
    {members : List Codec} {fs : List Fields} (hmembers : ∀ c ∈ members, c.Solid)
    (hfs : Runs (fragmentsOf ctx enter members) p fs p') (agree : Agree fs) :
    ∃ f, Runs (fragmentOf ctx enter (.intersection m members)) p f p' ∧ ∀ value : Fields,
      Satisfies sat value f ↔ (∀ g ∈ fs, Meets sat value g) ∧
        (ctx.allowAdditional = false → ∀ name ∈ names value, ∃ c ∈ members, c.Declares name) := by
  have hsolid := forall₂_solid (fun c hc _ _ _ hf => runs_solid hobject hintersection (hmembers c hc) hf) hfs
  refine ⟨_, runs_intersection hintersection m hfs (intersect_solid hsolid ctx.allowAdditional), fun value => ?_⟩
  rw [described_eq (undescribed_joined _ _), satisfies_noted, satisfies_joined agree]
  simp only [declares_joined hsolid]

theorem intersection_union (hobject : ctx.Keeps .object) (hintersection : ctx.Keeps .intersection)
    (hunion : ctx.Keeps .union) (m : Marks) {c : Codec} {mu : Marks} {branches members : List Codec} {g : Fields}
    {gs : List Fields} (hc : c.Solid) (hbranches : ∀ b ∈ branches, b.Solid)
    (hturn : InTurn ctx enter c mu branches members p g gs p') (agree : ∀ b ∈ gs, Agree [g, b]) :
    ∃ f, Runs (fragmentOf ctx enter (.intersection m members)) p f p' ∧ ∀ value : Fields,
      SatisfiesSome sat value f ↔ ∃ e ∈ branches.zip gs, Meets sat value g ∧ Meets sat value e.2 ∧
        (ctx.allowAdditional = false → ∀ name ∈ names value, c.Declares name ∨ e.1.Declares name) := by
  have hg : SolidFragment c g := by
    cases hturn with
    | codecFirst hf _ | unionFirst _ hf => exact runs_solid hobject hintersection hc hf
  have hgs : List.Forall₂ SolidFragment branches gs := by
    cases hturn with
    | codecFirst _ hfs | unionFirst hfs _ =>
      exact forall₂_solid (fun b hb _ _ _ hf => runs_solid hobject hintersection (hbranches b hb) hf) hfs
  have hmergeable : ∀ b ∈ gs, Mergeable b := by
    intro b hb
    obtain ⟨d, -, hsolid⟩ := forall₂_mem_right hgs b hb
    exact hsolid.mergeable
  obtain ⟨fs, hfs, hshape⟩ := hturn.runs hunion
  have hmerge := intersect_someOf hg hmergeable hshape ctx.allowAdditional
  refine ⟨_, runs_intersection hintersection m hfs hmerge, fun value => ?_⟩
  rw [described_someOf, satisfiesSome_someOf]
  -- one alternative for each branch, and it means what the codec and the branch mean together
  have hmeans : ∀ e ∈ branches.zip gs, Satisfies sat value (joined ctx.allowAdditional [g, e.2]) ↔
      Meets sat value g ∧ Meets sat value e.2 ∧
        (ctx.allowAdditional = false → ∀ name ∈ names value, c.Declares name ∨ e.1.Declares name) := by
    intro e he
    have hsolid : SolidFragment e.1 e.2 := (List.forall₂_iff_zip.1 hgs).2 he
    rw [satisfies_joined (agree e.2 (List.of_mem_zip he).2)]
    simp [hg.declares, hsolid.declares, and_assoc]
  constructor
  · rintro ⟨a, ha, hsat⟩
    obtain ⟨b, hb, rfl⟩ := List.mem_map.1 ha
    rw [← List.map_snd_zip hgs.length_eq.ge] at hb
    obtain ⟨e, he, rfl⟩ := List.mem_map.1 hb
    exact ⟨e, he, (hmeans e he).1 hsat⟩
  · rintro ⟨e, he, hmeets⟩
    exact ⟨_, List.mem_map_of_mem (List.of_mem_zip he).2, (hmeans e he).2 hmeets⟩

end

/-- **An intersection means what its members mean together.** Where members that declare a field in common compile it to
one schema, a value satisfies the intersection of object codecs when it meets each of them and, unless other fields are
allowed, has only fields that one of them declares. Beside a union there is one alternative for each of its branches,
and it means that together with the object. -/
theorem intersection_keeps_meaning {ctx : Context} (hobject : ctx.Keeps .object)
    (hintersection : ctx.Keeps .intersection) (hunion : ctx.Keeps .union) (depth : Nat) (m : Marks)
    (sat : Json → Json → Prop) :
    (∀ members p fs p', (∀ c ∈ members, c.Solid) →
      Runs (fragmentsOf ctx (fragmentAt ctx depth) members) p fs p' → Agree fs →
      ∃ f, Runs (fragmentAt ctx (depth + 1) (.intersection m members)) p f p' ∧ ∀ value : Fields,
        Satisfies sat value f ↔ (∀ g ∈ fs, Meets sat value g) ∧
          (ctx.allowAdditional = false → ∀ name ∈ names value, ∃ c ∈ members, c.Declares name)) ∧
    ∀ c mu branches members p g gs p', c.Solid → (∀ b ∈ branches, b.Solid) →
      InTurn ctx (fragmentAt ctx depth) c mu branches members p g gs p' → (∀ b ∈ gs, Agree [g, b]) →
      ∃ f, Runs (fragmentAt ctx (depth + 1) (.intersection m members)) p f p' ∧ ∀ value : Fields,
        SatisfiesSome sat value f ↔ ∃ e ∈ branches.zip gs, Meets sat value g ∧ Meets sat value e.2 ∧
          (ctx.allowAdditional = false → ∀ name ∈ names value, c.Declares name ∨ e.1.Declares name) := by
  refine ⟨?_, ?_⟩
  · intro members p fs p' hmembers hfs agree
    exact intersection_solid sat hobject hintersection m hmembers hfs agree
  · intro c mu branches members p g gs p' hc hbranches hturn agree
    exact intersection_union sat hobject hintersection hunion m hc hbranches hturn agree

/-! ### People with dates -/

/-- dates compile to strings of a format, all else as its kind prescribes -/
def dated : Context where
  registry := ⟨.text "date", .constant [("type", .str "string"), ("format", .str "date")]⟩ :: Registry.builtin
  target := .encoded
  allowAdditional := false
  bodies := []

/-- has a name -/
def named : Codec := .object {} [("name", .plain {} (.text "string"))]

/-- has a name, and maybe a date -/
def born : Codec := .intersection {} [named, .object {} [("on", .plain ⟨false, none⟩ (.text "date"))]]

/-- has a date and a place -/
def moved : Codec := .object ⟨true, some "a move"⟩ [("on", .plain {} (.text "date")), ("to", .plain {} (.text "any"))]

/-- only strings are right for a schema of a string -/
def Spelled (schema value : Json) : Prop :=
  ∀ fields, schema = .obj fields → Entries.get? fields "type" = some (.str "string") → ∃ s, value = .str s

theorem dated_intersection_meaning :
    dated.Keeps .object ∧ dated.Keeps .intersection ∧ dated.Keeps .union ∧
    (∃ fs f, (∀ c ∈ [named, born, moved], c.Solid) ∧
      Runs (fragmentsOf dated (fragmentAt dated 0) [named, born, moved]) {} fs {} ∧ Agree fs ∧
      Runs (fragmentAt dated 1 (.intersection {} [named, born, moved])) {} f {} ∧ ∀ value : Fields,
        Satisfies Spelled value f ↔ (∀ g ∈ fs, Meets Spelled value g) ∧
          (dated.allowAdditional = false → ∀ name ∈ names value, ∃ c ∈ [named, born, moved], c.Declares name)) ∧
    ∃ g gs f, moved.Solid ∧ (∀ b ∈ [named, born], b.Solid) ∧
      InTurn dated (fragmentAt dated 0) moved {} [named, born] [.union {} [named, born], moved] {} g gs {} ∧
      (∀ b ∈ gs, Agree [g, b]) ∧
      Runs (fragmentAt dated 1 (.intersection {} [.union {} [named, born], moved])) {} f {} ∧ ∀ value : Fields,
        SatisfiesSome Spelled value f ↔ ∃ e ∈ [named, born].zip gs, Meets Spelled value g ∧ Meets Spelled value e.2 ∧
          (dated.allowAdditional = false → ∀ name ∈ names value, moved.Declares name ∨ e.1.Declares name) := by
  have hobject : dated.Keeps .object := ⟨⟨.kind .object, .builtin⟩, rfl, rfl⟩
  have hintersection : dated.Keeps .intersection := ⟨⟨.kind .intersection, .builtin⟩, rfl, rfl⟩
  have hunion : dated.Keeps .union := ⟨⟨.kind .union, .builtin⟩, rfl, rfl⟩
  have hnamed : named.Solid := .object _ _
  have hmoved : moved.Solid := .object _ _
  have hborn : born.Solid := .intersection _ (List.forall_mem_cons.2 ⟨hnamed, by simpa using .object _ _⟩)
  obtain ⟨honly, hbeside⟩ := intersection_keeps_meaning hobject hintersection hunion 0 {} Spelled
  refine ⟨hobject, hintersection, hunion, ?_, ?_⟩
  · have hsolid : ∀ c ∈ [named, born, moved], c.Solid := by simp [hnamed, hborn, hmoved]
    obtain ⟨fs, hfs, hagree⟩ : ∃ fs, Runs (fragmentsOf dated (fragmentAt dated 0) [named, born, moved]) {} fs {} ∧
      Agree fs := ⟨_, rfl, by decide⟩
    obtain ⟨f, hf, hmeans⟩ := honly _ _ _ _ hsolid hfs hagree
    exact ⟨fs, f, hsolid, hfs, hagree, hf, hmeans⟩
  · have hsolid : ∀ b ∈ [named, born], b.Solid := by simp [hnamed, hborn]
    obtain ⟨g, gs, hturn, hagree⟩ : ∃ g gs, InTurn dated (fragmentAt dated 0) moved {} [named, born]
        [.union {} [named, born], moved] {} g gs {} ∧ ∀ b ∈ gs, Agree [g, b] :=
      ⟨_, _, .unionFirst rfl rfl, by decide⟩
    obtain ⟨f, hf, hmeans⟩ := hbeside _ _ _ _ _ _ _ _ hmoved hsolid hturn hagree
    exact ⟨g, gs, f, hmoved, hsolid, hturn, hagree, hf, hmeans⟩

end CodecCompiler
