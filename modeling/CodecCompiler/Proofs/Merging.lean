/-
What merging amounts to. Fragments whose properties are an object and whose required names are a list, where they have
such parts, are merged in one way: the properties by last write, the required names one list behind the other.

- `Fragment.propertiesOf`, `Fragment.requiredOf` read the parts of a fragment; `Fragment.Mergeable` says that nothing
  else stands there.
- `Fragment.joined` is the object schema that fragments merge into.
- `mergeObjects_joined`, `intersect_joined`: two fragments, and the members of an intersection without unions, merge
  into it.
- `intersect_product`: with unions, every branch of every union is joined with every object member.
- `intersect_mergedWith`: either way, where the alternatives are known.
- `Carried.intersect`: a change of fragments that keeps what a merge reads commutes with merging.
- `Ready.intersect`: fragments that a merge can read merge into one that another merge can read.
- `Respects.intersect`: a relation between fragments that keeps what a merge reads is kept by merging.
-/
import CodecCompiler.Proofs.Translation

namespace CodecCompiler

namespace Fragment

/-! ## The parts of a fragment -/

/-- the properties of a fragment, none where it has no such part -/
def propertiesOf (f : Fields) : Fields :=
  match Entries.get? f "properties" with
  | some (.obj properties) => properties
  | _ => []

/-- the required names of a fragment, none where it has no such part -/
def requiredOf (f : Fields) : List Json :=
  match Entries.get? f "required" with
  | some (.arr required) => required
  | _ => []

/-- where the fragment has properties they are an object, and where it has required names they are a list -/
structure Mergeable (f : Fields) : Prop where
  properties : (Entries.get? f "properties").getD (.obj []) = .obj (propertiesOf f)
  required : (Entries.get? f "required").getD (.arr []) = .arr (requiredOf f)

theorem mergeable_iff {f : Fields} :
    Mergeable f ↔ (∀ v, Entries.get? f "properties" = some v → ∃ properties, v = .obj properties) ∧
      ∀ v, Entries.get? f "required" = some v → ∃ required, v = .arr required := by
  constructor
  · intro h
    refine ⟨fun v hv => ⟨propertiesOf f, ?_⟩, fun v hv => ⟨requiredOf f, ?_⟩⟩
    · rw [← h.properties, hv, Option.getD_some]
    · rw [← h.required, hv, Option.getD_some]
  · rintro ⟨hproperties, hrequired⟩
    refine ⟨?_, ?_⟩
    · unfold propertiesOf
      cases hv : Entries.get? f "properties" with
      | none => rfl
      | some v =>
        obtain ⟨properties, rfl⟩ := hproperties v hv
        rfl
    · unfold requiredOf
      cases hv : Entries.get? f "required" with
      | none => rfl
      | some v =>
        obtain ⟨required, rfl⟩ := hrequired v hv
        rfl

/-- the object schema that fragments merge into -/
def joined (allow : Bool) (fs : List Fields) : Fields :=
  object (Entries.mergeAll (fs.map propertiesOf)) allow (fs.flatMap requiredOf)

section

variable (allow : Bool) (fs : List Fields)

@[simp] theorem propertiesOf_joined : propertiesOf (joined allow fs) = Entries.mergeAll (fs.map propertiesOf) := rfl

@[simp] theorem requiredOf_joined : requiredOf (joined allow fs) = fs.flatMap requiredOf := rfl

end

/-! ### Notes in front -/

theorem get?_noted {key : Text} (hk : key ≠ "description") (d : Option Text) (f : Fields) :
    Entries.get? (noted d f) key = Entries.get? f key := by
  cases d with
  | none => rfl
  | some d =>
    simp only [noted]
    split_ifs
    · rfl
    · rw [Entries.get?_cons]
      simp only [hk.symm, ite_false]

theorem alternatives?_eq_some {f : Fields} {v : Json} :
    alternatives? f = some v ↔ Entries.get? f "anyOf" = some v ∧ v ≠ .null := by
  unfold alternatives?
  cases Entries.get? f "anyOf" with
  | none => simp
  | some w =>
    cases w with
    | null =>
      refine iff_of_false (by simp) ?_
      rintro ⟨h, hsome⟩
      exact hsome (Option.some.inj h).symm
    | _ =>
      refine ⟨fun h => ?_, And.left⟩
      cases h
      exact ⟨rfl, by simp⟩

theorem alternatives?_noted (d : Option Text) (f : Fields) : alternatives? (noted d f) = alternatives? f := by
  unfold alternatives?
  rw [get?_noted (by simp)]

section

variable (d : Option Text) (f : Fields)

@[simp] theorem propertiesOf_noted : propertiesOf (noted d f) = propertiesOf f := by
  unfold propertiesOf
  rw [get?_noted (by simp)]

@[simp] theorem requiredOf_noted : requiredOf (noted d f) = requiredOf f := by
  unfold requiredOf
  rw [get?_noted (by simp)]

theorem isObject_noted : isObject (noted d f) = isObject f := by
  unfold isObject
  rw [get?_noted (by simp)]

theorem Mergeable.noted {f : Fields} (h : Mergeable f) : Mergeable (noted d f) := by
  refine ⟨?_, ?_⟩
  · rw [get?_noted (by simp), propertiesOf_noted]
    exact h.properties
  · rw [get?_noted (by simp), requiredOf_noted]
    exact h.required

end

/-! ## Merging -/

variable {allow : Bool}

/-- objects are merged as their entries -/
theorem mergeValues_objects (maps : List Fields) : mergeValues (maps.map .obj) = .ok (Entries.mergeAll maps) := by
  have hnamed : (maps.map Json.obj).mapM namedOf = .ok (maps.map Named.ofFields) := by
    rw [List.mapM_map]
    exact mapM_eq_ok fun _ _ => rfl
  rw [mergeValues, hnamed]
  refine congrArg Except.ok ?_
  rw [Named.mergeAll_ofFields, Named.toFields_ofFields]

/-- by pairs, equal numbers are one name, and the text of their digits is another -/
example : mergeValues [.arr [.arr [.int 1, .null], .arr [.str "1", .null]], .arr [.arr [.bool true, .str "b"]]] =
    .ok [("1", .str "b"), ("1", .null)] := rfl

theorem mergeObjects_joined {a b : Fields} (ha : Mergeable a) (hb : Mergeable b) :
    mergeObjects a b allow = .ok (joined allow [a, b]) := by
  have hvalues : mergeValues [.obj (propertiesOf a), .obj (propertiesOf b)] =
      .ok (Entries.mergeAll [propertiesOf a, propertiesOf b]) := mergeValues_objects [propertiesOf a, propertiesOf b]
  simp only [mergeObjects, ha.properties, hb.properties, ha.required, hb.required, hvalues]
  simp only [joined, List.map_cons, List.map_nil, List.flatMap_cons, List.flatMap_nil, List.append_nil]
  rfl

theorem partOrEmpty_of_obj {f : Fields} {name : Text} {fields : Fields}
    (h : (Entries.get? f name).getD (.obj []) = .obj fields) : partOrEmpty f name (.obj []) = .obj fields := by
  unfold partOrEmpty
  cases hg : Entries.get? f name with
  | none => rwa [hg] at h
  | some value =>
    rw [hg, Option.getD_some] at h
    subst h
    cases fields <;> rfl

theorem partOrEmpty_of_arr {f : Fields} {name : Text} {items : List Json}
    (h : (Entries.get? f name).getD (.arr []) = .arr items) : partOrEmpty f name (.arr []) = .arr items := by
  unfold partOrEmpty
  cases hg : Entries.get? f name with
  | none => rwa [hg] at h
  | some value =>
    rw [hg, Option.getD_some] at h
    subst h
    cases items <;> rfl

/-- folding adds the parts of each fragment to those collected before -/
theorem fold_joined {fs : List Fields} (h : ∀ f ∈ fs, Mergeable f) (properties : Fields) (required : List Json) :
    fold fs (.ofFields properties, required) =
      .ok (.ofFields ((fs.map propertiesOf).foldl Entries.merge properties), required ++ fs.flatMap requiredOf) := by
  induction fs generalizing properties required with
  | nil => simp [fold]
  | cons f fs ih =>
    have hf := h f List.mem_cons_self
    have hrest := ih (fun g hg => h g (List.mem_cons_of_mem f hg)) (Entries.merge properties (propertiesOf f))
      (required ++ requiredOf f)
    simp only [fold, partOrEmpty_of_obj hf.properties, partOrEmpty_of_arr hf.required]
    rw [List.map_cons, List.foldl_cons, List.flatMap_cons, ← List.append_assoc]
    rw [← Named.merge_ofFields] at hrest
    exact hrest

/-- **Members without alternatives** are joined into one object schema. -/
theorem intersect_joined {fs : List Fields} (h : ∀ f ∈ fs, Mergeable f) (hnone : ∀ f ∈ fs, alternatives? f = none) :
    intersect fs allow = .ok (joined allow fs) := by
  have hempty : fs.filterMap alternatives? = [] := List.filterMap_eq_nil_iff.2 hnone
  have hfold : fold fs ([], []) =
      .ok (.ofFields (Entries.mergeAll (fs.map propertiesOf)), fs.flatMap requiredOf) := fold_joined h [] []
  simp only [intersect, hempty, hfold]
  refine congrArg (fun properties => Except.ok (object properties allow _)) ?_
  exact Named.toFields_ofFields _

/-- every branch of every union joined with every object schema -/
def pairs (allow : Bool) (unions : List (List Fields)) (objects : List Fields) : List Fields :=
  unions.flatMap fun branches => branches.flatMap fun b => objects.map fun o => joined allow [o, b]

/-- which union a branch comes from makes no difference -/
theorem pairs_eq (unions : List (List Fields)) (objects : List Fields) :
    pairs allow unions objects = unions.flatten.flatMap fun b => objects.map fun o => joined allow [o, b] := by
  rw [pairs, ← List.flatMap_id, List.flatMap_assoc]
  rfl

/-- branches as the value under which a fragment exposes them -/
def exposed (branches : List Fields) : Json := .arr (branches.map .obj)

theorem product_pairs {unions : List (List Fields)} {objects : List Fields} (ho : ∀ o ∈ objects, Mergeable o)
    (hu : ∀ branches ∈ unions, ∀ b ∈ branches, Mergeable b) :
    product (unions.map exposed) objects allow = .ok ((pairs allow unions objects).map .obj) := by
  have hbranch : ∀ branches ∈ unions, ∀ b ∈ branches, (objects.mapM fun o => do
      return Json.obj (← mergeObjects o (← asObject (.obj b)) allow)) =
        .ok (objects.map fun o => Json.obj (joined allow [o, b])) := by
    intro branches hbranches b hb
    refine mapM_eq_ok fun o hmem => ?_
    rw [bind_eq_ok_iff]
    exact ⟨b, rfl, by rw [mergeObjects_joined (ho o hmem) (hu branches hbranches b hb)]; rfl⟩
  have hunion : ∀ branches ∈ unions, (do
      (← items (exposed branches)).mapM fun branch => objects.mapM fun o => do
        return Json.obj (← mergeObjects o (← asObject branch) allow)) =
          .ok (branches.map fun b => objects.map fun o => Json.obj (joined allow [o, b])) := by
    intro branches hbranches
    have hitems : items (exposed branches) = .ok (branches.map .obj) := rfl
    rw [hitems]
    change (branches.map Json.obj).mapM _ = _
    rw [List.mapM_map]
    exact mapM_eq_ok fun b hb => hbranch branches hbranches b hb
  have hall : (unions.map exposed).mapM (fun union => do
      (← items union).mapM fun branch => objects.mapM fun o => do
        return Json.obj (← mergeObjects o (← asObject branch) allow)) =
          .ok (unions.map fun branches => branches.map fun b => objects.map fun o =>
            Json.obj (joined allow [o, b])) := by
    rw [List.mapM_map]
    exact mapM_eq_ok hunion
  unfold product
  rw [hall]
  refine congrArg Except.ok ?_
  simp only [pairs, List.flatMap_def, List.map_flatten, List.flatten_flatten, List.map_map, Function.comp_def]

/-- **Members with alternatives**: the result is the alternatives that the branches and the object members make. -/
theorem intersect_product {fs : List Fields} {unions : List (List Fields)} (h : ∀ f ∈ fs, Mergeable f)
    (hunions : fs.filterMap alternatives? = unions.map exposed) (hsome : unions ≠ [])
    (hbranches : ∀ branches ∈ unions, ∀ b ∈ branches, Mergeable b) :
    intersect fs allow = .ok [("anyOf", exposed (pairs allow unions (fs.filter isObject)))] := by
  have hproduct : product (unions.map exposed) (fs.filter isObject) allow = _ :=
    product_pairs (fun o ho => h o (List.mem_filter.1 ho).1) hbranches
  cases unions with
  | nil => exact absurd rfl hsome
  | cons branches unions =>
    rw [List.map_cons] at hunions hproduct
    simp only [intersect, hunions, hproduct]
    rfl

/-- alternatives that are branches with a property, each by itself, are so together -/
theorem exists_unions {P : Fields → Prop} {fs : List Fields}
    (h : ∀ f ∈ fs, ∀ union, alternatives? f = some union → ∃ branches, union = exposed branches ∧ ∀ b ∈ branches, P b) :
    ∃ unions : List (List Fields), fs.filterMap alternatives? = unions.map exposed ∧
      ∀ branches ∈ unions, ∀ b ∈ branches, P b := by
  induction fs with
  | nil => exact ⟨[], rfl, by simp⟩
  | cons f fs ih =>
    obtain ⟨unions, hunions, hall⟩ := ih fun g hg => h g (List.mem_cons_of_mem f hg)
    cases hu : alternatives? f with
    | none => exact ⟨unions, by rw [List.filterMap_cons, hu, hunions], hall⟩
    | some union =>
      obtain ⟨branches, rfl, hbranches⟩ := h f List.mem_cons_self union hu
      refine ⟨branches :: unions, by rw [List.filterMap_cons, hu, hunions, List.map_cons], ?_⟩
      exact List.forall_mem_cons.2 ⟨hbranches, hall⟩

/-- what fragments merge into, where the given unions are among them -/
def mergedWith (allow : Bool) (unions : List (List Fields)) (fs : List Fields) : Fields :=
  if unions = [] then joined allow fs else [("anyOf", exposed (pairs allow unions (fs.filter isObject)))]

theorem intersect_mergedWith {fs : List Fields} {unions : List (List Fields)} (h : ∀ f ∈ fs, Mergeable f)
    (hunions : fs.filterMap alternatives? = unions.map exposed)
    (hbranches : ∀ branches ∈ unions, ∀ b ∈ branches, Mergeable b) :
    intersect fs allow = .ok (mergedWith allow unions fs) := by
  unfold mergedWith
  by_cases hsome : unions = []
  · rw [if_pos hsome]
    subst hsome
    exact intersect_joined h (List.filterMap_eq_nil_iff.1 hunions)
  · rw [if_neg hsome]
    exact intersect_product h hunions hsome hbranches

theorem mem_pairs {unions : List (List Fields)} {objects : List Fields} {f : Fields} :
    f ∈ pairs allow unions objects ↔
      ∃ branches ∈ unions, ∃ b ∈ branches, ∃ o ∈ objects, joined allow [o, b] = f := by
  simp only [pairs, List.mem_flatMap, List.mem_map]

/-! ## Changes that a merge carries along -/

/-- a fragment that a merge can read; it has a property, and so have its alternatives -/
structure Ready (P : Fields → Prop) (f : Fields) : Prop where
  mergeable : Mergeable f
  here : P f
  alternatives : ∀ union, alternatives? f = some union →
    ∃ branches, union = exposed branches ∧ ∀ b ∈ branches, Mergeable b ∧ P b

/-- a change of the fragments with a property that keeps what a merge reads: it changes each property and each
alternative by `value`, each required name by `name`, and the closing flag of a merged schema from `allow` to `allow'` -/
structure Carried (allow allow' : Bool) (P : Fields → Prop) (change : Fields → Fields) (value name : Json → Json) :
    Prop where
  object : ∀ properties required, P (object properties allow required) → change (object properties allow required) =
    object (Entries.mapValues value properties) allow' (required.map name)
  properties : ∀ f, P f → propertiesOf (change f) = Entries.mapValues value (propertiesOf f)
  required : ∀ f, requiredOf (change f) = (requiredOf f).map name
  isObject : ∀ f, isObject (change f) = isObject f
  mergeable : ∀ f, P f → Mergeable f → Mergeable (change f)
  field : ∀ f, Entries.get? (change f) "anyOf" = (Entries.get? f "anyOf").map value
  anyOf : ∀ v, change [("anyOf", v)] = ([("anyOf", value v)] : Fields)
  null : value .null = .null
  exposed : ∀ branches, (∀ b ∈ branches, P b) → value (exposed branches) = exposed (branches.map change)
  kept : ∀ fs, (∀ f ∈ fs, P f) → P (joined allow fs)

theorem pairs_kept {P : Fields → Prop} (kept : ∀ fs, (∀ f ∈ fs, P f) → P (joined allow fs))
    {unions : List (List Fields)} {objects : List Fields} (hunions : ∀ branches ∈ unions, ∀ b ∈ branches, P b)
    (hobjects : ∀ o ∈ objects, P o) : ∀ f ∈ pairs allow unions objects, P f := by
  intro f hf
  obtain ⟨branches, hbranches, b, hb, o, ho, rfl⟩ := mem_pairs.1 hf
  exact kept _ (by simp [hobjects o ho, hunions branches hbranches b hb])

namespace Carried

variable {allow' : Bool} {P : Fields → Prop} {change : Fields → Fields} {value name : Json → Json}

/-- **Joining carries the change along.** -/
theorem joined (h : Carried allow allow' P change value name) {fs : List Fields} (hfs : ∀ f ∈ fs, P f) :
    change (joined allow fs) = Fragment.joined allow' (fs.map change) := by
  have hproperties : fs.map (propertiesOf ∘ change) = (fs.map propertiesOf).map (Entries.mapValues value) := by
    rw [List.map_map]
    exact List.map_congr_left fun f hf => h.properties f (hfs f hf)
  unfold Fragment.joined
  rw [h.object _ _ (h.kept fs hfs), ← Entries.mergeAll_mapValues, ← hproperties, List.map_flatMap, List.map_map,
    List.flatMap_map]
  simp only [h.required]

theorem pairs (h : Carried allow allow' P change value name) {unions : List (List Fields)} {objects : List Fields}
    (hunions : ∀ branches ∈ unions, ∀ b ∈ branches, P b) (hobjects : ∀ o ∈ objects, P o) :
    (pairs allow unions objects).map change =
      Fragment.pairs allow' (unions.map (List.map change)) (objects.map change) := by
  simp only [Fragment.pairs, List.map_flatMap, List.flatMap_map, List.map_map]
  refine List.flatMap_congr fun branches hbranches => List.flatMap_congr fun b hb => List.map_congr_left fun o ho => ?_
  exact h.joined (by simp [hobjects o ho, hunions branches hbranches b hb])

theorem mergedWith (h : Carried allow allow' P change value name) {unions : List (List Fields)} {fs : List Fields}
    (hunions : ∀ branches ∈ unions, ∀ b ∈ branches, P b) (hfs : ∀ f ∈ fs, P f) :
    change (mergedWith allow unions fs) =
      Fragment.mergedWith allow' (unions.map (List.map change)) (fs.map change) := by
  unfold Fragment.mergedWith
  by_cases hsome : unions = []
  · rw [if_pos hsome, if_pos (by simp [hsome]), h.joined hfs]
  · have hobjects : ∀ o ∈ fs.filter Fragment.isObject, P o := fun o ho => hfs o (List.mem_filter.1 ho).1
    have hfilter : (fs.map change).filter Fragment.isObject = (fs.filter Fragment.isObject).map change := by
      rw [List.filter_map]
      exact congrArg _ (List.filter_congr fun f _ => h.isObject f)
    rw [if_neg hsome, if_neg (by simpa using hsome), hfilter, h.anyOf,
      h.exposed _ (pairs_kept h.kept hunions hobjects), h.pairs hunions hobjects]

theorem alternatives?_change (h : Carried allow allow' P change value name) {f : Fields} (hf : Ready P f) :
    alternatives? (change f) = (alternatives? f).map value := by
  cases hu : alternatives? f with
  | none =>
    refine Option.eq_none_iff_forall_ne_some.2 fun w hw => ?_
    obtain ⟨hfield, hsome⟩ := alternatives?_eq_some.1 hw
    rw [h.field] at hfield
    obtain ⟨v, hv, rfl⟩ := Option.map_eq_some_iff.1 hfield
    -- null is no alternative, and it stays null
    have hnull : v = .null := by
      by_contra hv'
      exact nomatch hu.symm.trans (alternatives?_eq_some.2 ⟨hv, hv'⟩)
    rw [hnull, h.null] at hsome
    exact hsome rfl
  | some union =>
    obtain ⟨branches, rfl, hbranches⟩ := hf.alternatives union hu
    have hchange := h.exposed branches fun b hb => (hbranches b hb).2
    rw [Option.map_some, alternatives?_eq_some, h.field, (alternatives?_eq_some.1 hu).1, Option.map_some, hchange]
    exact ⟨rfl, nofun⟩

end Carried

/-- ready fragments merge into what their parts make -/
theorem merge_ready {P : Fields → Prop} {fs : List Fields} (h : ∀ f ∈ fs, Ready P f) :
    ∃ unions, intersect fs allow = .ok (mergedWith allow unions fs) ∧
      fs.filterMap alternatives? = unions.map exposed ∧ ∀ branches ∈ unions, ∀ b ∈ branches, Mergeable b ∧ P b := by
  obtain ⟨unions, hunions, hbranches⟩ := exists_unions fun f hf => (h f hf).alternatives
  refine ⟨unions, ?_, hunions, hbranches⟩
  refine intersect_mergedWith (fun f hf => (h f hf).mergeable) hunions fun branches hbs b hb => ?_
  exact (hbranches branches hbs b hb).1

theorem exists_mergedWith {P : Fields → Prop} {fs : List Fields} (h : ∀ f ∈ fs, Ready P f) {g : Fields}
    (hg : intersect fs allow = .ok g) :
    ∃ unions, g = mergedWith allow unions fs ∧ fs.filterMap alternatives? = unions.map exposed ∧
      ∀ branches ∈ unions, ∀ b ∈ branches, Mergeable b ∧ P b := by
  obtain ⟨unions, hmerge, hunions, hbranches⟩ := merge_ready h
  cases hmerge.symm.trans hg
  exact ⟨unions, rfl, hunions, hbranches⟩

namespace Ready

variable {P : Fields → Prop} {f : Fields}

/-- a fragment that exposes nothing -/
theorem of_single (hmergeable : Mergeable f) (here : P f) (hnone : alternatives? f = none) : Ready P f :=
  ⟨hmergeable, here, fun _ hunion => nomatch hnone.symm.trans hunion⟩

/-- a fragment that is nothing but the branches that it exposes -/
theorem of_branches {branches : List Fields} (here : P [("anyOf", exposed branches)])
    (h : ∀ b ∈ branches, Mergeable b ∧ P b) : Ready P [("anyOf", exposed branches)] := by
  refine ⟨⟨rfl, rfl⟩, here, fun union hunion => ⟨branches, ?_, h⟩⟩
  exact (Option.some.inj hunion).symm

theorem noted (h : Ready P f) {d : Option Text} (here : P (noted d f)) : Ready P (Fragment.noted d f) := by
  refine ⟨h.mergeable.noted d, here, fun union hunion => h.alternatives union ?_⟩
  rwa [alternatives?_noted] at hunion

/-- **Ready fragments merge into a ready one**, whatever they have that joining and exposing keep. -/
theorem intersect (hjoined : ∀ fs, (∀ f ∈ fs, P f) → P (joined allow fs))
    (hexposed : ∀ branches, (∀ b ∈ branches, P b) → P [("anyOf", exposed branches)]) {fs : List Fields}
    (h : ∀ f ∈ fs, Ready P f) : ∃ g, Fragment.intersect fs allow = .ok g ∧ Undescribed g ∧ Ready P g := by
  obtain ⟨unions, hmerge, -, hbranches⟩ := merge_ready h
  refine ⟨mergedWith allow unions fs, hmerge, ?_⟩
  have hhere : ∀ f ∈ fs, P f := fun f hf => (h f hf).here
  unfold mergedWith
  split_ifs
  · exact ⟨by simp [joined, object], .of_single ⟨rfl, rfl⟩ (hjoined fs hhere) rfl⟩
  · have hobjects : ∀ o ∈ fs.filter isObject, P o := fun o ho => hhere o (List.mem_filter.1 ho).1
    have hpairs := pairs_kept hjoined (fun bs hbs b hb => (hbranches bs hbs b hb).2) hobjects
    refine ⟨by simp, .of_branches (hexposed _ hpairs) fun f hf => ⟨?_, hpairs f hf⟩⟩
    obtain ⟨-, -, b, -, o, -, rfl⟩ := mem_pairs.1 hf
    exact ⟨rfl, rfl⟩

end Ready

/-- **Merging carries the change along**: changed fragments merge into the changed merge. -/
theorem Carried.intersect {allow' : Bool} {P : Fields → Prop} {change : Fields → Fields} {value name : Json → Json}
    (h : Carried allow allow' P change value name) {fs : List Fields} (hfs : ∀ f ∈ fs, Ready P f) {g : Fields}
    (hg : intersect fs allow = .ok g) : Fragment.intersect (fs.map change) allow' = .ok (change g) := by
  obtain ⟨unions, rfl, hunions, hbranches⟩ := exists_mergedWith hfs hg
  have hunions' : (fs.map change).filterMap alternatives? = (unions.map (List.map change)).map Fragment.exposed := by
    calc (fs.map change).filterMap alternatives?
        = fs.filterMap fun f => (alternatives? f).map value := by
          rw [List.filterMap_map]
          exact List.filterMap_congr fun f hf => h.alternatives?_change (hfs f hf)
      _ = (unions.map Fragment.exposed).map value := by rw [← hunions, List.map_filterMap]
      _ = (unions.map (List.map change)).map Fragment.exposed := by
          rw [List.map_map, List.map_map]
          exact List.map_congr_left fun branches hbs => h.exposed branches fun b hb => (hbranches branches hbs b hb).2
  rw [h.mergedWith (fun branches hbs b hb => (hbranches branches hbs b hb).2) fun f hf => (hfs f hf).here]
  refine intersect_mergedWith (fun f' hf' => ?_) hunions' fun branches' hbs' b' hb' => ?_
  · obtain ⟨f, hf, rfl⟩ := List.mem_map.1 hf'
    exact h.mergeable f (hfs f hf).here (hfs f hf).mergeable
  · obtain ⟨branches, hbs, rfl⟩ := List.mem_map.1 hbs'
    obtain ⟨b, hb, rfl⟩ := List.mem_map.1 hb'
    obtain ⟨hmergeable, hP⟩ := hbranches branches hbs b hb
    exact h.mergeable b hP hmergeable

/-! ## Relations that a merge keeps -/

/-- related fragments are told apart by nothing that a merge reads, and what is made of related fragments is related:
the object schema that they are joined into, and the alternatives that they are the branches of -/
structure Respects (allow : Bool) (R : Fields → Fields → Prop) : Prop where
  mergeable : ∀ f f', R f f' → Mergeable f ∧ Mergeable f'
  isObject : ∀ f f', R f f' → isObject f = isObject f'
  alternatives : ∀ f f', R f f' → (alternatives? f = none ∧ alternatives? f' = none) ∨
    ∃ branches branches', alternatives? f = some (exposed branches) ∧ alternatives? f' = some (exposed branches') ∧
      List.Forall₂ R branches branches'
  joined : ∀ fs fs', List.Forall₂ R fs fs' → R (joined allow fs) (joined allow fs')
  anyOf : ∀ branches branches', List.Forall₂ R branches branches' →
    R [("anyOf", exposed branches)] [("anyOf", exposed branches')]

namespace Respects

variable {R : Fields → Fields → Prop}

theorem mergeable_all (h : Respects allow R) {fs fs' : List Fields} (hfs : List.Forall₂ R fs fs') :
    (∀ f ∈ fs, Mergeable f) ∧ ∀ f ∈ fs', Mergeable f := by
  induction hfs with
  | nil => simp
  | cons hfirst _ ih =>
    obtain ⟨hf, hf'⟩ := h.mergeable _ _ hfirst
    exact ⟨List.forall_mem_cons.2 ⟨hf, ih.1⟩, List.forall_mem_cons.2 ⟨hf', ih.2⟩⟩

/-- related fragments expose related alternatives -/
theorem exists_unions (h : Respects allow R) {fs fs' : List Fields} (hfs : List.Forall₂ R fs fs') :
    ∃ unions unions' : List (List Fields), fs.filterMap alternatives? = unions.map exposed ∧
      fs'.filterMap alternatives? = unions'.map exposed ∧ List.Forall₂ (List.Forall₂ R) unions unions' := by
  induction hfs with
  | nil => exact ⟨[], [], rfl, rfl, .nil⟩
  | cons hfirst _ ih =>
    obtain ⟨unions, unions', hunions, hunions', hall⟩ := ih
    rcases h.alternatives _ _ hfirst with ⟨hnone, hnone'⟩ | ⟨branches, branches', hsome, hsome', hbranches⟩
    · exact ⟨unions, unions', by rw [List.filterMap_cons, hnone, hunions],
        by rw [List.filterMap_cons, hnone', hunions'], hall⟩
    · exact ⟨branches :: unions, branches' :: unions', by rw [List.filterMap_cons, hsome, hunions, List.map_cons],
        by rw [List.filterMap_cons, hsome', hunions', List.map_cons], .cons hbranches hall⟩

theorem pairs (h : Respects allow R) {unions unions' : List (List Fields)} {objects objects' : List Fields}
    (hunions : List.Forall₂ (List.Forall₂ R) unions unions') (hobjects : List.Forall₂ R objects objects') :
    List.Forall₂ R (pairs allow unions objects) (Fragment.pairs allow unions' objects') := by
  refine List.rel_flatMap hunions fun branches branches' hbranches => ?_
  refine List.rel_flatMap hbranches fun b b' hb => ?_
  refine List.rel_map (fun o o' ho => ?_) hobjects
  exact h.joined _ _ (.cons ho (.cons hb .nil))

/-- **Related members merge into related fragments.** -/
theorem intersect (h : Respects allow R) {fs fs' : List Fields} (hfs : List.Forall₂ R fs fs') :
    ∃ g g', intersect fs allow = .ok g ∧ Fragment.intersect fs' allow = .ok g' ∧ R g g' := by
  obtain ⟨unions, unions', hunions, hunions', hall⟩ := h.exists_unions hfs
  obtain ⟨hmergeable, hmergeable'⟩ := h.mergeable_all hfs
  refine ⟨mergedWith allow unions fs, mergedWith allow unions' fs', ?_, ?_, ?_⟩
  · refine intersect_mergedWith hmergeable hunions fun branches hbranches => ?_
    obtain ⟨branches', -, hboth⟩ := forall₂_mem_right hall.flip branches hbranches
    exact (h.mergeable_all hboth).1
  · refine intersect_mergedWith hmergeable' hunions' fun branches' hbranches' => ?_
    obtain ⟨branches, -, hboth⟩ := forall₂_mem_right hall branches' hbranches'
    exact (h.mergeable_all hboth).2
  · unfold mergedWith
    cases hall with
    | nil =>
      rw [if_pos rfl, if_pos rfl]
      exact h.joined fs fs' hfs
    | cons hfirst hrest =>
      have hobjects : List.Forall₂ R (fs.filter Fragment.isObject) (fs'.filter Fragment.isObject) := by
        refine List.rel_filter (fun f f' hf => ?_) hfs
        change Fragment.isObject f = true ↔ Fragment.isObject f' = true
        rw [h.isObject f f' hf]
      rw [if_neg (List.cons_ne_nil _ _), if_neg (List.cons_ne_nil _ _)]
      exact h.anyOf _ _ (h.pairs (.cons hfirst hrest) hobjects)

end Respects

end Fragment

end CodecCompiler
