/-
The shapes of fragments. Every translation is one of a closed set of shapes, and a merge of such fragments is another
one; so merging never fails, however deep intersections and unions stand inside each other.

- `Fragment.Shaped` is the set of shapes, for a closing flag and the ids that references may name.
- `Shaped.parts`, `Shaped.alternatives`: what a merge reads from a shaped fragment.
- `intersect_shaped`: the members of an intersection merge into a shaped fragment.
- `Codec.translate_shaped`: a translation is shaped and refers to ids of its codec only.
- `Codec.exists_translate`: a codec whose bare tags are primitive has a translation.
- `Node.fragment_shaped`, `Node.exists_fragment`: so it is with the fragments of document nodes.
-/
import CodecCompiler.Proofs.Merging

namespace CodecCompiler

namespace Fragment

/-- a fragment of a known shape: its closing flags are `allow` and its references name `known` ids -/
inductive Shaped (allow : Bool) (known : Text → Prop) : Fields → Prop
  | any (d : Option Text) : Shaped allow known (noted d [])
  | primitive (d : Option Text) {p : Primitive} : p ≠ .any → Shaped allow known (noted d [("type", .str p.name)])
  | literal (d : Option Text) (value : Json) :
    Shaped allow known (noted d [("type", .str "string"), ("const", value)])
  | enum (d : Option Text) (values : List Json) :
    Shaped allow known (noted d [("type", .str "string"), ("enum", .arr values)])
  | object (d : Option Text) {properties : Entries Fields} {required : List Text} :
    (∀ e ∈ properties, Shaped allow known e.2) → (∀ name ∈ required, name ∈ Entries.names properties) →
      Shaped allow known (noted d (objectFragment properties allow required))
  | record (d : Option Text) {values : Fields} :
    Shaped allow known values → Shaped allow known (noted d (recordFragment values))
  | array (d : Option Text) {items : Fields} :
    Shaped allow known items → Shaped allow known (noted d (arrayFragment items))
  | tuple (d : Option Text) {items : List Fields} :
    (∀ f ∈ items, Shaped allow known f) → Shaped allow known (noted d (tupleFragment items))
  | anyOf (d : Option Text) {branches : List Fields} :
    (∀ f ∈ branches, Shaped allow known f) →
      Shaped allow known (noted d [("anyOf", .arr (branches.map .obj))])
  | reference (d : Option Text) {id : Text} : known id → Shaped allow known (noted d (CodecCompiler.reference id))

variable {allow : Bool} {known : Text → Prop}

theorem Shaped.mono {known' : Text → Prop} (hk : ∀ id, known id → known' id) {f : Fields} (h : Shaped allow known f) :
    Shaped allow known' f := by
  induction h with
  | any d => exact .any d
  | primitive d hp => exact .primitive d hp
  | literal d value => exact .literal d value
  | enum d values => exact .enum d values
  | object d _ hr ih => exact .object d ih hr
  | record d _ ih => exact .record d ih
  | array d _ ih => exact .array d ih
  | tuple d _ ih => exact .tuple d ih
  | anyOf d _ ih => exact .anyOf d ih
  | reference d hid => exact .reference d (hk _ hid)

theorem noted_apart {f : Fields} (h : Undescribed f) (hf : ("definitions" : Text) ∉ Entries.names f)
    (d : Option Text) : Entries.Distinct (noted d f) ∧ ("definitions" : Text) ∉ Entries.names (noted d f) := by
  cases d with
  | none => exact ⟨h.1, hf⟩
  | some d =>
    simp only [noted]
    split_ifs
    · exact ⟨h.1, hf⟩
    · refine ⟨Entries.distinct_cons.2 ⟨h.2, h.1⟩, ?_⟩
      rw [Entries.names_cons, List.mem_cons, not_or]
      exact ⟨by simp, hf⟩

/-- the fields of a shaped fragment are distinct, and none of them takes the place of the definitions -/
theorem Shaped.apart {f : Fields} (h : Shaped allow known f) :
    Entries.Distinct f ∧ ("definitions" : Text) ∉ Entries.names f := by
  cases h with
  | object d _ _ =>
    exact noted_apart (by simp [objectFragment, Fragment.object]) (by simp [objectFragment, Fragment.object]) d
  | record d _ => exact noted_apart (by simp [recordFragment]) (by simp [recordFragment]) d
  | array d _ => exact noted_apart (by simp [arrayFragment]) (by simp [arrayFragment]) d
  | tuple d _ => exact noted_apart (by simp [tupleFragment]) (by simp [tupleFragment]) d
  | reference d _ => exact noted_apart (by simp [CodecCompiler.reference]) (by simp [CodecCompiler.reference]) d
  | _ => exact noted_apart (by simp) (by simp) _

theorem Shaped.withDefinitions_eq {f : Fields} (h : Shaped allow known f) (definitions : Fields) :
    withDefinitions definitions f = (("definitions", .obj definitions) :: f : Fields) := by
  obtain ⟨hdistinct, hnone⟩ := h.apart
  refine Entries.merge_of_disjoint hdistinct fun name hname hmem => hnone ?_
  rw [Entries.names_cons, Entries.names_nil, List.mem_singleton] at hmem
  rwa [hmem] at hname

/-! ## What a merge reads -/

/-- properties whose fragments are shaped, and required names that are among them -/
structure Body (allow : Bool) (known : Text → Prop) (properties : Entries Fields) (required : List Text) : Prop where
  shaped : ∀ e ∈ properties, Shaped allow known e.2
  declared : ∀ name ∈ required, name ∈ Entries.names properties

theorem Body.nil : Body allow known [] [] := ⟨by simp, by simp⟩

theorem Body.merge {ps qs : Entries Fields} {rs ss : List Text} (h : Body allow known ps rs)
    (h' : Body allow known qs ss) : Body allow known (Entries.merge ps qs) (rs ++ ss) := by
  refine ⟨fun e he => ?_, fun name hname => Entries.mem_names_merge.2 ?_⟩
  · exact (Entries.mem_merge he).elim (h.shaped e) (h'.shaped e)
  · exact (List.mem_append.1 hname).imp (h.declared name) (h'.declared name)

/-- a fragment as a merge reads it: its properties and its required names, none where it has no such part -/
structure Parts (f : Fields) (properties : Entries Fields) (required : List Text) : Prop where
  properties_eq : (Entries.get? f "properties").getD (.obj []) = .obj (Entries.mapValues .obj properties)
  required_eq : (Entries.get? f "required").getD (.arr []) = .arr (required.map .str)

theorem Parts.of_noted {d : Option Text} {f : Fields} {properties : Entries Fields} {required : List Text}
    (h : Parts f properties required) : Parts (noted d f) properties required := by
  refine ⟨?_, ?_⟩
  · rw [get?_noted (by simp)]
    exact h.properties_eq
  · rw [get?_noted (by simp)]
    exact h.required_eq

theorem Shaped.parts {f : Fields} (h : Shaped allow known f) :
    ∃ properties required, Parts f properties required ∧ Body allow known properties required := by
  cases h with
  | @object d properties required hp hr => exact ⟨properties, required, .of_noted ⟨rfl, rfl⟩, ⟨hp, hr⟩⟩
  | _ => exact ⟨[], [], .of_noted ⟨rfl, rfl⟩, Body.nil⟩

section

variable {f : Fields} {properties : Entries Fields} {required : List Text}

theorem Parts.propertiesOf_eq (h : Parts f properties required) :
    propertiesOf f = Entries.mapValues .obj properties := by
  have hread := h.properties_eq
  unfold propertiesOf
  cases hg : Entries.get? f "properties" with
  | none =>
    rw [hg] at hread
    exact Json.obj.inj hread
  | some v =>
    rw [hg, Option.getD_some] at hread
    rw [hread]

theorem Parts.requiredOf_eq (h : Parts f properties required) : requiredOf f = required.map .str := by
  have hread := h.required_eq
  unfold requiredOf
  cases hg : Entries.get? f "required" with
  | none =>
    rw [hg] at hread
    exact Json.arr.inj hread
  | some v =>
    rw [hg, Option.getD_some] at hread
    rw [hread]

theorem Parts.mergeable (h : Parts f properties required) : Mergeable f :=
  ⟨h.propertiesOf_eq ▸ h.properties_eq, h.requiredOf_eq ▸ h.required_eq⟩

theorem Shaped.mergeable {allow : Bool} {known : Text → Prop} (h : Shaped allow known f) : Mergeable f := by
  obtain ⟨ps, rs, hparts, -⟩ := h.parts
  exact hparts.mergeable

end

theorem Shaped.alternatives {f : Fields} (h : Shaped allow known f) (union : Json) (hu : alternatives? f = some union) :
    ∃ branches, union = exposed branches ∧ ∀ b ∈ branches, Shaped allow known b := by
  cases h with
  | @anyOf d branches hb =>
    rw [alternatives?_noted] at hu
    exact ⟨branches, (Option.some.inj hu).symm, hb⟩
  | _ =>
    rw [alternatives?_noted] at hu
    exact nomatch hu

/-! ## Merging -/

theorem exists_joined {fs : List Fields} (h : ∀ f ∈ fs, Shaped allow known f) :
    ∃ properties required, joined allow fs = objectFragment properties allow required ∧
      Body allow known properties required := by
  -- by induction on the fragments: what was collected before them stays a body
  have hfold : ∀ ps rs, Body allow known ps rs → ∃ qs ss, Body allow known qs ss ∧
      (fs.map propertiesOf).foldl Entries.merge (Entries.mapValues .obj ps) = Entries.mapValues .obj qs ∧
      rs.map Json.str ++ fs.flatMap requiredOf = ss.map .str := by
    induction fs with
    | nil => exact fun ps rs hbody => ⟨ps, rs, hbody, rfl, List.append_nil _⟩
    | cons f fs ih =>
      intro ps rs hbody
      obtain ⟨qs, ss, hparts, hf⟩ := (h f List.mem_cons_self).parts
      obtain ⟨us, ts, hall, hproperties, hrequired⟩ :=
        ih (fun g hg => h g (List.mem_cons_of_mem f hg)) _ _ (hbody.merge hf)
      refine ⟨us, ts, hall, ?_, ?_⟩
      · rw [List.map_cons, List.foldl_cons, hparts.propertiesOf_eq, Entries.merge_mapValues, hproperties]
      · rw [List.flatMap_cons, hparts.requiredOf_eq, ← List.append_assoc, ← List.map_append, hrequired]
  obtain ⟨properties, required, hbody, hproperties, hrequired⟩ := hfold [] [] .nil
  refine ⟨properties, required, ?_, hbody⟩
  rw [objectFragment, ← hproperties, ← hrequired]
  rfl

/-- shaped fragments are joined into a shaped one -/
theorem joined_shaped {fs : List Fields} (h : ∀ f ∈ fs, Shaped allow known f) (d : Option Text) :
    Shaped allow known (noted d (joined allow fs)) := by
  obtain ⟨properties, required, heq, hbody⟩ := exists_joined h
  rw [heq]
  exact .object d hbody.shaped hbody.declared

theorem pairs_shaped {unions : List (List Fields)} {objects : List Fields} (ho : ∀ o ∈ objects, Shaped allow known o)
    (hu : ∀ branches ∈ unions, ∀ b ∈ branches, Shaped allow known b) :
    ∀ f ∈ pairs allow unions objects, Shaped allow known f := by
  intro f hf
  obtain ⟨branches, hbranches, b, hb, o, hmem, rfl⟩ := mem_pairs.1 hf
  refine joined_shaped (fun g hg => ?_) none
  rcases List.mem_cons.1 hg with rfl | hg
  · exact ho g hmem
  · rw [List.mem_singleton.1 hg]
    exact hu branches hbranches b hb

/-- **Merging never fails on shaped members**, and the result is shaped, whatever its description. -/
theorem intersect_shaped {fs : List Fields} (h : ∀ f ∈ fs, Shaped allow known f) :
    ∃ f, intersect fs allow = .ok f ∧ Undescribed f ∧ ∀ d, Shaped allow known (noted d f) := by
  obtain ⟨unions, hunions, hbranches⟩ := exists_unions fun f hf => (h f hf).alternatives
  refine ⟨mergedWith allow unions fs, ?_, ?_⟩
  · refine intersect_mergedWith (fun f hf => (h f hf).mergeable) hunions fun branches hmem b hb => ?_
    exact (hbranches branches hmem b hb).mergeable
  · unfold mergedWith
    split_ifs
    · exact ⟨by simp [joined, object], joined_shaped h⟩
    · refine ⟨by simp, fun d => .anyOf d (pairs_shaped (fun o ho => ?_) hbranches)⟩
      exact h o (List.mem_filter.1 ho).1

end Fragment

/-! ## Translations are shaped -/

namespace Codec

open Fragment

variable {allow : Bool} {known : Text → Prop}

theorem bareTranslation_shaped {tag : Tag} {f : Fields} (h : bareTranslation tag = .ok f) :
    Undescribed f ∧ ∀ d, Shaped allow known (noted d f) := by
  unfold bareTranslation at h
  split at h
  · cases h
    exact ⟨by simp, fun d => .any d⟩
  · rename_i p hp _
    cases h
    exact ⟨by simp, fun d => .primitive d hp⟩
  · exact nomatch h
  · exact nomatch h

theorem translateList_shaped {cs : List Codec} {fs : List Fields} (h : translateList allow cs = .ok fs)
    (hcs : ∀ c ∈ cs, ∀ f, c.translate allow = .ok f → Shaped allow known f) : ∀ f ∈ fs, Shaped allow known f := by
  intro f hf
  obtain ⟨c, hc, hcf⟩ := forall₂_mem_right (translateList_eq_ok.1 h) f hf
  exact hcs c hc f hcf

theorem translateShape_shaped {shape : List (Text × Codec)} {fs : Entries Fields}
    (h : translateShape allow shape = .ok fs)
    (hcs : ∀ c ∈ shape.map (·.2), ∀ f, c.translate allow = .ok f → Shaped allow known f) :
    Body allow known fs (requiredNames shape) := by
  refine ⟨fun e he => ?_, fun name hname => ?_⟩
  · obtain ⟨gs, hgs, rfl⟩ := translateShape_eq_ok.1 h
    exact translateList_shaped hgs hcs e.2 (List.of_mem_zip he).2
  · rw [names_translateShape h]
    obtain ⟨e, he, rfl⟩ := List.mem_map.1 hname
    exact Entries.mem_names (List.mem_filter.1 he).1

/-- what a kind prescribes is shaped, with every description, when the translations of the codecs below are -/
theorem prescription_shaped {c : Codec} {g : Fields} (h : prescription allow c = .ok g)
    (hbelow : ∀ d ∈ c.children, ∀ f, d.translate allow = .ok f → Shaped allow known f)
    (hown : ∀ id ∈ c.ownIds, known id) : Undescribed g ∧ ∀ d, Shaped allow known (noted d g) := by
  cases c with
  | plain m tag => exact bareTranslation_shaped h
  | literal m value =>
    cases pure_eq_ok_iff.1 h
    exact ⟨by simp, fun d => .literal d value⟩
  | enum m values =>
    cases pure_eq_ok_iff.1 h
    exact ⟨by simp, fun d => .enum d values⟩
  | object m shape =>
    obtain ⟨properties, hp, h⟩ := bind_eq_ok_iff.1 h
    cases pure_eq_ok_iff.1 h
    have hbody := translateShape_shaped hp hbelow
    exact ⟨by simp [objectFragment, Fragment.object], fun d => .object d hbody.shaped hbody.declared⟩
  | record m values =>
    obtain ⟨f, hf, h⟩ := bind_eq_ok_iff.1 h
    cases pure_eq_ok_iff.1 h
    exact ⟨by simp [recordFragment], fun d => .record d (hbelow values List.mem_cons_self f hf)⟩
  | array m items =>
    obtain ⟨f, hf, h⟩ := bind_eq_ok_iff.1 h
    cases pure_eq_ok_iff.1 h
    exact ⟨by simp [arrayFragment], fun d => .array d (hbelow items List.mem_cons_self f hf)⟩
  | tuple m items =>
    obtain ⟨fs, hfs, h⟩ := bind_eq_ok_iff.1 h
    cases pure_eq_ok_iff.1 h
    exact ⟨by simp [tupleFragment], fun d => .tuple d (translateList_shaped hfs hbelow)⟩
  | intersection m members =>
    obtain ⟨fs, hfs, h⟩ := bind_eq_ok_iff.1 h
    obtain ⟨f, hf, hund, hshaped⟩ := intersect_shaped (translateList_shaped hfs hbelow)
    cases hf.symm.trans (mapError_eq_ok_iff.1 h)
    exact ⟨hund, hshaped⟩
  | union m members =>
    obtain ⟨fs, hfs, h⟩ := bind_eq_ok_iff.1 h
    cases pure_eq_ok_iff.1 h
    exact ⟨by simp, fun d => .anyOf d (translateList_shaped hfs hbelow)⟩
  | recursive m id body =>
    cases pure_eq_ok_iff.1 h
    exact ⟨by simp [CodecCompiler.reference], fun d => .reference d (hown id List.mem_cons_self)⟩

/-- **Every translation has one of the shapes**, and it refers to ids of its codec only. -/
theorem translate_shaped {c : Codec} {f : Fields} (h : c.translate allow = .ok f) : Shaped allow (· ∈ c.ids) f := by
  induction c using induction generalizing f with
  | step c ih =>
    have hbelow : ∀ d ∈ c.children, ∀ g, d.translate allow = .ok g → Shaped allow (· ∈ c.ids) g :=
      fun d hd g hg => (ih d hd hg).mono fun id hid => ids_child hd hid
    obtain ⟨g, hg, rfl⟩ := translate_eq_ok.1 h
    exact (prescription_shaped hg hbelow c.all_ids.here).2 _

theorem prescription_undescribed {c : Codec} {g : Fields} (h : prescription allow c = .ok g) : Undescribed g := by
  have hbelow : ∀ d ∈ c.children, ∀ f, d.translate allow = .ok f → Shaped allow (fun _ => True) f :=
    fun d _ f hf => (translate_shaped hf).mono fun _ _ => trivial
  exact (prescription_shaped h hbelow fun _ _ => trivial).1

/-! ## Translations exist -/

/-- a codec that is only a tag has a primitive one -/
def Plain : Codec → Prop
  | .plain _ tag => ∃ p, tag.kind? = some (.primitive p)
  | _ => True

theorem exists_bareTranslation {tag : Tag} {p : Primitive} (h : tag.kind? = some (.primitive p)) :
    ∃ f, bareTranslation tag = .ok f := by
  unfold bareTranslation
  rw [h]
  cases p <;> exact ⟨_, rfl⟩

theorem exists_translateList {cs : List Codec} (h : ∀ c ∈ cs, ∃ f, c.translate allow = .ok f) :
    ∃ fs, translateList allow cs = .ok fs := by
  induction cs with
  | nil => exact ⟨[], rfl⟩
  | cons c cs ih =>
    obtain ⟨f, hf⟩ := h c List.mem_cons_self
    obtain ⟨fs, hfs⟩ := ih fun d hd => h d (List.mem_cons_of_mem c hd)
    exact ⟨f :: fs, translateList_eq_ok.2 (.cons hf (translateList_eq_ok.1 hfs))⟩

theorem exists_translateShape {shape : List (Text × Codec)}
    (h : ∀ c ∈ shape.map (·.2), ∃ f, c.translate allow = .ok f) : ∃ fs, translateShape allow shape = .ok fs := by
  obtain ⟨fs, hfs⟩ := exists_translateList h
  exact ⟨_, translateShape_eq_ok.2 ⟨fs, hfs, rfl⟩⟩

theorem exists_translate {c : Codec} (h : c.All Plain) : ∃ f, c.translate allow = .ok f := by
  induction h with
  | @intro c here _ ih =>
    cases c with
    | plain m tag =>
      obtain ⟨p, hp⟩ := here
      obtain ⟨f, hf⟩ := exists_bareTranslation hp
      exact ⟨_, bind_eq_ok_iff.2 ⟨f, hf, rfl⟩⟩
    | literal m value => exact ⟨_, rfl⟩
    | enum m values => exact ⟨_, rfl⟩
    | object m shape =>
      obtain ⟨fs, hfs⟩ := exists_translateShape ih
      exact ⟨_, bind_eq_ok_iff.2 ⟨fs, hfs, rfl⟩⟩
    | record m values =>
      obtain ⟨f, hf⟩ := ih values List.mem_cons_self
      exact ⟨_, bind_eq_ok_iff.2 ⟨f, hf, rfl⟩⟩
    | array m items =>
      obtain ⟨f, hf⟩ := ih items List.mem_cons_self
      exact ⟨_, bind_eq_ok_iff.2 ⟨f, hf, rfl⟩⟩
    | tuple m items =>
      obtain ⟨fs, hfs⟩ := exists_translateList ih
      exact ⟨_, bind_eq_ok_iff.2 ⟨fs, hfs, rfl⟩⟩
    | intersection m members =>
      obtain ⟨fs, hfs⟩ := exists_translateList ih
      have hshaped : ∀ f ∈ fs, Shaped allow (fun _ => True) f :=
        translateList_shaped hfs fun d _ g hg => (translate_shaped hg).mono fun _ _ => trivial
      obtain ⟨f, hf, -, -⟩ := intersect_shaped hshaped
      exact ⟨_, bind_eq_ok_iff.2 ⟨fs, hfs, bind_eq_ok_iff.2 ⟨f, mapError_eq_ok_iff.2 hf, rfl⟩⟩⟩
    | union m members =>
      obtain ⟨fs, hfs⟩ := exists_translateList ih
      exact ⟨_, bind_eq_ok_iff.2 ⟨fs, hfs, rfl⟩⟩
    | recursive m id body => exact ⟨_, rfl⟩

end Codec

namespace Node

theorem plain_toCodec (n : Node) : n.toCodec.All Codec.Plain := by
  refine all_toCodec (fun m => ?_) n
  cases m with
  | leaf notes p => exact ⟨p, Kind.ofName?_name (.primitive p)⟩
  | _ => trivial

theorem fragment_shaped {allow : Bool} {n : Node} {f : Fields} (h : n.fragment allow = .ok f) :
    Fragment.Shaped allow (· ∈ n.refs) f := by
  have htranslate : n.toCodec.translate allow = .ok f := by
    rw [translate_toCodec, h]
    rfl
  rw [← ids_toCodec]
  exact Codec.translate_shaped htranslate

/-- **Every document node has a fragment.** -/
theorem exists_fragment (allow : Bool) (n : Node) : ∃ f, n.fragment allow = .ok f := by
  obtain ⟨f, hf⟩ : ∃ f, n.toCodec.translate allow = .ok f := Codec.exists_translate n.plain_toCodec
  rw [translate_toCodec, mapError_eq_ok_iff] at hf
  exact ⟨f, hf⟩

end Node

end CodecCompiler
