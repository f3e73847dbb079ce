/-
Erasing annotations: values without their descriptions, or without their lists of required names, or without either.

- `Json.erase` erases them everywhere in a value. A description is a string under its name, and required names are a
  list under theirs; a property or a definition that goes by such a name holds a schema, and it stays.
- `Json.get?_eraseFields`: looking up any other name leads to the same value, itself erased.
- `Fragment.Alike`: fragments that are the same once erased.
- `Fragment.eraseFields_joined`: what fragments are joined into is, once erased, a matter of the erased fragments.
- `Fragment.respects_alike`: so members that are alike merge into fragments that are alike.
-/
import CodecCompiler.Proofs.Flags

namespace CodecCompiler

open Entries (get? mapValues)

/-- the annotations that are erased -/
structure Erasure where
  descriptions : Bool
  required : Bool
  deriving DecidableEq, Repr

/-- is the value of a name an annotation to be erased -/
def Erasure.drops (e : Erasure) (name : Text) : Json → Bool
  | .str _ => decide (name = "description") && e.descriptions
  | .arr _ => decide (name = "required") && e.required
  | _ => false

namespace Erasure

variable {e : Erasure}

theorem drops_of_ne {name : Text} (hd : name ≠ "description") (hr : name ≠ "required") (v : Json) :
    e.drops name v = false := by
  cases v <;> simp [drops, hd, hr]

@[simp] theorem drops_description (d : Text) : e.drops "description" (.str d) = e.descriptions := by
  simp [drops]

@[simp] theorem drops_required (items : List Json) : e.drops "required" (.arr items) = e.required := by
  simp [drops]

theorem drops_of_required (h : e.required = false) (v : Json) : e.drops "required" v = false := by
  cases v <;> simp [drops, h]

theorem drops_nothing (name : Text) (v : Json) : drops ⟨false, false⟩ name v = false := by
  cases v <;> simp [drops]

end Erasure

namespace Json

/-! ## Values -/

mutual

/-- a value without the annotations in it -/
def erase (e : Erasure) : Json → Json
  | .arr items => .arr (eraseList e items)
  | .obj fields => .obj (eraseFields e fields)
  | .null => .null
  | .bool b => .bool b
  | .int n => .int n
  | .float x => .float x
  | .str s => .str s

def eraseList (e : Erasure) : List Json → List Json
  | [] => []
  | v :: items => erase e v :: eraseList e items

def eraseFields (e : Erasure) : List (Text × Json) → List (Text × Json)
  | [] => []
  | (name, v) :: fields =>
    if e.drops name v then eraseFields e fields else (name, erase e v) :: eraseFields e fields

end

variable {e : Erasure}

theorem eraseList_eq (items : List Json) : eraseList e items = items.map (erase e) := by
  induction items with
  | nil => rfl
  | cons v items ih => rw [eraseList, ih, List.map_cons]

theorem eraseFields_dropped {name : Text} {v : Json} (h : e.drops name v = true) (fields : Fields) :
    eraseFields e ((name, v) :: fields) = eraseFields e fields := by
  rw [eraseFields, if_pos h]

theorem eraseFields_kept {name : Text} {v : Json} (h : e.drops name v = false) (fields : Fields) :
    eraseFields e ((name, v) :: fields) = (name, erase e v) :: eraseFields e fields := by
  rw [eraseFields, if_neg (by simp [h])]

/-- fields of one name whose values are the same once erased, before fields that are so -/
theorem eraseFields_cons_congr {name : Text} {v v' : Json} {fields fields' : Fields}
    (hdrops : e.drops name v = e.drops name v') (hv : erase e v = erase e v')
    (hrest : eraseFields e fields = eraseFields e fields') :
    eraseFields e ((name, v) :: fields) = eraseFields e ((name, v') :: fields') := by
  rw [eraseFields, eraseFields, hdrops, hv, hrest]

mutual

/-- where nothing is to be erased, nothing changes -/
theorem erase_nothing (v : Json) : erase ⟨false, false⟩ v = v := by
  cases v with
  | null | bool | int | float | str => rfl
  | arr items => rw [erase, eraseList_nothing items]
  | obj fields => rw [erase, eraseFields_nothing fields]

theorem eraseList_nothing (items : List Json) : eraseList ⟨false, false⟩ items = items := by
  match items with
  | [] => rfl
  | v :: items => rw [eraseList, erase_nothing v, eraseList_nothing items]

theorem eraseFields_nothing (fields : List (Text × Json)) : eraseFields ⟨false, false⟩ fields = fields := by
  match fields with
  | [] => rfl
  | (name, v) :: fields =>
    rw [eraseFields_kept (Erasure.drops_nothing name v), erase_nothing v, eraseFields_nothing fields]

end

/-- looking up a name that no annotation has -/
theorem get?_eraseFields {name : Text} (h : ∀ v, e.drops name v = false) (fields : Fields) :
    get? (eraseFields e fields) name = (get? fields name).map (erase e) := by
  induction fields with
  | nil => rfl
  | cons field fields ih =>
    obtain ⟨other, v⟩ := field
    cases hdrops : e.drops other v with
    | true =>
      have hother : other ≠ name := by
        rintro rfl
        exact nomatch hdrops.symm.trans (h v)
      rw [eraseFields_dropped hdrops, ih, Entries.get?_cons, if_neg hother]
    | false =>
      rw [eraseFields_kept hdrops, Entries.get?_cons, Entries.get?_cons, ih]
      split_ifs <;> rfl

/-- schemas are no annotations, under whatever name they stand -/
theorem eraseFields_schemas {schemas : Fields} (h : ∀ field ∈ schemas, ∃ schema, field.2 = .obj schema) :
    eraseFields e schemas = mapValues (erase e) schemas := by
  induction schemas with
  | nil => rfl
  | cons field schemas ih =>
    obtain ⟨name, v⟩ := field
    obtain ⟨schema, rfl⟩ : ∃ schema, v = .obj schema := h _ List.mem_cons_self
    rw [eraseFields_kept rfl, ih fun f hf => h f (List.mem_cons_of_mem _ hf)]
    rfl

theorem erase_null_iff {v : Json} : erase e v = .null ↔ v = .null := by
  cases v <;> simp [erase]

end Json

namespace Fragment

open Json (erase eraseFields eraseFields_kept eraseFields_dropped get?_eraseFields)

/-! ## Fragments -/

variable {e : Erasure} {allow : Bool}

/-- a description in front is erased or kept; the rest of the fragment does not depend on it -/
theorem eraseFields_noted (d : Option Text) (f : Fields) :
    eraseFields e (noted d f) = noted (if e.descriptions then none else d) (eraseFields e f) := by
  cases d with
  | none => simp [noted]
  | some d =>
    cases he : e.descriptions with
    | true =>
      simp only [noted, ite_true]
      split_ifs
      · rfl
      · exact eraseFields_dropped (by rwa [Erasure.drops_description]) f
    | false =>
      simp only [noted, Bool.false_eq_true, ite_false]
      split_ifs
      · rfl
      · exact eraseFields_kept (by rwa [Erasure.drops_description]) f

theorem propertiesOf_eraseFields {f : Fields} (h : SchemaProperties f) :
    propertiesOf (eraseFields e f) = mapValues (erase e) (propertiesOf f) := by
  rw [← Json.eraseFields_schemas h]
  unfold propertiesOf
  rw [get?_eraseFields (Erasure.drops_of_ne (by simp) (by simp))]
  cases get? f "properties" with
  | none => rfl
  | some v => cases v <;> rfl

theorem requiredOf_eraseFields (he : e.required = false) (f : Fields) :
    requiredOf (eraseFields e f) = (requiredOf f).map (erase e) := by
  rw [← Json.eraseList_eq]
  unfold requiredOf
  rw [get?_eraseFields (Erasure.drops_of_required he)]
  cases get? f "required" with
  | none => rfl
  | some v => cases v <;> rfl

theorem isObject_eraseFields (f : Fields) : isObject (eraseFields e f) = isObject f := by
  unfold isObject
  rw [get?_eraseFields (Erasure.drops_of_ne (by simp) (by simp))]
  cases get? f "type" with
  | none => rfl
  | some v => cases v <;> simp [erase]

theorem alternatives?_eraseFields (f : Fields) : alternatives? (eraseFields e f) = (alternatives? f).map (erase e) := by
  refine Option.ext fun w => ?_
  rw [alternatives?_eq_some, get?_eraseFields (Erasure.drops_of_ne (by simp) (by simp))]
  simp only [Option.map_eq_some_iff, alternatives?_eq_some]
  constructor
  · rintro ⟨⟨v, hv, rfl⟩, hsome⟩
    exact ⟨v, ⟨hv, fun hnull => hsome (Json.erase_null_iff.2 hnull)⟩, rfl⟩
  · rintro ⟨v, ⟨hv, hsome⟩, rfl⟩
    exact ⟨⟨v, hv, rfl⟩, fun hnull => hsome (Json.erase_null_iff.1 hnull)⟩

theorem erase_exposed (branches : List Fields) :
    erase e (exposed branches) = exposed (branches.map (eraseFields e)) := by
  rw [exposed, erase, Json.eraseList_eq, List.map_map, exposed, List.map_map]
  rfl

theorem eraseFields_required (required : List Json) : eraseFields e [("required", .arr required)] =
    if e.required then [] else ([("required", .arr (required.map (erase e)))] : Fields) := by
  rw [← Json.eraseList_eq]
  cases he : e.required with
  | true => exact eraseFields_dropped (by rwa [Erasure.drops_required]) []
  | false => exact eraseFields_kept (by rwa [Erasure.drops_required]) []

/-- object schemas whose erased properties are the same, and so are their required names where these are kept -/
theorem eraseFields_object {properties properties' : Fields} {required required' : List Json}
    (hproperties : eraseFields e properties = eraseFields e properties')
    (hrequired : e.required = false → required.map (erase e) = required'.map (erase e)) :
    eraseFields e (object properties allow required) = eraseFields e (object properties' allow required') := by
  have hlast : eraseFields e [("required", .arr required)] = eraseFields e [("required", .arr required')] := by
    rw [eraseFields_required, eraseFields_required]
    split_ifs with he
    · rfl
    · rw [hrequired (by simpa using he)]
  refine Json.eraseFields_cons_congr rfl rfl (Json.eraseFields_cons_congr rfl ?_ ?_)
  · exact congrArg Json.obj hproperties
  · exact Json.eraseFields_cons_congr rfl rfl hlast

/-! ## Fragments that are alike -/

/-- shaped fragments that are the same once erased -/
structure Alike (e : Erasure) (allow : Bool) (f f' : Fields) : Prop where
  left : Shaped allow (fun _ => True) f
  right : Shaped allow (fun _ => True) f'
  erased : eraseFields e f = eraseFields e f'

theorem erased_all {fs fs' : List Fields} (h : List.Forall₂ (Alike e allow) fs fs') :
    fs.map (eraseFields e) = fs'.map (eraseFields e) := by
  induction h with
  | nil => rfl
  | cons hfirst _ ih => rw [List.map_cons, List.map_cons, hfirst.erased, ih]

theorem shaped_all {fs fs' : List Fields} (h : List.Forall₂ (Alike e allow) fs fs') :
    (∀ f ∈ fs, Shaped allow (fun _ => True) f) ∧ ∀ f ∈ fs', Shaped allow (fun _ => True) f := by
  induction h with
  | nil => simp
  | cons hfirst _ ih =>
    exact ⟨List.forall_mem_cons.2 ⟨hfirst.left, ih.1⟩, List.forall_mem_cons.2 ⟨hfirst.right, ih.2⟩⟩

/-- fragments that are the same once erased are alike, one by one -/
theorem alike_of_erased {fs fs' : List Fields} (hfs : ∀ f ∈ fs, Shaped allow (fun _ => True) f)
    (hfs' : ∀ f ∈ fs', Shaped allow (fun _ => True) f)
    (h : fs.map (eraseFields e) = fs'.map (eraseFields e)) : List.Forall₂ (Alike e allow) fs fs' := by
  induction fs generalizing fs' with
  | nil =>
    rw [List.map_nil, eq_comm, List.map_eq_nil_iff] at h
    rw [h]
    exact .nil
  | cons f fs ih =>
    cases fs' with
    | nil => exact nomatch h
    | cons f' fs' =>
      obtain ⟨hfirst, hrest⟩ := List.cons.inj h
      rw [List.forall_mem_cons] at hfs hfs'
      exact .cons ⟨hfs.1, hfs'.1, hfirst⟩ (ih hfs.2 hfs'.2 hrest)

/-- merged properties, once erased, are the merged properties of the erased fragments -/
theorem eraseFields_properties {fs : List Fields} (hfs : ∀ f ∈ fs, Shaped allow (fun _ => True) f) :
    eraseFields e (Entries.mergeAll (fs.map propertiesOf)) =
      Entries.mergeAll ((fs.map (eraseFields e)).map propertiesOf) := by
  have hschemas : SchemaProperties (joined allow fs) := Node.schemaProperties_of_shaped (joined_shaped hfs none)
  rw [SchemaProperties, propertiesOf_joined] at hschemas
  calc eraseFields e (Entries.mergeAll (fs.map propertiesOf))
      = mapValues (erase e) (Entries.mergeAll (fs.map propertiesOf)) := Json.eraseFields_schemas hschemas
    _ = Entries.mergeAll ((fs.map propertiesOf).map (mapValues (erase e))) := (Entries.mergeAll_mapValues _ _).symm
    _ = Entries.mergeAll ((fs.map (eraseFields e)).map propertiesOf) := by
        rw [List.map_map, List.map_map]
        refine congrArg _ (List.map_congr_left fun f hf => ?_)
        exact (propertiesOf_eraseFields (Node.schemaProperties_of_shaped (hfs f hf))).symm

/-- so it is with required names, where these are kept -/
theorem erase_requiredNames (he : e.required = false) (fs : List Fields) :
    (fs.flatMap requiredOf).map (erase e) = (fs.map (eraseFields e)).flatMap requiredOf := by
  simp only [List.map_flatMap, List.flatMap_map, requiredOf_eraseFields he]

/-- **Joining knows the erased fragments only**, where erased fragments are wanted. -/
theorem eraseFields_joined {fs fs' : List Fields} (h : List.Forall₂ (Alike e allow) fs fs') :
    eraseFields e (joined allow fs) = eraseFields e (joined allow fs') := by
  obtain ⟨hfs, hfs'⟩ := shaped_all h
  apply eraseFields_object
  · rw [eraseFields_properties hfs, eraseFields_properties hfs', erased_all h]
  · intro he
    rw [erase_requiredNames he, erase_requiredNames he, erased_all h]

/-- **A merge does not tell fragments apart that are alike.** -/
theorem respects_alike (e : Erasure) (allow : Bool) : Respects allow (Alike e allow) where
  mergeable _ _ h := ⟨h.left.mergeable, h.right.mergeable⟩
  isObject f f' h := by rw [← isObject_eraseFields (e := e) f, h.erased, isObject_eraseFields]
  alternatives f f' h := by
    have hsame : (alternatives? f).map (erase e) = (alternatives? f').map (erase e) := by
      rw [← alternatives?_eraseFields, ← alternatives?_eraseFields, h.erased]
    cases hu : alternatives? f with
    | none =>
      rw [hu, Option.map_none, eq_comm, Option.map_eq_none_iff] at hsame
      exact .inl ⟨rfl, hsame⟩
    | some union =>
      rw [hu, Option.map_some, eq_comm, Option.map_eq_some_iff] at hsame
      obtain ⟨union', hu', herased⟩ := hsame
      obtain ⟨branches, rfl, hbranches⟩ := h.left.alternatives union hu
      obtain ⟨branches', rfl, hbranches'⟩ := h.right.alternatives union' hu'
      rw [erase_exposed, erase_exposed] at herased
      have hmaps : branches.map (eraseFields e) = branches'.map (eraseFields e) :=
        List.map_injective_iff.2 (fun _ _ => Json.obj.inj) (Json.arr.inj herased.symm)
      exact .inr ⟨branches, branches', rfl, hu', alike_of_erased hbranches hbranches' hmaps⟩
  joined fs fs' h := by
    obtain ⟨hfs, hfs'⟩ := shaped_all h
    exact ⟨joined_shaped hfs none, joined_shaped hfs' none, eraseFields_joined h⟩
  anyOf branches branches' h := by
    obtain ⟨hbranches, hbranches'⟩ := shaped_all h
    refine ⟨.anyOf none hbranches, .anyOf none hbranches', ?_⟩
    refine Json.eraseFields_cons_congr rfl ?_ rfl
    rw [erase_exposed, erase_exposed, erased_all h]

end Fragment

end CodecCompiler
