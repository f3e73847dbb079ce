/-
Closing flags: allowing further properties changes nothing in the schema of a document but its closing flags.

- `Json.setFlags` sets every closing flag in a value, that is, every truth value under the name `additionalProperties`.
- `Json.at?_setFlags`: a path leads to the same place before and after.
- `Fragment.carried_setFlags`: a merge under another flag is the merge with its flags set.
- `Node.fragment_setFlags`: so the fragment of a node under another flag is its fragment with the flags set.
- `Document.generate_setFlags`: schemas under two flags have the same definitions, and one is the other with its flags
  set.
- `Document.allowing_opens_flags`: every closing flag of a schema is false, and allowing further properties makes each of
  them true.
-/
import CodecCompiler.Proofs.Compilation

namespace CodecCompiler

open Entries (names get?)

namespace Json

/-! ## Flags -/

/-- the name that closing flags stand under -/
def flagName : Text := "additionalProperties"

mutual

/-- a value with every closing flag in it set to `allow`; `here` tells whether the value itself stands under their
name -/
def setFlags (allow here : Bool) : Json → Json
  | .bool b => .bool (if here then allow else b)
  | .arr items => .arr (setFlagsList allow items)
  | .obj fields => .obj (setFlagsFields allow fields)
  | .null => .null
  | .int n => .int n
  | .float x => .float x
  | .str s => .str s

def setFlagsList (allow : Bool) : List Json → List Json
  | [] => []
  | v :: items => setFlags allow false v :: setFlagsList allow items

def setFlagsFields (allow : Bool) : List (Text × Json) → List (Text × Json)
  | [] => []
  | (name, v) :: fields => (name, setFlags allow (decide (name = flagName)) v) :: setFlagsFields allow fields

end

section

variable {allow : Bool}

theorem setFlagsList_eq (items : List Json) : setFlagsList allow items = items.map (setFlags allow false) := by
  induction items with
  | nil => rfl
  | cons v items ih => rw [setFlagsList, ih, List.map_cons]

theorem get?_setFlagsFields (fields : Fields) (name : Text) :
    get? (setFlagsFields allow fields) name = (get? fields name).map (setFlags allow (decide (name = flagName))) := by
  induction fields with
  | nil => rfl
  | cons e fields ih =>
    rw [setFlagsFields, Entries.get?_cons, ih]
    by_cases he : e.1 = name
    · subst he
      simp [Entries.get?]
    · simp [Entries.get?, he]

/-! ### Places -/

/-- a step into a value -/
inductive Into where
  | field (name : Text)
  | item (i : Nat)
  deriving DecidableEq, Repr

/-- does the step lead to where closing flags stand -/
def Into.isFlag : Into → Bool
  | field name => decide (name = flagName)
  | item _ => false

/-- what a step leads to -/
def enter? : Json → Into → Option Json
  | .obj fields, .field name => get? fields name
  | .arr items, .item i => items[i]?
  | _, _ => none

/-- what stands at the end of a path -/
def at? (v : Json) : List Into → Option Json
  | [] => some v
  | step :: path => (v.enter? step).bind fun w => at? w path

/-- does the last step of a path lead to where closing flags stand; `here` says so of an empty path -/
def endsAtFlag (here : Bool) : List Into → Bool
  | [] => here
  | step :: path => endsAtFlag step.isFlag path

theorem endsAtFlag_append (here : Bool) (path : List Into) : endsAtFlag here (path ++ [.field flagName]) = true := by
  induction path generalizing here with
  | nil => rfl
  | cons step path ih => exact ih _

theorem enter?_setFlags (here : Bool) (v : Json) (step : Into) :
    (setFlags allow here v).enter? step = (v.enter? step).map (setFlags allow step.isFlag) := by
  cases v with
  | null | bool | int | float | str => cases step <;> rfl
  | arr items =>
    cases step with
    | field name => rfl
    | item i =>
      change (setFlagsList allow items)[i]? = items[i]?.map _
      rw [setFlagsList_eq, List.getElem?_map]
      rfl
  | obj fields =>
    cases step with
    | field name => exact get?_setFlagsFields fields name
    | item i => rfl

/-- **Setting flags moves nothing.** -/
theorem at?_setFlags (here : Bool) (path : List Into) (v : Json) :
    (setFlags allow here v).at? path = (v.at? path).map (setFlags allow (endsAtFlag here path)) := by
  induction path generalizing here v with
  | nil => rfl
  | cons step path ih =>
    rw [at?, at?, enter?_setFlags, Option.bind_map, Option.map_bind]
    exact congrArg _ (funext fun w => ih _ w)

end

end Json

namespace Fragment

open Json (setFlags setFlagsFields)

/-! ## Fragments -/

variable {allow allow' : Bool}

/-- every property is an object -/
def SchemaProperties (f : Fields) : Prop := ∀ e ∈ propertiesOf f, ∃ schema, e.2 = .obj schema

theorem setFlagsFields_noted (d : Option Text) (f : Fields) :
    setFlagsFields allow' (noted d f) = noted d (setFlagsFields allow' f) := by
  cases d with
  | none => rfl
  | some d =>
    simp only [noted]
    split_ifs <;> rfl

/-- objects are no flags, under whatever name they stand -/
theorem setFlagsFields_schemas {schemas : Fields} (h : ∀ e ∈ schemas, ∃ schema, e.2 = .obj schema) :
    setFlagsFields allow' schemas = Entries.mapValues (setFlags allow' false) schemas := by
  induction schemas with
  | nil => rfl
  | cons e schemas ih =>
    obtain ⟨name, v⟩ := e
    obtain ⟨schema, rfl⟩ : ∃ schema, v = .obj schema := h _ List.mem_cons_self
    rw [setFlagsFields, ih fun e he => h e (List.mem_cons_of_mem _ he)]
    rfl

theorem setFlagsFields_object {properties : Fields} (h : ∀ e ∈ properties, ∃ schema, e.2 = .obj schema)
    (required : List Json) : setFlagsFields allow' (object properties allow required) =
      object (Entries.mapValues (setFlags allow' false) properties) allow' (required.map (setFlags allow' false)) := by
  rw [← setFlagsFields_schemas h, ← Json.setFlagsList_eq]
  rfl

theorem propertiesOf_setFlagsFields {f : Fields} (h : SchemaProperties f) :
    propertiesOf (setFlagsFields allow' f) = Entries.mapValues (setFlags allow' false) (propertiesOf f) := by
  rw [← setFlagsFields_schemas h]
  unfold propertiesOf
  rw [Json.get?_setFlagsFields]
  cases get? f "properties" with
  | none => rfl
  | some v => cases v <;> rfl

theorem requiredOf_setFlagsFields (f : Fields) :
    requiredOf (setFlagsFields allow' f) = (requiredOf f).map (setFlags allow' false) := by
  rw [← Json.setFlagsList_eq]
  unfold requiredOf
  rw [Json.get?_setFlagsFields]
  cases get? f "required" with
  | none => rfl
  | some v => cases v <;> rfl

theorem isObject_setFlagsFields (f : Fields) : isObject (setFlagsFields allow' f) = isObject f := by
  unfold isObject
  rw [Json.get?_setFlagsFields]
  cases get? f "type" with
  | none => rfl
  | some v => cases v <;> simp [setFlags]

theorem Mergeable.setFlagsFields {f : Fields} (h : Mergeable f) : Mergeable (setFlagsFields allow' f) := by
  obtain ⟨hproperties, hrequired⟩ := mergeable_iff.1 h
  refine mergeable_iff.2 ⟨fun w hw => ?_, fun w hw => ?_⟩
  · rw [Json.get?_setFlagsFields] at hw
    obtain ⟨v, hv, rfl⟩ := Option.map_eq_some_iff.1 hw
    obtain ⟨properties, rfl⟩ := hproperties v hv
    exact ⟨_, rfl⟩
  · rw [Json.get?_setFlagsFields] at hw
    obtain ⟨v, hv, rfl⟩ := Option.map_eq_some_iff.1 hw
    obtain ⟨required, rfl⟩ := hrequired v hv
    exact ⟨_, rfl⟩

/-- **A merge carries flags along.** -/
theorem carried_setFlags (allow allow' : Bool) :
    Carried allow allow' SchemaProperties (setFlagsFields allow') (setFlags allow' false) (setFlags allow' false) where
  object properties required h := setFlagsFields_object h required
  properties f h := propertiesOf_setFlagsFields h
  required := requiredOf_setFlagsFields
  isObject := isObject_setFlagsFields
  mergeable _ _ := Mergeable.setFlagsFields
  field f := Json.get?_setFlagsFields f "anyOf"
  anyOf _ := rfl
  null := rfl
  exposed branches _ := by
    change Json.arr (Json.setFlagsList allow' (branches.map .obj)) = _
    rw [Json.setFlagsList_eq, List.map_map, exposed, List.map_map]
    rfl
  kept fs h := by
    intro e he
    rw [propertiesOf_joined] at he
    obtain ⟨properties, hmem, he⟩ := Entries.mem_mergeAll he
    obtain ⟨f, hf, rfl⟩ := List.mem_map.1 hmem
    exact h f hf e he

end Fragment

namespace Node

open Json (setFlags setFlagsFields)
open Fragment (Shaped SchemaProperties Ready)

/-! ## Nodes -/

variable {allow allow' : Bool}

theorem schemaProperties_of_shaped {known : Text → Prop} {f : Fields} (h : Shaped allow known f) :
    SchemaProperties f := by
  obtain ⟨properties, required, hparts, -⟩ := h.parts
  intro e he
  rw [hparts.propertiesOf_eq] at he
  obtain ⟨p, -, rfl⟩ := List.mem_map.1 he
  exact ⟨p.2, rfl⟩

theorem ready_of_shaped {known : Text → Prop} {f : Fields} (h : Shaped allow known f) : Ready SchemaProperties f := by
  refine ⟨h.mergeable, schemaProperties_of_shaped h, fun union hunion => ?_⟩
  obtain ⟨branches, hbranches, hshaped⟩ := h.alternatives union hunion
  exact ⟨branches, hbranches, fun b hb => ⟨(hshaped b hb).mergeable, schemaProperties_of_shaped (hshaped b hb)⟩⟩

/-- a truth value that a literal stands for is no flag -/
theorem setFlagsFields_literal (value : Scalar) :
    setFlagsFields allow' [("type", .str "string"), ("const", value.toJson)] =
      ([("type", .str "string"), ("const", value.toJson)] : Fields) := by
  cases value <;> rfl

theorem setFlagsFields_enum (values : List Scalar) :
    setFlagsFields allow' [("type", .str "string"), ("enum", .arr (values.map Scalar.toJson))] =
      ([("type", .str "string"), ("enum", .arr (values.map Scalar.toJson))] : Fields) := by
  have hvalues : Json.setFlagsList allow' (values.map Scalar.toJson) = values.map Scalar.toJson := by
    rw [Json.setFlagsList_eq, List.map_map]
    refine List.map_congr_left fun value _ => ?_
    cases value <;> rfl
  change ([("type", .str "string"), ("enum", .arr (Json.setFlagsList allow' (values.map Scalar.toJson)))] : Fields) = _
  rw [hvalues]

theorem fragmentsOfList_setFlags {ns : List Node}
    (h : ∀ n ∈ ns, ∀ f, n.fragment allow = .ok f → n.fragment allow' = .ok (setFlagsFields allow' f))
    {fs : List Fields} (hfs : fragmentsOfList allow ns = .ok fs) :
    fragmentsOfList allow' ns = .ok (fs.map (setFlagsFields allow')) := by
  rw [fragmentsOfList_eq_ok] at hfs ⊢
  induction hfs with
  | nil => exact .nil
  | cons hfirst _ ih =>
    refine .cons (h _ List.mem_cons_self _ hfirst) (ih fun n hn => h n (List.mem_cons_of_mem _ hn))

theorem fragmentsOfShape_setFlags {shape : List (Text × Node)}
    (h : ∀ n ∈ shape.map (·.2), ∀ f, n.fragment allow = .ok f → n.fragment allow' = .ok (setFlagsFields allow' f))
    {fs : Entries Fields} (hfs : fragmentsOfShape allow shape = .ok fs) :
    fragmentsOfShape allow' shape = .ok (Entries.mapValues (setFlagsFields allow') fs) := by
  obtain ⟨gs, hgs, rfl⟩ := fragmentsOfShape_eq_ok.1 hfs
  refine fragmentsOfShape_eq_ok.2 ⟨_, fragmentsOfList_setFlags h hgs, ?_⟩
  rw [Entries.mapValues_zip]

theorem setFlagsFields_objectFragment (properties : Entries Fields) (required : List Text) :
    setFlagsFields allow' (objectFragment properties allow required) =
      objectFragment (Entries.mapValues (setFlagsFields allow') properties) allow' required := by
  rw [objectFragment, Fragment.setFlagsFields_object, objectFragment]
  · simp only [Entries.mapValues, List.map_map, Function.comp_def, setFlags]
  · intro e he
    obtain ⟨p, -, rfl⟩ := List.mem_map.1 he
    exact ⟨p.2, rfl⟩

theorem setFlags_schemas (fs : List Fields) :
    setFlags allow' false (.arr (fs.map .obj)) = .arr ((fs.map (setFlagsFields allow')).map .obj) := by
  rw [setFlags, Json.setFlagsList_eq, List.map_map, List.map_map]
  rfl

theorem setFlagsFields_tupleFragment (fs : List Fields) :
    setFlagsFields allow' (tupleFragment fs) = tupleFragment (fs.map (setFlagsFields allow')) := by
  rw [tupleFragment, tupleFragment, ← setFlags_schemas, List.length_map]
  rfl

theorem setFlagsFields_anyOf (fs : List Fields) :
    setFlagsFields allow' [("anyOf", .arr (fs.map .obj))] =
      ([("anyOf", .arr ((fs.map (setFlagsFields allow')).map .obj))] : Fields) := by
  rw [← setFlags_schemas]
  rfl

/-- **The fragment of a node under another flag is its fragment with every flag set.** -/
theorem fragment_setFlags {n : Node} {f : Fields} (h : n.fragment allow = .ok f) :
    n.fragment allow' = .ok (setFlagsFields allow' f) := by
  induction n using induction generalizing f with
  | step n ih =>
    cases n with
    | leaf notes q =>
      cases q <;>
      · cases pure_eq_ok_iff.1 h
        rw [Fragment.setFlagsFields_noted]
        rfl
    | literal notes value =>
      cases pure_eq_ok_iff.1 h
      rw [Fragment.setFlagsFields_noted, setFlagsFields_literal]
      rfl
    | enum notes values =>
      cases pure_eq_ok_iff.1 h
      rw [Fragment.setFlagsFields_noted, setFlagsFields_enum]
      rfl
    | object notes shape =>
      obtain ⟨fs, hfs, h⟩ := bind_eq_ok_iff.1 h
      cases pure_eq_ok_iff.1 h
      refine bind_eq_ok_iff.2 ⟨_, fragmentsOfShape_setFlags (fun n hn f => ih n hn) hfs, pure_eq_ok_iff.2 ?_⟩
      rw [Fragment.setFlagsFields_noted, setFlagsFields_objectFragment]
    | record notes values =>
      obtain ⟨v, hv, h⟩ := bind_eq_ok_iff.1 h
      cases pure_eq_ok_iff.1 h
      refine bind_eq_ok_iff.2 ⟨_, ih values List.mem_cons_self hv, pure_eq_ok_iff.2 ?_⟩
      rw [Fragment.setFlagsFields_noted]
      rfl
    | array notes items =>
      obtain ⟨v, hv, h⟩ := bind_eq_ok_iff.1 h
      cases pure_eq_ok_iff.1 h
      refine bind_eq_ok_iff.2 ⟨_, ih items List.mem_cons_self hv, pure_eq_ok_iff.2 ?_⟩
      rw [Fragment.setFlagsFields_noted]
      rfl
    | tuple notes items =>
      obtain ⟨fs, hfs, h⟩ := bind_eq_ok_iff.1 h
      cases pure_eq_ok_iff.1 h
      refine bind_eq_ok_iff.2 ⟨_, fragmentsOfList_setFlags (fun n hn f => ih n hn) hfs, pure_eq_ok_iff.2 ?_⟩
      rw [Fragment.setFlagsFields_noted, setFlagsFields_tupleFragment]
    | intersection notes members =>
      obtain ⟨fs, hfs, h⟩ := bind_eq_ok_iff.1 h
      obtain ⟨g, hg, h⟩ := bind_eq_ok_iff.1 h
      cases pure_eq_ok_iff.1 h
      have hready : ∀ f ∈ fs, Ready SchemaProperties f := by
        intro f hf
        obtain ⟨c, -, hc⟩ := forall₂_mem_right (fragmentsOfList_eq_ok.1 hfs) f hf
        exact ready_of_shaped (fragment_shaped hc)
      have hmerge := (Fragment.carried_setFlags allow allow').intersect hready hg
      refine bind_eq_ok_iff.2 ⟨_, fragmentsOfList_setFlags (fun n hn f => ih n hn) hfs,
        bind_eq_ok_iff.2 ⟨_, hmerge, pure_eq_ok_iff.2 ?_⟩⟩
      rw [Fragment.setFlagsFields_noted]
    | union notes members =>
      obtain ⟨fs, hfs, h⟩ := bind_eq_ok_iff.1 h
      cases pure_eq_ok_iff.1 h
      refine bind_eq_ok_iff.2 ⟨_, fragmentsOfList_setFlags (fun n hn f => ih n hn) hfs, pure_eq_ok_iff.2 ?_⟩
      rw [Fragment.setFlagsFields_noted, setFlagsFields_anyOf]
    | ref notes id =>
      cases pure_eq_ok_iff.1 h
      rw [Fragment.setFlagsFields_noted]
      rfl

end Node

namespace Document

open Json (setFlags setFlagsFields flagName)

/-! ## Documents -/

variable {doc : Document} {options : Options} {allow allow' : Bool}

/-- options with another flag -/
def withFlag (options : Options) (allow : Bool) : Options := { options with allowAdditional := allow }

/-- what a visit settles under another flag -/
theorem settled_setFlags {visit : Text × Text} {e e' : Text × Json}
    (h : Settled ((withFlag options allow).context doc.build.bodies) visit e)
    (h' : Settled ((withFlag options allow').context doc.build.bodies) visit e') :
    e' = (e.1, setFlags allow' (decide (e.1 = flagName)) e.2) := by
  obtain ⟨hid, c, f, hc, hf, hvalue⟩ := h
  obtain ⟨hid', c', f', hc', hf', hvalue'⟩ := h'
  cases hc.symm.trans hc'
  obtain ⟨n, -, rfl⟩ := body_node hc
  rw [Node.translate_toCodec, mapError_eq_ok_iff] at hf hf'
  have hfragment : n.fragment allow' = .ok (setFlagsFields allow' f) := Node.fragment_setFlags hf
  cases hf'.symm.trans hfragment
  refine Prod.ext (hid'.trans hid.symm) ?_
  rw [hvalue', hvalue]
  rfl

theorem definitions_setFlags {stack : List Codec} {p p' : Progress}
    (h : Settles ((withFlag options allow).context doc.build.bodies) {} stack p)
    (h' : Settles ((withFlag options allow').context doc.build.bodies) {} stack p') :
    p'.definitions = setFlagsFields allow' p.definitions := by
  obtain ⟨met, hwalk, hextends⟩ := h
  obtain ⟨met', hwalk', hextends'⟩ := h'
  -- the walk does not know the flag
  cases hwalk.unique hwalk'
  obtain ⟨es, hes, hall⟩ := hextends.definitions
  obtain ⟨es', hes', hall'⟩ := hextends'.definitions
  rw [hes, hes', List.nil_append, List.nil_append]
  clear hwalk hwalk' hextends hextends' hes hes'
  induction hall generalizing es' with
  | nil =>
    cases hall'
    rfl
  | cons hfirst _ ih =>
    cases hall' with
    | cons hfirst' hrest' => rw [setFlagsFields, ih _ hrest', settled_setFlags hfirst hfirst']

/-- **Schemas under two flags** are the same but for their closing flags. -/
theorem generate_setFlags (closed : doc.Closed) (hplain : options.handlers = []) (allow allow' : Bool) :
    ∃ schema : Fields, (generate doc.build (withFlag options allow)).1 = .ok schema ∧
      (generate doc.build (withFlag options allow')).1 = .ok (setFlagsFields allow' schema) := by
  obtain ⟨top, p, htop, hsettles, hgenerate, -⟩ :=
    exists_generate closed (show (withFlag options allow).handlers = [] from hplain)
  obtain ⟨top', p', htop', hsettles', hgenerate', -⟩ :=
    exists_generate closed (show (withFlag options allow').handlers = [] from hplain)
  cases htop'.symm.trans (Node.fragment_setFlags htop)
  refine ⟨withDefinitions p.definitions top, by rw [hgenerate], ?_⟩
  rw [hgenerate', definitions_setFlags hsettles hsettles', (Node.fragment_shaped htop).withDefinitions_eq,
    (Node.fragment_shaped htop').withDefinitions_eq]
  rfl

/-- a document with a field and a definition of the flags' name, a record of schemas, and objects that are merged -/
def guarded : Document where
  codec := .object {} [("additionalProperties", .literal {} (.bool true)),
    ("map", .record {} (.ref {} "additionalProperties")),
    ("both", .intersection {} [.object {} [("left", .leaf {} .any)],
      .union {} [.object {} [("right", .enum {} [.bool true, .int 1])], .ref {} "additionalProperties"]])]
  definitions := [("additionalProperties", .object ⟨some "itself", true⟩ [("next", .ref {} "additionalProperties")])]

/-- **Allowing further properties opens the closing flags and changes nothing else.** Of an accepted document, the
schema that allows them is the schema that does not with every flag in it set to true; all these flags are false; and
where an object stands in their place in one schema, one stands in the other too, which is the same up to flags. -/
theorem allowing_opens_flags {data : Data} (accepted : ofData data = .ok doc) (hplain : options.handlers = []) :
    ∃ closed opened : Fields,
      (generate doc.build { options with allowAdditional := false }).1 = .ok closed ∧
      (generate doc.build { options with allowAdditional := true }).1 = .ok opened ∧
      setFlags true false (.obj closed) = .obj opened ∧
      (∀ path b, (Json.obj closed).at? (path ++ [.field flagName]) = some (.bool b) → b = false) ∧
      ∀ path schema, (Json.obj opened).at? (path ++ [.field flagName]) = some (.obj schema) ↔
        ∃ schema', (Json.obj closed).at? (path ++ [.field flagName]) = some (.obj schema') ∧
          setFlags true false (.obj schema') = .obj schema := by
  have hclosed := closed_of_ofData accepted
  obtain ⟨closed, hgenerate, hopened⟩ := generate_setFlags hclosed hplain false true
  obtain ⟨same, hgenerate', hsame⟩ := generate_setFlags hclosed hplain false false
  cases hgenerate.symm.trans hgenerate'
  have hfixed : setFlags false false (.obj closed) = .obj closed :=
    congrArg Json.obj (Except.ok.inj (hsame.symm.trans hgenerate))
  refine ⟨closed, setFlagsFields true closed, hgenerate, hopened, rfl, fun path b hb => ?_, fun path schema => ?_⟩
  · -- setting the flags to false changes nothing, so they are false
    have hpath := @Json.at?_setFlags false false (path ++ [.field flagName]) (.obj closed)
    rw [Json.endsAtFlag_append, hfixed, hb] at hpath
    exact Json.bool.inj (Option.some.inj hpath)
  · have hpath := @Json.at?_setFlags true false (path ++ [.field flagName]) (.obj closed)
    rw [Json.endsAtFlag_append, setFlags] at hpath
    rw [hpath, Option.map_eq_some_iff]
    constructor
    · rintro ⟨v, hv, hflags⟩
      cases v with
      | obj schema' => exact ⟨schema', hv, hflags⟩
      | _ => exact nomatch hflags
    · rintro ⟨schema', hv, hflags⟩
      exact ⟨.obj schema', hv, hflags⟩

theorem guarded_opens_flags :
    ofData (Data.ofJson guarded.toJson) = .ok guarded ∧
    ∃ closed opened : Fields,
      (generate guarded.build ⟨.decoded, [], false⟩).1 = .ok closed ∧
      (generate guarded.build ⟨.decoded, [], true⟩).1 = .ok opened ∧
      setFlags true false (.obj closed) = .obj opened ∧
      (∀ path b, (Json.obj closed).at? (path ++ [.field flagName]) = some (.bool b) → b = false) ∧
      ∀ path schema, (Json.obj opened).at? (path ++ [.field flagName]) = some (.obj schema) ↔
        ∃ schema', (Json.obj closed).at? (path ++ [.field flagName]) = some (.obj schema') ∧
          setFlags true false (.obj schema') = .obj schema :=
  ⟨rfl, allowing_opens_flags (show ofData (Data.ofJson guarded.toJson) = .ok guarded from rfl)
    (show (⟨.decoded, [], true⟩ : Options).handlers = [] from rfl)⟩

end Document

end CodecCompiler
