/-
Schemas that a text can hold: where the dump of a document is lossless, so is its schema.

- `Json.lossless_obj`: an object is lossless when its names are distinct and unsplit and its values lossless.
- `Fragment.lossless_intersect`: fragments that are lossless merge into one that is.
- `Node.Told`, `Document.Told`: the dump is lossless, and the tuples have few enough items to be counted.
- `Node.fragment_lossless`: the fragment of a node that is told is lossless.
- `Document.schema_lossless`: so is the schema of a document that is told.
-/
import CodecCompiler.Proofs.Dangling
import CodecCompiler.Proofs.Roundtrip

namespace CodecCompiler

open Entries (names get?)

/-- strings and unsplit texts behind them are unsplit together -/
theorem Text.unsplit_append (s : String) {t : Text} (h : t.Unsplit) : (Text.ofString s ++ t).Unsplit := by
  unfold Text.Unsplit
  change (s.toList.map CodePoint.char ++ t.points).IsChain _
  induction s.toList with
  | nil => exact h
  | cons c cs ih =>
    rw [List.map_cons, List.cons_append, List.isChain_cons]
    refine ⟨fun q _ hboth => ?_, ih⟩
    cases hboth.1

namespace Json

theorem lossless_obj {fields : Fields} : (Json.obj fields).Lossless ↔
    Entries.Distinct fields ∧ (∀ e ∈ fields, e.1.Unsplit) ∧ ∀ e ∈ fields, e.2.Lossless := by
  constructor
  · intro h
    cases h with
    | obj hdistinct hnames hvalues => exact ⟨hdistinct, hnames, hvalues⟩
  · rintro ⟨hdistinct, hnames, hvalues⟩
    exact .obj hdistinct hnames hvalues

theorem lossless_arr {items : List Json} : (Json.arr items).Lossless ↔ ∀ v ∈ items, v.Lossless := by
  constructor
  · intro h
    cases h with
    | arr hitems => exact hitems
  · exact .arr

theorem lossless_str {s : Text} : (Json.str s).Lossless ↔ s.Unsplit := by
  constructor
  · intro h
    cases h with
    | str hs => exact hs
  · exact .str

/-- the value of a field of a lossless object -/
theorem Lossless.field {fields : Fields} (h : (Json.obj fields).Lossless) (name : Text) {v : Json}
    (hv : get? fields name = some v) : v.Lossless :=
  (lossless_obj.1 h).2.2 _ (Entries.mem_of_get? hv)

theorem lossless_string (s : String) : (Json.str s).Lossless := .str (Text.unsplit_ofString s)

/-- a field more, whose name is new -/
theorem lossless_cons {fields : Fields} {name : String} {v : Json} (hname : Text.ofString name ∉ names fields)
    (hv : v.Lossless) (h : (Json.obj fields).Lossless) : (Json.obj ((Text.ofString name, v) :: fields)).Lossless := by
  obtain ⟨hdistinct, hnames, hvalues⟩ := lossless_obj.1 h
  exact .obj (Entries.distinct_cons.2 ⟨hname, hdistinct⟩)
    (List.forall_mem_cons.2 ⟨Text.unsplit_ofString name, hnames⟩) (List.forall_mem_cons.2 ⟨hv, hvalues⟩)

end Json

namespace Fragment

open Json (lossless_obj lossless_arr lossless_cons lossless_string)

variable {allow : Bool}

/-! ## Fragments -/

theorem lossless_nil : (Json.obj []).Lossless :=
  .obj List.nodup_nil (fun _ he => absurd he List.not_mem_nil) fun _ he => absurd he List.not_mem_nil

/-- a fragment with a type in front -/
theorem lossless_typed {type : String} {f : Fields} (hf : ("type" : Text) ∉ names f) (h : (Json.obj f).Lossless) :
    (Json.obj (("type", .str type) :: f)).Lossless :=
  lossless_cons hf (lossless_string type) h

theorem lossless_noted {d : Option Text} {f : Fields} (hd : ∀ s, d = some s → s.Unsplit) (hund : Undescribed f)
    (hf : (Json.obj f).Lossless) : (Json.obj (noted d f)).Lossless := by
  cases d with
  | none => exact hf
  | some s =>
    rw [noted]
    split_ifs
    · exact hf
    · exact lossless_cons hund.2 (.str (hd s rfl)) hf

theorem lossless_object {properties : Fields} {required : List Json} (hproperties : (Json.obj properties).Lossless)
    (hrequired : ∀ v ∈ required, v.Lossless) : (Json.obj (object properties allow required)).Lossless := by
  refine lossless_typed (by simp) (lossless_cons (by simp) hproperties ?_)
  exact lossless_cons (by simp) (.bool allow) (lossless_cons (by simp) (.arr hrequired) lossless_nil)

theorem lossless_propertiesOf {f : Fields} (h : (Json.obj f).Lossless) : (Json.obj (propertiesOf f)).Lossless := by
  unfold propertiesOf
  split
  · rename_i properties hproperties
    exact h.field "properties" hproperties
  · exact lossless_nil

theorem lossless_requiredOf {f : Fields} (h : (Json.obj f).Lossless) : ∀ v ∈ requiredOf f, v.Lossless := by
  unfold requiredOf
  split
  · rename_i required hrequired
    exact lossless_arr.1 (h.field "required" hrequired)
  · exact fun v hv => absurd hv List.not_mem_nil

theorem lossless_joined {fs : List Fields} (h : ∀ f ∈ fs, (Json.obj f).Lossless) :
    (Json.obj (joined allow fs)).Lossless := by
  have hfrom : ∀ e ∈ Entries.mergeAll (fs.map propertiesOf), ∃ f ∈ fs, e ∈ propertiesOf f := by
    intro e he
    obtain ⟨es, hes, he⟩ := Entries.mem_mergeAll he
    obtain ⟨f, hf, rfl⟩ := List.mem_map.1 hes
    exact ⟨f, hf, he⟩
  have hproperties : (Json.obj (Entries.mergeAll (fs.map propertiesOf))).Lossless := by
    refine .obj (Entries.distinct_mergeAll _) (fun e he => ?_) fun e he => ?_
    · obtain ⟨f, hf, he⟩ := hfrom e he
      exact (lossless_obj.1 (lossless_propertiesOf (h f hf))).2.1 e he
    · obtain ⟨f, hf, he⟩ := hfrom e he
      exact (lossless_obj.1 (lossless_propertiesOf (h f hf))).2.2 e he
  refine lossless_object hproperties fun v hv => ?_
  obtain ⟨f, hf, hv⟩ := List.mem_flatMap.1 hv
  exact lossless_requiredOf (h f hf) v hv

theorem lossless_exposed {branches : List Fields} :
    (exposed branches).Lossless ↔ ∀ b ∈ branches, (Json.obj b).Lossless := by
  rw [exposed, lossless_arr, List.forall_mem_map]

theorem ready_of_lossless {known : Text → Prop} {f : Fields} (hshaped : Shaped allow known f)
    (h : (Json.obj f).Lossless) : Ready (fun g => (Json.obj g).Lossless) f := by
  refine ⟨hshaped.mergeable, h, fun union hunion => ?_⟩
  obtain ⟨branches, rfl, hbranches⟩ := hshaped.alternatives union hunion
  have hlossless := lossless_exposed.1 (h.field "anyOf" (alternatives?_eq_some.1 hunion).1)
  exact ⟨branches, rfl, fun b hb => ⟨(hbranches b hb).mergeable, hlossless b hb⟩⟩

/-- **Lossless fragments merge into a lossless one.** -/
theorem lossless_intersect {fs : List Fields} (h : ∀ f ∈ fs, Ready (fun g => (Json.obj g).Lossless) f) {g : Fields}
    (hg : intersect fs allow = .ok g) : (Json.obj g).Lossless ∧ Undescribed g := by
  obtain ⟨g', hg', hund, hready⟩ := Ready.intersect (fun fs hfs => lossless_joined hfs)
    (fun branches hbranches => lossless_cons (by simp) (lossless_exposed.2 hbranches) lossless_nil) h
  cases hg'.symm.trans hg
  exact ⟨hready.here, hund⟩

end Fragment

namespace Node

open Fragment (lossless_nil lossless_typed lossless_noted lossless_exposed Undescribed)
open Json (lossless_obj lossless_arr lossless_str lossless_cons lossless_string)

variable {allow : Bool}

/-! ## Nodes -/

/-- the dump of a node is lossless, and no tuple in the node has more items than can be counted in a text -/
structure Told (n : Node) : Prop where
  dump : n.toJson.Lossless
  tuples : ∀ notes items, .tuple notes items ∈ n.walk → isLong items.length = false

theorem toItems_eq (ns : List Node) : toItems ns = ns.map toJson := by
  induction ns with
  | nil => rfl
  | cons n ns ih => rw [toItems, ih, List.map_cons]

theorem toFields_eq (shape : List (Text × Node)) : toFields shape = Entries.mapValues toJson shape := by
  induction shape with
  | nil => rfl
  | cons e shape ih =>
    rw [toFields, ih]
    rfl

theorem toJson_eq (n : Node) : ∃ own, n.toJson = .obj (fields n.kind n.notes own) := by
  cases n <;> exact ⟨_, rfl⟩

theorem Told.description {n : Node} (h : n.Told) : ∀ s, n.notes.description = some s → s.Unsplit := by
  intro s hs
  obtain ⟨own, hown⟩ := n.toJson_eq
  have hdump := h.dump
  rw [hown] at hdump
  exact lossless_str.1 (hdump.field "description" (by rw [fields, hs]; rfl))

theorem lossless_toItems {ns : List Node} (h : (Json.arr (toItems ns)).Lossless) : ∀ n ∈ ns, n.toJson.Lossless := by
  rwa [toItems_eq, lossless_arr, List.forall_mem_map] at h

theorem lossless_toFields {shape : List (Text × Node)} (h : (Json.obj (toFields shape)).Lossless) :
    Entries.Distinct shape ∧ (∀ e ∈ shape, e.1.Unsplit) ∧ ∀ e ∈ shape, e.2.toJson.Lossless := by
  obtain ⟨hdistinct, hnames, hvalues⟩ := lossless_obj.1 h
  rw [toFields_eq] at hdistinct hnames hvalues
  rw [Entries.Distinct, Entries.names_mapValues] at hdistinct
  exact ⟨hdistinct, fun e he => hnames _ (List.mem_map_of_mem he), fun e he => hvalues _ (List.mem_map_of_mem he)⟩

theorem Told.child {n c : Node} (h : n.Told) (hc : c ∈ n.children) : c.Told := by
  refine ⟨?_, fun notes items hmem => h.tuples notes items ?_⟩
  · have hdump := h.dump
    cases n with
    | leaf | literal | enum | ref => cases hc
    | object notes shape =>
      obtain ⟨e, he, rfl⟩ := List.mem_map.1 hc
      exact (lossless_toFields (hdump.field "shape" rfl)).2.2 e he
    | record notes values =>
      rw [List.mem_singleton.1 hc]
      exact hdump.field "values" rfl
    | array notes items =>
      rw [List.mem_singleton.1 hc]
      exact hdump.field "items" rfl
    | tuple notes ns => exact lossless_toItems (hdump.field "items" rfl) c hc
    | intersection notes ns | union notes ns => exact lossless_toItems (hdump.field "of" rfl) c hc
  · rw [walk_eq]
    exact List.mem_cons_of_mem _ (List.mem_flatMap.2 ⟨c, hc, hmem⟩)

/-- the fragments of a list of nodes are lossless where those of its nodes are -/
theorem lossless_fragments {ns : List Node} (h : ∀ n ∈ ns, ∀ f, n.fragment allow = .ok f → (Json.obj f).Lossless)
    {fs : List Fields} (hfs : fragmentsOfList allow ns = .ok fs) : ∀ f ∈ fs, (Json.obj f).Lossless := by
  intro f hf
  obtain ⟨n, hn, hnf⟩ := forall₂_mem_right (fragmentsOfList_eq_ok.1 hfs) f hf
  exact h n hn f hnf

theorem lossless_objectFragment {shape : List (Text × Node)} (hdistinct : Entries.Distinct shape)
    (hnames : ∀ e ∈ shape, e.1.Unsplit)
    (h : ∀ n ∈ shape.map (·.2), ∀ f, n.fragment allow = .ok f → (Json.obj f).Lossless) {fs : Entries Fields}
    (hfs : fragmentsOfShape allow shape = .ok fs) :
    (Json.obj (objectFragment fs allow (requiredNames shape))).Lossless := by
  have hunsplit : ∀ name ∈ names shape, name.Unsplit := List.forall_mem_map.2 hnames
  obtain ⟨gs, hgs, rfl⟩ := fragmentsOfShape_eq_ok.1 hfs
  have hlossless := lossless_fragments h hgs
  have hlength : (names shape).length = gs.length := by
    rw [← (fragmentsOfList_eq_ok.1 hgs).length_eq, names, List.length_map, List.length_map]
  have hproperties : (Json.obj (Entries.mapValues .obj ((names shape).zip gs))).Lossless := by
    refine .obj ?_ (List.forall_mem_map.2 fun e he => ?_) (List.forall_mem_map.2 fun e he => ?_)
    · rwa [Entries.Distinct, Entries.names_mapValues, Entries.names_zip hlength]
    · exact hunsplit e.1 (List.of_mem_zip he).1
    · exact hlossless e.2 (List.of_mem_zip he).2
  refine Fragment.lossless_object hproperties (List.forall_mem_map.2 fun name hname => .str (hunsplit name ?_))
  obtain ⟨e, he, rfl⟩ := List.mem_map.1 hname
  exact Entries.mem_names (List.mem_filter.1 he).1

theorem lossless_recordFragment {values : Fields} (h : (Json.obj values).Lossless) :
    (Json.obj (recordFragment values)).Lossless := by
  refine lossless_typed (by simp) (lossless_cons (by simp) h ?_)
  refine lossless_cons (by simp) lossless_nil (lossless_cons (by simp) (.arr ?_) lossless_nil)
  exact fun v hv => absurd hv List.not_mem_nil

theorem lossless_tupleFragment {fs : List Fields} (hlong : isLong fs.length = false)
    (h : ∀ f ∈ fs, (Json.obj f).Lossless) : (Json.obj (tupleFragment fs)).Lossless := by
  refine lossless_typed (by simp) (lossless_cons (by simp) (lossless_exposed.2 h) ?_)
  exact lossless_cons (by simp) (.int hlong) (lossless_cons (by simp) (.int hlong) lossless_nil)

/-- **The schema of a node is lossless** where its dump is, and its tuples can be counted. -/
theorem fragment_lossless {n : Node} (hn : n.Told) {f : Fields} (h : n.fragment allow = .ok f) :
    (Json.obj f).Lossless := by
  induction n using induction generalizing f with
  | step n ih =>
    have hd := hn.description
    have hbelow : ∀ c ∈ n.children, ∀ g, c.fragment allow = .ok g → (Json.obj g).Lossless :=
      fun c hc g hg => ih c hc (hn.child hc) hg
    have hdump := hn.dump
    cases n with
    | leaf notes p =>
      cases p with
      | any =>
        cases pure_eq_ok_iff.1 h
        exact lossless_noted hd (by simp) lossless_nil
      | _ =>
        cases pure_eq_ok_iff.1 h
        exact lossless_noted hd (by simp) (lossless_typed List.not_mem_nil lossless_nil)
    | literal notes value =>
      cases pure_eq_ok_iff.1 h
      have hvalue : value.toJson.Lossless := hdump.field "value" rfl
      exact lossless_noted hd (by simp) (lossless_typed (by simp) (lossless_cons (by simp) hvalue lossless_nil))
    | enum notes values =>
      cases pure_eq_ok_iff.1 h
      have hvalues : (Json.arr (values.map Scalar.toJson)).Lossless := hdump.field "values" rfl
      exact lossless_noted hd (by simp) (lossless_typed (by simp) (lossless_cons (by simp) hvalues lossless_nil))
    | object notes shape =>
      obtain ⟨fs, hfs, h⟩ := bind_eq_ok_iff.1 h
      cases pure_eq_ok_iff.1 h
      obtain ⟨hdistinct, hnames, -⟩ := lossless_toFields (hdump.field "shape" rfl)
      have hobject := lossless_objectFragment hdistinct hnames hbelow hfs
      exact lossless_noted hd (by simp [objectFragment, Fragment.object]) hobject
    | record notes values =>
      obtain ⟨v, hv, h⟩ := bind_eq_ok_iff.1 h
      cases pure_eq_ok_iff.1 h
      have hvalues := hbelow values List.mem_cons_self v hv
      exact lossless_noted hd (by simp [recordFragment]) (lossless_recordFragment hvalues)
    | array notes items =>
      obtain ⟨v, hv, h⟩ := bind_eq_ok_iff.1 h
      cases pure_eq_ok_iff.1 h
      have hitems := hbelow items List.mem_cons_self v hv
      refine lossless_noted hd (by simp [arrayFragment]) (lossless_typed (by simp) ?_)
      exact lossless_cons (by simp) hitems lossless_nil
    | tuple notes items =>
      obtain ⟨fs, hfs, h⟩ := bind_eq_ok_iff.1 h
      cases pure_eq_ok_iff.1 h
      have hlength : items.length = fs.length := (fragmentsOfList_eq_ok.1 hfs).length_eq
      have hlong := hn.tuples notes items (by rw [walk_eq]; exact List.mem_cons_self)
      rw [hlength] at hlong
      exact lossless_noted hd (by simp [tupleFragment]) (lossless_tupleFragment hlong (lossless_fragments hbelow hfs))
    | intersection notes members =>
      obtain ⟨fs, hfs, h⟩ := bind_eq_ok_iff.1 h
      obtain ⟨g, hg, h⟩ := bind_eq_ok_iff.1 h
      cases pure_eq_ok_iff.1 h
      have hready : ∀ f ∈ fs, Fragment.Ready (fun g => (Json.obj g).Lossless) f := by
        intro f hf
        obtain ⟨c, hc, hcf⟩ := forall₂_mem_right (fragmentsOfList_eq_ok.1 hfs) f hf
        exact Fragment.ready_of_lossless (fragment_shaped hcf) (hbelow c hc f hcf)
      obtain ⟨hlossless, hundescribed⟩ := Fragment.lossless_intersect hready hg
      exact lossless_noted hd hundescribed hlossless
    | union notes members =>
      obtain ⟨fs, hfs, h⟩ := bind_eq_ok_iff.1 h
      cases pure_eq_ok_iff.1 h
      have hbranches := lossless_exposed.2 (lossless_fragments hbelow hfs)
      exact lossless_noted hd (by simp) (lossless_cons (by simp) hbranches lossless_nil)
    | ref notes id =>
      cases pure_eq_ok_iff.1 h
      have hid : id.Unsplit := lossless_str.1 (hdump.field "id" rfl)
      have htarget : (Json.str ("#/definitions/" ++ id)).Lossless := .str (Text.unsplit_append "#/definitions/" hid)
      exact lossless_noted hd (by simp [reference]) (lossless_cons (by simp) htarget lossless_nil)

end Node

namespace Document

open Json (lossless_obj)

variable {doc : Document} {options : Options}

/-! ## Documents -/

/-- the dump of a document is lossless, and no tuple in it has more items than can be counted in a text -/
structure Told (doc : Document) : Prop where
  dump : doc.toJson.Lossless
  tuples : ∀ notes items, .tuple notes items ∈ doc.walk → isLong items.length = false

theorem Told.codec (h : doc.Told) : doc.codec.Told := by
  refine ⟨h.dump.field "codec" rfl, fun notes items hmem => h.tuples notes items ?_⟩
  exact List.mem_append_left _ hmem

theorem Told.definition (h : doc.Told) {name : Text} {n : Node} (hn : get? doc.definitions name = some n) :
    name.Unsplit ∧ n.Told := by
  have hmem := Entries.mem_of_get? hn
  obtain ⟨-, hnames, hdumps⟩ := Node.lossless_toFields (h.dump.field "definitions" rfl)
  refine ⟨hnames _ hmem, hdumps _ hmem, fun notes items htuple => h.tuples notes items ?_⟩
  refine List.mem_append_right _ ?_
  rw [Node.walkShape_eq]
  exact List.mem_flatMap.2 ⟨n, List.mem_map.2 ⟨_, hmem, rfl⟩, htuple⟩

/-- **The schema of a document is lossless** where its dump is, and its tuples can be counted. -/
theorem schema_lossless (closed : doc.Closed) (hplain : options.handlers = []) (h : doc.Told) :
    ∃ schema, (generate doc.build options).1 = .ok schema ∧ (Json.obj schema).Lossless := by
  obtain ⟨definitions, top, htop, hgenerate, hcompiled⟩ := exists_schema closed hplain
  have htold : ∀ e ∈ definitions, e.1.Unsplit ∧ e.2.Lossless := by
    intro e he
    obtain ⟨node, fragment, hnode, hfragment, hvalue⟩ := hcompiled.fragments e he
    obtain ⟨hname, hnode⟩ := h.definition hnode
    rw [hvalue]
    exact ⟨hname, Node.fragment_lossless hnode hfragment⟩
  have hdefinitions : (Json.obj definitions).Lossless :=
    .obj hcompiled.distinct (fun e he => (htold e he).1) fun e he => (htold e he).2
  refine ⟨_, hgenerate, Json.lossless_cons ?_ hdefinitions (Node.fragment_lossless h.codec htop)⟩
  exact (Node.fragment_shaped htop).apart.2

end Document

end CodecCompiler
