/-
Translation without progress: what a codec, or a document node, is compiled to when nothing is remembered. A recursive
codec becomes a reference and nothing else; its body is not looked at.

- `Codec.translate` translates codecs, `Node.fragment` the nodes of documents; neither keeps definitions.
- `described_eq`: a description stands in front of a fragment that has none of its own.
- `Codec.translateList_eq_ok`, `Codec.translateShape_eq_ok`: a list has a translation when each of its codecs has one,
  and a shape when its list of codecs has.
- `Codec.translate_eq`: a translation is what the codec's kind prescribes, with the description in front.
- `Node.fragmentsOfList_eq_ok`, `Node.fragmentsOfShape_eq_ok`: so it is with the fragments of nodes.
- `Node.translate_toCodec`: translating what is built from a node gives the fragment of the node.
-/
import CodecCompiler.Compiler.Basic
import CodecCompiler.Proofs.Tree

namespace CodecCompiler

/-! ## Results -/

section Results

variable {ε α β : Type}

theorem ok_bind (a : α) (f : α → Except ε β) : Except.ok a >>= f = f a := rfl

theorem bind_eq_ok_iff {x : Except ε α} {f : α → Except ε β} {b : β} :
    x >>= f = .ok b ↔ ∃ a, x = .ok a ∧ f a = .ok b := by
  cases x <;> simp [bind, Except.bind]

theorem pure_eq_ok_iff {a b : α} : (pure a : Except ε α) = .ok b ↔ a = b := by
  simp [pure, Except.pure]

theorem mapError_eq_ok_iff {δ : Type} {x : Except ε α} {f : ε → δ} {a : α} : x.mapError f = .ok a ↔ x = .ok a := by
  cases x with
  | error e => exact iff_of_false (fun h => nomatch h) fun h => nomatch h
  | ok b => exact ⟨fun h => congrArg Except.ok (Except.ok.inj h), fun h => congrArg Except.ok (Except.ok.inj h)⟩

/-- a list of which each item has a result has these results together -/
theorem mapM_eq_ok {f : α → Except ε β} {g : α → β} {xs : List α} (h : ∀ x ∈ xs, f x = .ok (g x)) :
    xs.mapM f = .ok (xs.map g) := by
  induction xs with
  | nil => rfl
  | cons x xs ih =>
    have hrest := ih fun y hy => h y (List.mem_cons_of_mem x hy)
    rw [List.mapM_cons, h x List.mem_cons_self, hrest]
    rfl

/-- a list with an item without a result has none -/
theorem exists_mapM_eq_error {f : α → Except ε β} {xs : List α} {x : α} {e : ε} (hx : x ∈ xs) (h : f x = .error e) :
    ∃ e, xs.mapM f = .error e := by
  induction xs with
  | nil => cases hx
  | cons first xs ih =>
    rw [List.mapM_cons]
    cases hfirst : f first with
    | error e => exact ⟨e, rfl⟩
    | ok y =>
      rcases List.mem_cons.1 hx with rfl | hx
      · cases h.symm.trans hfirst
      · obtain ⟨e, hrest⟩ := ih hx
        rw [ok_bind, hrest]
        exact ⟨e, rfl⟩

theorem forall₂_mem_right {R : α → β → Prop} {xs : List α} {ys : List β} (h : List.Forall₂ R xs ys) :
    ∀ y ∈ ys, ∃ x ∈ xs, R x y := by
  induction h with
  | nil => simp
  | @cons x y xs ys hxy _ ih =>
    intro z hz
    rcases List.mem_cons.1 hz with rfl | hz
    · exact ⟨x, List.mem_cons_self, hxy⟩
    · obtain ⟨w, hw, hwz⟩ := ih z hz
      exact ⟨w, List.mem_cons_of_mem x hw, hwz⟩

end Results

/-! ## Descriptions -/

/-- a fragment with its description as the first field, unless that is empty or absent -/
def Fragment.noted (description : Option Text) (f : Fields) : Fields :=
  match description with
  | none => f
  | some d => if d.isEmpty then f else ("description", .str d) :: f

/-- the fragment has distinct fields, and no description among them -/
def Fragment.Undescribed (f : Fields) : Prop := Entries.Distinct f ∧ ("description" : Text) ∉ Entries.names f

@[simp] theorem Fragment.undescribed_iff {f : Fields} :
    Undescribed f ↔ (Entries.names f).Nodup ∧ ("description" : Text) ∉ Entries.names f := Iff.rfl

theorem described_eq {f : Fields} (h : Fragment.Undescribed f) (description : Option Text) :
    described description f = Fragment.noted description f := by
  cases description with
  | none => rfl
  | some d =>
    simp only [described, Fragment.noted]
    split_ifs
    · rfl
    · refine Entries.merge_of_disjoint h.1 fun name hname hmem => h.2 ?_
      have heq : name = "description" := by simpa using hmem
      rwa [heq] at hname

/-! ## Codecs -/

namespace Codec

/-- the translation of a codec that is only a tag -/
def bareTranslation (tag : Tag) : Except CompileError Fields :=
  match tag.kind? with
  | some (.primitive .any) => .ok []
  | some (.primitive p) => .ok [("type", .str p.name)]
  | some _ => .error (.bare tag.name)
  | none => .error (.unsupported tag.name)

theorem bareTranslation_form {tag : Tag} {f : Fields} (h : bareTranslation tag = .ok f) :
    f = [] ∨ ∃ p : Primitive, f = ([("type", .str p.name)] : Fields) := by
  unfold bareTranslation at h
  split at h
  · cases h
    exact .inl rfl
  · rename_i p _ _
    cases h
    exact .inr ⟨p, rfl⟩
  · cases h
  · cases h

mutual

/-- the fragment of a codec, found without entering bodies -/
def translate (allow : Bool) : Codec → Except CompileError Fields
  | .plain m tag => do return Fragment.noted m.description (← bareTranslation tag)
  | .literal m value => return Fragment.noted m.description [("type", .str "string"), ("const", value)]
  | .enum m values => return Fragment.noted m.description [("type", .str "string"), ("enum", .arr values)]
  | .object m shape => do
    let properties ← translateShape allow shape
    return Fragment.noted m.description (objectFragment properties allow (requiredNames shape))
  | .record m values => do return Fragment.noted m.description (recordFragment (← translate allow values))
  | .array m items => do return Fragment.noted m.description (arrayFragment (← translate allow items))
  | .tuple m items => do return Fragment.noted m.description (tupleFragment (← translateList allow items))
  | .intersection m members => do
    let fragments ← translateList allow members
    return Fragment.noted m.description (← (Fragment.intersect fragments allow).mapError .merge)
  | .union m members => do
    return Fragment.noted m.description [("anyOf", .arr ((← translateList allow members).map .obj))]
  | .recursive m id _ => return Fragment.noted m.description (reference id)

/-- the fragments of a list -/
def translateList (allow : Bool) : List Codec → Except CompileError (List Fields)
  | [] => return []
  | c :: cs => do
    let fragment ← translate allow c
    return fragment :: (← translateList allow cs)

/-- the fragments of a shape -/
def translateShape (allow : Bool) : List (Text × Codec) → Except CompileError (Entries Fields)
  | [] => return []
  | (name, c) :: cs => do
    let fragment ← translate allow c
    return (name, fragment) :: (← translateShape allow cs)

end

variable {allow : Bool}

theorem translateList_eq_ok {cs : List Codec} {fragments : List Fields} :
    translateList allow cs = .ok fragments ↔ List.Forall₂ (fun c f => translate allow c = .ok f) cs fragments := by
  induction cs generalizing fragments with
  | nil => cases fragments <;> simp [translateList, pure_eq_ok_iff]
  | cons c cs ih =>
    simp only [translateList, bind_eq_ok_iff, pure_eq_ok_iff, List.forall₂_cons_left_iff, ih]
    constructor
    · rintro ⟨f, hf, fs, hfs, rfl⟩
      exact ⟨f, fs, hf, hfs, rfl⟩
    · rintro ⟨f, fs, hf, hfs, rfl⟩
      exact ⟨f, hf, fs, hfs, rfl⟩

/-- the fields of a shape are translated as the list of its codecs is -/
theorem translateShape_eq_ok {shape : List (Text × Codec)} {fragments : Entries Fields} :
    translateShape allow shape = .ok fragments ↔
      ∃ fs, translateList allow (shape.map (·.2)) = .ok fs ∧ fragments = (Entries.names shape).zip fs := by
  induction shape generalizing fragments with
  | nil => cases fragments <;> simp [translateShape, translateList, pure_eq_ok_iff]
  | cons e shape ih =>
    simp only [translateShape, translateList, List.map_cons, bind_eq_ok_iff, pure_eq_ok_iff, ih]
    constructor
    · rintro ⟨f, hf, _, ⟨fs, hfs, rfl⟩, rfl⟩
      exact ⟨f :: fs, ⟨f, hf, fs, hfs, rfl⟩, rfl⟩
    · rintro ⟨_, ⟨f, hf, fs, hfs, rfl⟩, rfl⟩
      exact ⟨f, hf, _, ⟨fs, hfs, rfl⟩, rfl⟩

theorem names_translateShape {shape : List (Text × Codec)} {fragments : Entries Fields}
    (h : translateShape allow shape = .ok fragments) : Entries.names fragments = Entries.names shape := by
  obtain ⟨fs, hfs, rfl⟩ := translateShape_eq_ok.1 h
  have hlength : (shape.map (·.2)).length = fs.length := (translateList_eq_ok.1 hfs).length_eq
  refine Entries.names_zip ?_
  rw [← hlength, Entries.names, List.length_map, List.length_map]

/-! ### Fragments before their description -/

/-- the fragment that the kind of a codec prescribes, without the description -/
def prescription (allow : Bool) : Codec → Except CompileError Fields
  | .plain _ tag => bareTranslation tag
  | .literal _ value => return [("type", .str "string"), ("const", value)]
  | .enum _ values => return [("type", .str "string"), ("enum", .arr values)]
  | .object _ shape => do return objectFragment (← translateShape allow shape) allow (requiredNames shape)
  | .record _ values => do return recordFragment (← translate allow values)
  | .array _ items => do return arrayFragment (← translate allow items)
  | .tuple _ items => do return tupleFragment (← translateList allow items)
  | .intersection _ members => do (Fragment.intersect (← translateList allow members) allow).mapError .merge
  | .union _ members => do return [("anyOf", .arr ((← translateList allow members).map .obj))]
  | .recursive _ id _ => return reference id

theorem translate_eq (c : Codec) :
    translate allow c = (prescription allow c).map (Fragment.noted c.description) := by
  cases c with
  | plain m tag =>
    simp only [translate, prescription]
    cases bareTranslation tag <;> rfl
  | literal | enum | recursive => rfl
  | object m shape =>
    simp only [translate, prescription]
    cases translateShape allow shape <;> rfl
  | record m c | array m c =>
    simp only [translate, prescription]
    cases translate allow c <;> rfl
  | tuple m cs | union m cs =>
    simp only [translate, prescription]
    cases translateList allow cs <;> rfl
  | intersection m cs =>
    simp only [translate, prescription]
    cases translateList allow cs with
    | error e => rfl
    | ok fs =>
      let merged := (Fragment.intersect fs allow).mapError CompileError.merge
      change (merged >>= fun g => pure (Fragment.noted m.description g)) = merged.map (Fragment.noted m.description)
      cases merged <;> rfl

theorem translate_eq_ok {c : Codec} {f : Fields} :
    translate allow c = .ok f ↔ ∃ g, prescription allow c = .ok g ∧ Fragment.noted c.description g = f := by
  rw [translate_eq]
  cases prescription allow c <;> simp [Except.map]

end Codec

/-! ## Document nodes -/

/-- the names of a shape's fields that are not optional -/
def Node.requiredNames (shape : Entries Node) : List Text :=
  Entries.names (shape.filter fun e => !e.2.notes.optional)

namespace Node

mutual

/-- the fragment of a node by itself: a reference for every id, whatever its definition -/
def fragment (allow : Bool) : Node → Except MergeError Fields
  | .leaf n .any => return Fragment.noted n.description []
  | .leaf n p => return Fragment.noted n.description [("type", .str p.name)]
  | .literal n value => return Fragment.noted n.description [("type", .str "string"), ("const", value.toJson)]
  | .enum n values =>
    return Fragment.noted n.description [("type", .str "string"), ("enum", .arr (values.map Scalar.toJson))]
  | .object n shape => do
    let properties ← fragmentsOfShape allow shape
    return Fragment.noted n.description (objectFragment properties allow (requiredNames shape))
  | .record n values => do return Fragment.noted n.description (recordFragment (← fragment allow values))
  | .array n items => do return Fragment.noted n.description (arrayFragment (← fragment allow items))
  | .tuple n items => do return Fragment.noted n.description (tupleFragment (← fragmentsOfList allow items))
  | .intersection n members => do
    let fragments ← fragmentsOfList allow members
    return Fragment.noted n.description (← Fragment.intersect fragments allow)
  | .union n members => do
    return Fragment.noted n.description [("anyOf", .arr ((← fragmentsOfList allow members).map .obj))]
  | .ref n id => return Fragment.noted n.description (reference id)

/-- the fragments of a list -/
def fragmentsOfList (allow : Bool) : List Node → Except MergeError (List Fields)
  | [] => return []
  | n :: ns => do
    let first ← fragment allow n
    return first :: (← fragmentsOfList allow ns)

/-- the fragments of a shape -/
def fragmentsOfShape (allow : Bool) : List (Text × Node) → Except MergeError (Entries Fields)
  | [] => return []
  | (name, n) :: ns => do
    let first ← fragment allow n
    return (name, first) :: (← fragmentsOfShape allow ns)

end

section

variable {allow : Bool}

theorem fragmentsOfList_eq_ok {ns : List Node} {fs : List Fields} :
    fragmentsOfList allow ns = .ok fs ↔ List.Forall₂ (fun n f => fragment allow n = .ok f) ns fs := by
  induction ns generalizing fs with
  | nil => cases fs <;> simp [fragmentsOfList, pure_eq_ok_iff]
  | cons n ns ih =>
    simp only [fragmentsOfList, bind_eq_ok_iff, pure_eq_ok_iff, List.forall₂_cons_left_iff, ih]
    constructor
    · rintro ⟨f, hf, fs, hfs, rfl⟩
      exact ⟨f, fs, hf, hfs, rfl⟩
    · rintro ⟨f, fs, hf, hfs, rfl⟩
      exact ⟨f, hf, fs, hfs, rfl⟩

/-- the fields of a shape have the fragments that the list of its nodes has -/
theorem fragmentsOfShape_eq_ok {shape : List (Text × Node)} {fs : Entries Fields} :
    fragmentsOfShape allow shape = .ok fs ↔
      ∃ gs, fragmentsOfList allow (shape.map (·.2)) = .ok gs ∧ fs = (Entries.names shape).zip gs := by
  induction shape generalizing fs with
  | nil => cases fs <;> simp [fragmentsOfShape, fragmentsOfList, pure_eq_ok_iff]
  | cons e shape ih =>
    simp only [fragmentsOfShape, fragmentsOfList, List.map_cons, bind_eq_ok_iff, pure_eq_ok_iff, ih]
    constructor
    · rintro ⟨f, hf, _, ⟨gs, hgs, rfl⟩, rfl⟩
      exact ⟨f :: gs, ⟨f, hf, gs, hgs, rfl⟩, rfl⟩
    · rintro ⟨_, ⟨f, hf, gs, hgs, rfl⟩, rfl⟩
      exact ⟨f, hf, _, ⟨gs, hgs, rfl⟩, rfl⟩

/-! ### Fragments before their description -/

/-- the fragment that the kind of a node prescribes, without the description -/
def prescription (allow : Bool) : Node → Except MergeError Fields
  | .leaf _ .any => return []
  | .leaf _ p => return [("type", .str p.name)]
  | .literal _ value => return [("type", .str "string"), ("const", value.toJson)]
  | .enum _ values => return [("type", .str "string"), ("enum", .arr (values.map Scalar.toJson))]
  | .object _ shape => do return objectFragment (← fragmentsOfShape allow shape) allow (requiredNames shape)
  | .record _ values => do return recordFragment (← fragment allow values)
  | .array _ items => do return arrayFragment (← fragment allow items)
  | .tuple _ items => do return tupleFragment (← fragmentsOfList allow items)
  | .intersection _ members => do Fragment.intersect (← fragmentsOfList allow members) allow
  | .union _ members => do return [("anyOf", .arr ((← fragmentsOfList allow members).map .obj))]
  | .ref _ id => return reference id

theorem fragment_eq (n : Node) :
    fragment allow n = (prescription allow n).map (Fragment.noted n.notes.description) := by
  cases n with
  | leaf notes p => cases p <;> rfl
  | literal | enum | ref => rfl
  | object notes shape =>
    simp only [fragment, prescription]
    cases fragmentsOfShape allow shape <;> rfl
  | record notes n | array notes n =>
    simp only [fragment, prescription]
    cases fragment allow n <;> rfl
  | tuple notes ns | union notes ns =>
    simp only [fragment, prescription]
    cases fragmentsOfList allow ns <;> rfl
  | intersection notes ns =>
    simp only [fragment, prescription]
    cases fragmentsOfList allow ns with
    | error e => rfl
    | ok fs =>
      change (Fragment.intersect fs allow >>= fun g => pure (Fragment.noted notes.description g)) =
        (Fragment.intersect fs allow).map (Fragment.noted notes.description)
      cases Fragment.intersect fs allow <;> rfl

theorem fragment_eq_ok {n : Node} {f : Fields} :
    fragment allow n = .ok f ↔ ∃ g, prescription allow n = .ok g ∧ Fragment.noted n.notes.description g = f := by
  rw [fragment_eq]
  cases prescription allow n <;> simp [Except.map]

end

theorem noted_toMarks (n : Notes) (f : Fields) :
    Fragment.noted n.toMarks.description f = Fragment.noted n.description f := by
  cases hd : n.description with
  | none => simp [Notes.toMarks, hd]
  | some d => cases he : d.isEmpty <;> simp [Notes.toMarks, Fragment.noted, Option.filter, hd, he]

theorem required_toCodec (n : Node) : n.toCodec.required = !n.notes.optional := by
  cases n <;> rfl

theorem requiredNames_toShape (shape : List (Text × Node)) :
    CodecCompiler.requiredNames (toShape shape) = requiredNames shape := by
  rw [toShape_eq]
  unfold CodecCompiler.requiredNames requiredNames Entries.mapValues
  rw [List.filter_map]
  simp [Function.comp_def, required_toCodec, Entries.names]

/-- a result of translation seen as one of compilation -/
abbrev lifted {α : Type} (result : Except MergeError α) : Except CompileError α := result.mapError .merge

theorem lifted_bind {α β : Type} (x : Except MergeError α) (f : α → Except MergeError β) :
    lifted (x >>= f) = lifted x >>= fun a => lifted (f a) := by
  cases x <;> rfl

theorem lifted_pure {α : Type} (a : α) : lifted (pure a : Except MergeError α) = pure a := rfl

mutual

theorem translate_toCodec (allow : Bool) (n : Node) : n.toCodec.translate allow = lifted (n.fragment allow) := by
  cases n with
  | leaf n p => cases p <;> simp [toCodec, Codec.translate, fragment, noted_toMarks, lifted_pure] <;> rfl
  | literal n value => simp only [toCodec, Codec.translate, fragment, noted_toMarks, lifted_pure]
  | enum n values => simp only [toCodec, Codec.translate, fragment, noted_toMarks, lifted_pure]
  | object n shape =>
    simp only [toCodec, Codec.translate, fragment, noted_toMarks, requiredNames_toShape, lifted_bind, lifted_pure,
      translateShape_toShape allow shape]
  | record n values =>
    simp only [toCodec, Codec.translate, fragment, noted_toMarks, lifted_bind, lifted_pure,
      translate_toCodec allow values]
  | array n items =>
    simp only [toCodec, Codec.translate, fragment, noted_toMarks, lifted_bind, lifted_pure,
      translate_toCodec allow items]
  | tuple n items =>
    simp only [toCodec, Codec.translate, fragment, noted_toMarks, lifted_bind, lifted_pure,
      translateList_toCodecs allow items]
  | intersection n members =>
    simp only [toCodec, Codec.translate, fragment, noted_toMarks, lifted_bind, lifted_pure,
      translateList_toCodecs allow members]
  | union n members =>
    simp only [toCodec, Codec.translate, fragment, noted_toMarks, lifted_bind, lifted_pure,
      translateList_toCodecs allow members]
  | ref n id => simp only [toCodec, Codec.translate, fragment, noted_toMarks, lifted_pure]

theorem translateList_toCodecs (allow : Bool) (ns : List Node) :
    Codec.translateList allow (toCodecs ns) = lifted (fragmentsOfList allow ns) := by
  cases ns with
  | nil => rfl
  | cons n ns =>
    simp only [toCodecs, Codec.translateList, fragmentsOfList, lifted_bind, lifted_pure, translate_toCodec allow n,
      translateList_toCodecs allow ns]

theorem translateShape_toShape (allow : Bool) (shape : List (Text × Node)) :
    Codec.translateShape allow (toShape shape) = lifted (fragmentsOfShape allow shape) := by
  match shape with
  | [] => rfl
  | (name, n) :: shape =>
    simp only [toShape, Codec.translateShape, fragmentsOfShape, lifted_bind, lifted_pure, translate_toCodec allow n,
      translateShape_toShape allow shape]

end

end Node

end CodecCompiler
