/-
What validation gives, whatever the data: a document that its own dump writes, or issues. Those of the parts of a
document are never about a reference.

- `Checked.Gives`: a check gives values with a property only, or issues, at least one and none about a reference.
- `Datum.induction`: what holds of data when it holds of the data directly inside holds of all.
- `Node.sound_of_datum`: the checks of data as a node, as a list of nodes and as named nodes give parts that their
  dumps write; `Node.sound_entrance`: so do those of collections kept apart, however deep they are entered.
- `Document.shapeOfData_gives`: so does the check of a whole document before its references.
- `Document.ofJson_toJson`: hence the dump of an accepted document is accepted as that document.
-/
import CodecCompiler.Proofs.Acceptance

namespace CodecCompiler

open Entries (names get?)

/-- is a problem one of the parts of a document, and not of what its references name -/
def Problem.isStructural : Problem → Bool
  | .dangling _ => false
  | _ => true

namespace Checked

variable {α β γ : Type} {P : α → Prop} {Q : β → Prop} {R : γ → Prop}

/-- values with a property only, or issues, at least one and none about a reference -/
inductive Gives (P : α → Prop) : Checked α → Prop
  | value {a : α} : P a → Gives P (.ok a)
  | issues {found : List Issue} : found ≠ [] → (∀ issue ∈ found, issue.problem.isStructural = true) → Gives P (.error found)

namespace Gives

theorem holds {a : α} (h : Gives P (.ok a)) : P a := by
  cases h with
  | value ha => exact ha

theorem structural {result : Checked α} (h : Gives P result) : ∀ issue ∈ result.issues, issue.problem.isStructural = true := by
  cases h with
  | value ha => exact fun issue hissue => absurd hissue List.not_mem_nil
  | issues hsome hall => exact hall

theorem mono {P' : α → Prop} {result : Checked α} (h : Gives P result) (hP : ∀ a, P a → P' a) : Gives P' result := by
  cases h with
  | value ha => exact .value (hP _ ha)
  | issues hsome hall => exact .issues hsome hall

theorem fail {problem : Problem} (h : problem.isStructural = true) : Gives P (Checked.fail problem) := by
  refine .issues (List.cons_ne_nil _ _) fun issue hissue => ?_
  rw [List.mem_singleton.1 hissue]
  exact h

theorem both {f : α → β → γ} {a : Checked α} {b : Checked β} (ha : Gives P a) (hb : Gives Q b)
    (hf : ∀ x y, P x → Q y → R (f x y)) : Gives R (Checked.both f a b) := by
  have hall : ∀ issue ∈ a.issues ++ b.issues, issue.problem.isStructural = true := by
    intro issue hissue
    rcases List.mem_append.1 hissue with hissue | hissue
    · exact ha.structural issue hissue
    · exact hb.structural issue hissue
  cases ha with
  | value ha =>
    cases hb with
    | value hb => exact .value (hf _ _ ha hb)
    | issues hsome _ => exact .issues (List.append_ne_nil_of_right_ne_nil _ hsome) hall
  | issues hsome _ => cases hb <;> exact .issues (List.append_ne_nil_of_left_ne_nil hsome _) hall

theorem also {a : Checked α} {b : Checked Unit} {U : Unit → Prop} (ha : Gives P a) (hb : Gives U b) :
    Gives P (Checked.also a b) :=
  both ha hb fun _ _ hx _ => hx

theorem under {steps : List Step} {a : Checked α} (h : Gives P a) : Gives P (Checked.under steps a) := by
  cases h with
  | value ha => exact .value ha
  | @issues found hsome hall =>
    refine .issues (by simpa using hsome) fun issue hissue => ?_
    obtain ⟨inner, hinner, rfl⟩ := List.mem_map.1 hissue
    exact hall inner hinner

theorem named {keys : List Text} {a : Checked α} (h : Gives P a) : Gives P (Checked.named keys a) := by
  unfold Checked.named
  split_ifs
  · exact h
  · exact fail rfl

theorem map {a : Checked α} {f : α → β} (ha : Gives P a) (hf : ∀ x, P x → Q (f x)) : Gives Q (a.map f) := by
  cases ha with
  | value ha => exact .value (hf _ ha)
  | issues hsome hall => exact .issues hsome hall

theorem bind {a : Checked α} {f : α → Checked β} (ha : Gives P a) (hf : ∀ x, P x → Gives Q (f x)) :
    Gives Q (a >>= f) := by
  cases ha with
  | value ha => exact hf _ ha
  | issues hsome hall => exact .issues hsome hall

theorem nonEmpty {isEmpty : Bool} {a : Checked α} (h : isEmpty = false → Gives P a) :
    Gives P (Checked.nonEmpty isEmpty a) := by
  unfold Checked.nonEmpty
  cases isEmpty with
  | true => exact fail rfl
  | false => exact h rfl

theorem each {check : Datum → Checked α} (h : ∀ d, Gives P (check d)) (ds : List Datum) (i : Nat) :
    Gives (fun as => as.length = ds.length ∧ ∀ a ∈ as, P a) (Checked.each check i ds) := by
  induction ds generalizing i with
  | nil => exact .value ⟨rfl, fun a ha => absurd ha List.not_mem_nil⟩
  | cons d ds ih =>
    refine both (h d).under (ih (i + 1)) fun a as ha has => ⟨congrArg (· + 1) has.1, ?_⟩
    exact List.forall_mem_cons.2 ⟨ha, has.2⟩

end Gives

end Checked

/-! ## Data -/

namespace Datum

/-- the data directly inside, less the keys of mappings -/
def children : Datum → List Datum
  | .pair a b => [a, b]
  | .list items => items
  | .set members => members
  | .map entries => entries.map (·.2)
  | .null | .bool _ | .int _ | .float _ | .str _ | .octets _ | .date _ | .moment _ _ | .shared _ => []

theorem sizeOf_child {d c : Datum} (h : c ∈ d.children) : sizeOf c < sizeOf d := by
  cases d with
  | null | bool | int | float | str | octets | date | moment | shared => simp [children] at h
  | pair a b =>
    rcases List.mem_cons.1 h with rfl | h
    · simp only [pair.sizeOf_spec]
      omega
    · rw [List.mem_singleton.1 h]
      simp only [pair.sizeOf_spec]
      omega
  | list ds | set ds =>
    have hlt := List.sizeOf_lt_of_mem (show c ∈ ds from h)
    simp only [list.sizeOf_spec, set.sizeOf_spec]
    omega
  | map entries =>
    obtain ⟨e, he, rfl⟩ := List.mem_map.1 h
    have hlt := List.sizeOf_lt_of_mem he
    have hpair : sizeOf e = 1 + sizeOf e.1 + sizeOf e.2 := rfl
    simp only [map.sizeOf_spec]
    omega

theorem induction {motive : Datum → Prop} (step : ∀ d, (∀ c ∈ d.children, motive c) → motive d) (d : Datum) :
    motive d :=
  step d fun c hc =>
    have := sizeOf_child hc
    induction step c
termination_by sizeOf d

theorem mem_of_field? {entries : List (Datum × Datum)} {name : Text} {d : Datum} (h : field? entries name = some d) :
    d ∈ entries.map (·.2) := by
  induction entries with
  | nil => cases h
  | cons e entries ih =>
    rw [field?] at h
    split_ifs at h
    · cases h
      exact List.mem_cons_self
    · exact List.mem_cons_of_mem _ (ih h)

/-! ### Values that are no collections -/

open Checked (Gives)

theorem gives_string {t : Text} : Gives (fun s => t = .ofString s) (Checked.string t) := by
  cases h : Checked.string t with
  | ok s => exact .value (Checked.string_eq_ok_iff.1 h)
  | error found =>
    rw [← h]
    unfold Checked.string at h ⊢
    cases hs : t.toString? with
    | some s =>
      rw [hs] at h
      cases h
    | none => exact .fail rfl

theorem gives_text (d : Datum) : Gives (fun _ => True) d.text := by
  cases d with
  | str s => exact .value trivial
  | octets os =>
    rw [text]
    cases Text.Utf8.decode os with
    | ok s => exact .value trivial
    | error fault => exact .fail rfl
  | _ => exact .fail rfl

theorem gives_truthOfInt (n : Int) : Gives (fun _ => True) (truthOfInt n) := by
  unfold truthOfInt
  split_ifs
  · exact .value trivial
  · exact .value trivial
  · exact .fail rfl
  · exact .fail rfl

theorem gives_truthOfString (s : String) : Gives (fun _ => True) (truthOfString s) := by
  unfold truthOfString
  dsimp only
  split_ifs
  · exact .value trivial
  · exact .value trivial
  · exact .fail rfl

theorem gives_truth (d : Datum) : Gives (fun _ => True) d.truth := by
  cases d with
  | bool b => exact .value trivial
  | int n => exact gives_truthOfInt n
  | float x =>
    change Gives _ (truthOfFloat x)
    unfold truthOfFloat
    cases x.toInt? with
    | some n => exact gives_truthOfInt n
    | none => exact .fail rfl
  | str s => exact gives_string.bind fun s _ => gives_truthOfString s
  | octets os =>
    rw [truth]
    cases Text.Utf8.decode os with
    | ok s => exact gives_truthOfString s
    | error fault => exact .fail rfl
  | _ => exact .fail rfl

theorem gives_noScalar {α : Type} {P : α → Prop} {text integer number truth : Problem}
    (h : ∀ p ∈ [text, integer, number, truth], p.isStructural = true) :
    Gives P (noScalar text integer number truth) := by
  refine .issues (List.cons_ne_nil _ _) fun issue hissue => h _ ?_
  exact List.mem_map_of_mem (f := Issue.problem) hissue

theorem gives_scalar (d : Datum) : Gives (· ≠ .null) d.scalar := by
  cases d with
  | bool | int | float | str => exact .value Scalar.noConfusion
  | octets os =>
    rw [scalar]
    cases Text.Utf8.decode os with
    | ok s => exact .value Scalar.noConfusion
    | error fault => exact gives_noScalar (by decide)
  | null | date | moment | pair | list | set | map | shared => exact gives_noScalar (by decide)

theorem gives_value (d : Datum) : Gives (fun _ => True) d.value := by
  by_cases hnull : d = .null
  · rw [hnull]
    exact .value trivial
  · rw [value]
    · exact (gives_scalar d).mono fun _ _ => trivial
    · exact hnull

theorem gives_description (d : Datum) : Gives (fun _ => True) d.description := by
  by_cases hnull : d = .null
  · rw [hnull]
    exact .value trivial
  · rw [description]
    · exact (gives_text d).bind fun _ _ => .value trivial
    · exact hnull

theorem gives_id (d : Datum) : Gives Text.IsId d.id := by
  refine (gives_text d).bind fun t _ => gives_string.bind fun s hs => ?_
  split_ifs with hempty
  · exact .fail rfl
  · exact .value ⟨s, by simpa using hempty, rfl⟩

end Datum

namespace Node

open Checked (Gives)

variable {data : Data} {enter : Entrance} {entries : List (Datum × Datum)}

/-! ## Nodes -/

/-- the dump of a node writes it -/
def Written (n : Node) : Prop := Writes Text.IsId n.toJson n

theorem writes_toItems {ns : List Node} (h : ∀ n ∈ ns, n.Written) : WritesEach Text.IsId (toItems ns) ns := by
  induction ns with
  | nil => exact .nil
  | cons n ns ih => exact .cons (h n List.mem_cons_self) (ih fun m hm => h m (List.mem_cons_of_mem n hm))

theorem writes_toFields {shape : List (Text × Node)} (h : ∀ e ∈ shape, e.2.Written) :
    WritesNamed Text.IsId (toFields shape) shape := by
  induction shape with
  | nil => exact .nil
  | cons e shape ih => exact .cons (h e List.mem_cons_self) (ih fun f hf => h f (List.mem_cons_of_mem e hf))

/-- the fields of a dump begin as those of every node of its kind do -/
theorem head_fields {kind : Kind} {notes : Notes} {own : Fields}
    (hown : ∀ name ∈ names own, ∃ field, kind.fieldName? = some field ∧ name = .ofString field) :
    Head (fields kind notes own) kind notes := by
  refine ⟨rfl, ?_, .given (.bool notes.optional), fun name hname => ?_⟩
  · obtain ⟨description, optional⟩ := notes
    cases description with
    | none => exact .null
    | some d => exact .text d
  · rcases List.mem_append.1 (show name ∈ (["description", "optional", "type"] : List Text) ++ names own from hname) with
      hcommon | hname
    · exact .inl hcommon
    · exact .inr (hown name hname)

/-- the dump of a node of a kind writes it if its own field does -/
theorem written_own {kind : Kind} {notes : Notes} {n : Node} {field : String} {v : Json}
    (hfield : kind.fieldName? = some field)
    (hown : WritesOwn Text.IsId (fields kind notes [(.ofString field, v)]) kind notes n) :
    Writes Text.IsId (.obj (fields kind notes [(.ofString field, v)])) n := by
  refine .node (head_fields fun name hname => ⟨field, hfield, ?_⟩) hown
  exact List.mem_singleton.1 hname

theorem written_leaf (notes : Notes) (p : Primitive) : (leaf notes p).Written :=
  .node (head_fields fun _ hname => absurd hname List.not_mem_nil) (.leaf p)

theorem written_list {notes : Notes} {ns : List Node} (hsome : ns ≠ []) (h : ∀ n ∈ ns, n.Written) :
    (intersection notes ns).Written ∧ (union notes ns).Written := by
  have hitems : toItems ns ≠ [] := by
    cases ns with
    | nil => exact absurd rfl hsome
    | cons n ns => exact List.cons_ne_nil _ _
  exact ⟨written_own rfl (.intersection rfl hitems (writes_toItems h)),
    written_own rfl (.union rfl hitems (writes_toItems h))⟩

/-! ### Fields -/

theorem gives_kindOf : Gives (fun _ => True) (kindOf data entries) := by
  unfold kindOf
  cases Datum.field? entries "type" with
  | none => exact .fail rfl
  | some type =>
    dsimp only
    split
    · exact .fail rfl
    · exact .value trivial

theorem gives_unknownKeys {known : List Text} :
    ∀ issue ∈ unknownKeys known entries, issue.problem.isStructural = true := by
  intro issue hissue
  obtain ⟨e, -, he⟩ := List.mem_filterMap.1 hissue
  obtain ⟨key, d⟩ := e
  cases key with
  | str name =>
    dsimp only at he
    split_ifs at he
    cases he
    rfl
  | _ =>
    cases he
    rfl

theorem gives_onlyKnown {known : List Text} : Gives (fun _ => True) (onlyKnown known entries) := by
  have hall := @gives_unknownKeys entries known
  unfold onlyKnown
  cases hfound : unknownKeys known entries with
  | nil => exact .value trivial
  | cons issue found =>
    rw [hfound] at hall
    exact .issues (List.cons_ne_nil _ _) hall

theorem gives_present {α : Type} {P : α → Prop} {name : String} {key : Text} {check : Datum → Checked α}
    (h : ∀ d ∈ entries.map (·.2), Gives P (check d)) :
    Gives P (Checked.present name ((Datum.field? entries key).map check)) := by
  cases hd : Datum.field? entries key with
  | none => exact .issues (List.cons_ne_nil _ _) (by simp [Problem.isStructural])
  | some d => exact (h d (Datum.mem_of_field? hd)).under

theorem gives_orElse {α : Type} {P : α → Prop} {name : String} {key : Text} {absent : α} {check : Datum → Checked α}
    (habsent : P absent) (h : ∀ d ∈ entries.map (·.2), Gives P (check d)) :
    Gives P (Checked.orElse name absent ((Datum.field? entries key).map check)) := by
  cases hd : Datum.field? entries key with
  | none => exact .value habsent
  | some d => exact (h d (Datum.mem_of_field? hd)).under

theorem gives_notesOf : Gives (fun _ => True) (notesOf entries) := by
  refine .both (gives_orElse trivial fun d _ => Datum.gives_description d)
    (gives_orElse trivial fun d _ => Datum.gives_truth d) fun _ _ _ _ => trivial

theorem gives_valuesOf (d : Datum) : Gives (fun values => values ≠ [] ∧ Scalar.null ∉ values) (valuesOf data d) := by
  unfold valuesOf
  cases (data.opened d).items? with
  | none => exact .fail rfl
  | some items =>
    refine .nonEmpty fun hsome => (Gives.each Datum.gives_scalar items 0).mono ?_
    rintro values ⟨hlength, hvalues⟩
    refine ⟨?_, fun hnull => hvalues _ hnull rfl⟩
    rintro rfl
    rw [List.isEmpty_iff_length_eq_zero.2 hlength.symm] at hsome
    cases hsome

/-- a node of a kind is given when its own field is such as the kind wants it -/
theorem gives_assemble {α : Type} {P : α → Prop} {kind : Kind} {make : Notes → α → Node} {own : Checked α}
    (hown : Gives P own) (hmake : ∀ notes a, P a → (make notes a).Written) :
    Gives Written (assemble kind entries make own) :=
  ((gives_notesOf.both hown fun notes a _ => hmake notes a).also gives_onlyKnown).named.under

/-! ### Collections -/

/-- what the checks of a collection as a node, as a list of nodes and as named nodes give is written by its dump -/
structure Sound (asNode : Checked Node) (asList : Bool → Checked (List Node))
    (asShape : Checked (List (Text × Node))) : Prop where
  node : Gives Written asNode
  list : ∀ nonEmpty, Gives (fun ns => (nonEmpty = true → ns ≠ []) ∧ ∀ n ∈ ns, n.Written) (asList nonEmpty)
  shape : Gives (fun shape => ∀ e ∈ shape, e.2.Written) asShape

/-- the same for collections that are kept apart -/
def Entrance.Sound (enter : Entrance) : Prop :=
  ∀ n, Node.Sound (enter.node n) (fun nonEmpty => enter.list nonEmpty n) (enter.shape n)

/-- the same for a datum -/
def SoundOf (data : Data) (enter : Entrance) (d : Datum) : Prop :=
  Sound (ofDatum data enter d) (fun nonEmpty => listOf data enter nonEmpty d) (shapeOf data enter d)

theorem gives_nodesOf {ds : List Datum} (h : ∀ d ∈ ds, SoundOf data enter d) (i : Nat) :
    Gives (fun ns => ns.length = ds.length ∧ ∀ n ∈ ns, n.Written) (nodesOf data enter i ds) := by
  induction ds generalizing i with
  | nil => exact .value ⟨rfl, fun n hn => absurd hn List.not_mem_nil⟩
  | cons d ds ih =>
    have hrest := ih (fun c hc => h c (List.mem_cons_of_mem d hc)) (i + 1)
    refine .both (h d List.mem_cons_self).node.under hrest fun n ns hn hns => ⟨congrArg (· + 1) hns.1, ?_⟩
    exact List.forall_mem_cons.2 ⟨hn, hns.2⟩

theorem gives_namedOf (h : ∀ d ∈ entries.map (·.2), SoundOf data enter d) :
    Gives (fun shape => ∀ e ∈ shape, e.2.Written) (namedOf data enter entries) := by
  induction entries with
  | nil => exact .value fun e he => absurd he List.not_mem_nil
  | cons e entries ih =>
    have hfirst : Gives (fun named : Text × Node => named.2.Written) (Checked.both Prod.mk
        (Checked.under [.name "[key]"] e.1.text) (ofDatum data enter e.2)) :=
      (Datum.gives_text e.1).under.both (h e.2 List.mem_cons_self).node fun _ _ _ hn => hn
    refine .both hfirst.under (ih fun d hd => h d (List.mem_cons_of_mem _ hd)) fun named shape hn hshape => ?_
    exact List.forall_mem_cons.2 ⟨hn, hshape⟩

/-- the nodes that stay under their names are among those checked -/
theorem mem_settled {shape : List (Text × Node)} {e : Text × Node} (h : e ∈ settled entries shape) : e ∈ shape := by
  unfold settled at h
  split_ifs at h
  · exact (Entries.mem_merge h).resolve_left List.not_mem_nil
  · exact h

theorem gives_shapeOf (h : ∀ d ∈ entries.map (·.2), SoundOf data enter d) :
    Gives (fun shape => ∀ e ∈ shape, e.2.Written) (shapeOf data enter (.map entries)) :=
  (gives_namedOf h).map fun _ hshape e he => hshape e (mem_settled he)

/-- items checked as a list that must not be empty if so wanted -/
theorem gives_items {ds : List Datum} (h : ∀ d ∈ ds, SoundOf data enter d) (nonEmpty : Bool) :
    Gives (fun ns => (nonEmpty = true → ns ≠ []) ∧ ∀ n ∈ ns, n.Written)
      (Checked.nonEmpty (nonEmpty && ds.isEmpty) (nodesOf data enter 0 ds)) := by
  refine .nonEmpty fun hsome => (gives_nodesOf h 0).mono ?_
  rintro ns ⟨hlength, hns⟩
  refine ⟨?_, hns⟩
  rintro rfl rfl
  rw [List.isEmpty_iff_length_eq_zero.2 hlength.symm] at hsome
  cases hsome

theorem gives_map (h : ∀ d ∈ entries.map (·.2), SoundOf data enter d) :
    Gives Written (ofDatum data enter (.map entries)) := by
  have hnode : ∀ name, Gives Written (Checked.present name (nodeAt data enter name entries)) := by
    intro name
    rw [nodeAt_eq]
    exact gives_present fun d hd => (h d hd).node
  have hlist : ∀ name, Gives (fun ns => ns ≠ [] ∧ ∀ n ∈ ns, n.Written)
      (Checked.present name (nodesAt data enter true name entries)) := by
    intro name
    rw [nodesAt_eq]
    exact gives_present fun d hd => ((h d hd).list true).mono fun ns hns => ⟨hns.1 rfl, hns.2⟩
  have hitems : ∀ name, Gives (fun ns => ∀ n ∈ ns, n.Written)
      (Checked.orElse name [] (nodesAt data enter false name entries)) := by
    intro name
    rw [nodesAt_eq]
    exact gives_orElse (fun n hn => absurd hn List.not_mem_nil) fun d hd => ((h d hd).list false).mono fun ns => And.right
  have hshape : ∀ name, Gives (fun shape => ∀ e ∈ shape, e.2.Written)
      (Checked.orElse name [] (shapeAt data enter name entries)) := by
    intro name
    rw [shapeAt_eq]
    exact gives_orElse (fun e he => absurd he List.not_mem_nil) fun d hd => (h d hd).shape
  rw [ofDatum]
  cases hkind : kindOf data entries with
  | error found =>
    have hfound : Gives (fun _ => True) (kindOf data entries) := gives_kindOf
    rw [hkind] at hfound
    cases hfound with
    | issues hsome hall => exact .issues hsome hall
  | ok kind =>
    cases kind with
    | primitive p => exact gives_assemble (P := fun _ => True) (.value trivial) fun notes _ _ => written_leaf notes p
    | literal =>
      refine gives_assemble (gives_present fun d _ => Datum.gives_value d) fun notes value _ => ?_
      exact written_own rfl (.literal rfl)
    | enum =>
      refine gives_assemble (gives_present fun d _ => gives_valuesOf d) fun notes values hvalues => ?_
      exact written_own rfl (.enum rfl hvalues.1 hvalues.2)
    | object =>
      refine gives_assemble (hshape "shape") fun notes shape hshape => ?_
      exact written_own rfl (.object (.given (writes_toFields hshape)))
    | record =>
      refine gives_assemble (hnode "values") fun notes values hvalues => ?_
      exact written_own rfl (.record rfl hvalues)
    | array =>
      refine gives_assemble (hnode "items") fun notes items hitems => ?_
      exact written_own rfl (.array rfl hitems)
    | tuple =>
      refine gives_assemble (hitems "items") fun notes items hitems => ?_
      exact written_own rfl (.tuple (.given (writes_toItems hitems)))
    | intersection => exact gives_assemble (hlist "of") fun notes members h => (written_list h.1 h.2).1
    | union => exact gives_assemble (hlist "of") fun notes members h => (written_list h.1 h.2).2
    | recursive =>
      refine gives_assemble (gives_present fun d _ => Datum.gives_id d) fun notes id hid => ?_
      exact written_own rfl (.ref rfl hid)

/-- **The dump of what is checked writes it**, whatever the data, if that holds of collections kept apart. -/
theorem sound_of_datum (henter : enter.Sound) (d : Datum) : SoundOf data enter d := by
  induction d using Datum.induction with
  | step d ih =>
    cases d with
    | shared n => exact henter n
    | pair a b =>
      refine ⟨.fail rfl, fun nonEmpty => ?_, .fail rfl⟩
      refine .both (ih a List.mem_cons_self).node.under (ih b (by simp [Datum.children])).node.under fun a b ha hb => ?_
      exact ⟨fun _ => List.cons_ne_nil _ _, by simp [ha, hb]⟩
    | list ds => exact ⟨.fail rfl, gives_items ih, .fail rfl⟩
    | set ds => exact ⟨.fail rfl, gives_items ih, .fail rfl⟩
    | map entries => exact ⟨gives_map ih, fun _ => .fail rfl, gives_shapeOf ih⟩
    | null | bool | int | float | str | octets | date | moment => exact ⟨.fail rfl, fun _ => .fail rfl, .fail rfl⟩

theorem gives_again (d : Datum) : Gives Written (again data d) := by
  cases d with
  | map entries => exact gives_kindOf.bind fun kind _ => (Gives.fail rfl).under
  | _ => exact .fail rfl

/-- **However deep collections are entered**, the dump of what is checked writes it. -/
theorem sound_entrance (depth : Nat) (around : List Nat) : (entrance data depth around).Sound := by
  induction depth generalizing around with
  | zero => exact fun n => ⟨.fail rfl, fun _ => .fail rfl, .fail rfl⟩
  | succ depth ih =>
    intro n
    refine ⟨?_, (sound_of_datum (ih around) _).list, (sound_of_datum (ih around) _).shape⟩
    dsimp only [entrance]
    split_ifs
    · exact gives_again _
    · exact (sound_of_datum (ih (n :: around)) _).node

end Node

namespace Document

open Checked (Gives)

variable {data : Data} {doc : Document}

/-! ## Documents -/

/-- the dump of a document writes it -/
def Written (doc : Document) : Prop := Writes Text.IsId doc.toJson doc

theorem written {codec : Node} {definitions : List (Text × Node)} (hcodec : codec.Written)
    (hdefinitions : ∀ e ∈ definitions, e.2.Written) : Written ⟨codec, definitions⟩ :=
  .document (fun _ hname => hname) rfl hcodec (.given (Node.writes_toFields hdefinitions))

/-- **The parts of a document are checked to a document that its dump writes**, or there are issues of structure. -/
theorem shapeOfData_gives (data : Data) : Gives Written (shapeOfData data) := by
  let enter := Node.entrance data (depth data) []
  have hsound : ∀ d, Node.SoundOf data enter d := Node.sound_of_datum (Node.sound_entrance (depth data) [])
  unfold shapeOfData
  cases data.opened data.root with
  | map entries =>
    have hcodec : Gives Node.Written
        (Checked.present "codec" ((Datum.field? entries "codec").map (Node.ofDatum data enter))) :=
      Node.gives_present fun d _ => (hsound d).node
    have hdefinitions : Gives (fun definitions => ∀ e ∈ definitions, e.2.Written) (Checked.orElse "definitions" []
        ((Datum.field? entries "definitions").map (Node.shapeOf data enter))) :=
      Node.gives_orElse (fun e he => absurd he List.not_mem_nil) fun d _ => (hsound d).shape
    exact ((hcodec.both hdefinitions fun _ _ => written).also Node.gives_onlyKnown).named
  | _ => exact .fail rfl

/-- **The dump of an accepted document is accepted as that document**, from whatever data it was read. -/
theorem ofJson_toJson (accepted : ofData data = .ok doc) : ofJson doc.toJson = .ok doc := by
  obtain ⟨hshape, hclosed⟩ := ofData_eq_ok_iff.1 accepted
  have hwritten := shapeOfData_gives data
  rw [hshape] at hwritten
  exact (accepts_iff doc.toJson doc).2 ⟨hwritten.holds, hclosed⟩

end Document

end CodecCompiler
