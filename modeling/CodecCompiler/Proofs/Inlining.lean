/-
Inlining: definitions in the place of the references to them.

- `Node.inlineWith` puts nodes in the place of references, and `Document.inlineAt` does so again in what it put there,
  down to a depth. A reference keeps its flag, and the node that takes its place keeps the description.
- `Node.refs_inlineWith`: what is referred to afterwards.
- `Document.Acyclic`: no definition that the codec leads to leads back to itself.
- `Document.refs_inlineAt`: then no reference is left at a depth of as many definitions as there are, and
  `Document.inlineAt_eq`: from there on nothing changes.
-/
import CodecCompiler.Proofs.Compilation

namespace CodecCompiler

open Entries (names get?)

namespace Node

/-! ## Notes -/

/-- a copy with other notes -/
def withNotes (n : Node) (notes : Notes) : Node :=
  match n with
  | .leaf _ p => .leaf notes p
  | .literal _ value => .literal notes value
  | .enum _ values => .enum notes values
  | .object _ shape => .object notes shape
  | .record _ values => .record notes values
  | .array _ items => .array notes items
  | .tuple _ items => .tuple notes items
  | .intersection _ members => .intersection notes members
  | .union _ members => .union notes members
  | .ref _ id => .ref notes id

/-- a copy that is optional, or is not -/
def withOptional (n : Node) (optional : Bool) : Node := n.withNotes { n.notes with optional }

@[simp] theorem notes_withNotes (n : Node) (notes : Notes) : (n.withNotes notes).notes = notes := by
  cases n <;> rfl

@[simp] theorem refs_withOptional (n : Node) (optional : Bool) : (n.withOptional optional).refs = n.refs := by
  cases n <;> rfl

/-- an enclosing object decides what its fragment makes of the flag -/
@[simp] theorem fragment_withOptional (allow : Bool) (n : Node) (optional : Bool) :
    (n.withOptional optional).fragment allow = n.fragment allow := by
  cases n with
  | leaf notes p => cases p <;> rfl
  | _ => rfl

/-! ## Nodes in the place of references -/

mutual

/-- a node with nodes in the place of those of its references that `enter` knows -/
def inlineWith (enter : Text → Option Node) : Node → Node
  | .ref n id =>
    match enter id with
    | some definition => definition.withOptional n.optional
    | none => .ref n id
  | .leaf n p => .leaf n p
  | .literal n value => .literal n value
  | .enum n values => .enum n values
  | .object n shape => .object n (inlineShape enter shape)
  | .record n values => .record n (inlineWith enter values)
  | .array n items => .array n (inlineWith enter items)
  | .tuple n items => .tuple n (inlineList enter items)
  | .intersection n members => .intersection n (inlineList enter members)
  | .union n members => .union n (inlineList enter members)

def inlineList (enter : Text → Option Node) : List Node → List Node
  | [] => []
  | n :: ns => inlineWith enter n :: inlineList enter ns

def inlineShape (enter : Text → Option Node) : List (Text × Node) → List (Text × Node)
  | [] => []
  | (name, n) :: ns => (name, inlineWith enter n) :: inlineShape enter ns

end

section

variable {enter enter' : Text → Option Node}

theorem inlineList_eq (ns : List Node) : inlineList enter ns = ns.map (inlineWith enter) := by
  induction ns with
  | nil => rfl
  | cons n ns ih => rw [inlineList, ih, List.map_cons]

theorem inlineShape_eq (shape : List (Text × Node)) :
    inlineShape enter shape = Entries.mapValues (inlineWith enter) shape := by
  induction shape with
  | nil => rfl
  | cons e shape ih =>
    rw [inlineShape, ih]
    rfl

/-- whatever takes its place, a node stays as optional as it was -/
@[simp] theorem optional_inlineWith (n : Node) : (n.inlineWith enter).notes.optional = n.notes.optional := by
  cases n with
  | ref notes id =>
    rw [inlineWith]
    cases enter id with
    | none => rfl
    | some definition =>
      change (definition.withOptional notes.optional).notes.optional = notes.optional
      rw [withOptional, notes_withNotes]
  | _ => rfl

theorem children_inlineWith {n : Node} (hn : n.ownRefs = []) :
    (n.inlineWith enter).children = n.children.map (inlineWith enter) := by
  cases n with
  | ref notes id => exact nomatch hn
  | leaf | literal | enum => rfl
  | object notes shape => simp [inlineWith, children, inlineShape_eq, Entries.mapValues]
  | record notes n | array notes n => rfl
  | tuple notes ns | intersection notes ns | union notes ns => simp only [inlineWith, children, inlineList_eq]

theorem ownRefs_inlineWith {n : Node} (hn : n.ownRefs = []) : (n.inlineWith enter).ownRefs = [] := by
  cases n with
  | ref notes id => exact nomatch hn
  | _ => rfl

/-- **What is referred to afterwards** is what the nodes refer to that took the place of references. -/
theorem refs_inlineWith (n : Node) :
    (n.inlineWith enter).refs = n.refs.flatMap fun id => (enter id).elim [id] refs := by
  induction n using induction with
  | step n ih =>
    by_cases hn : n.ownRefs = []
    · rw [refs_eq, refs_eq n, children_inlineWith hn, ownRefs_inlineWith hn, hn, List.flatMap_map]
      simp only [List.nil_append, List.flatMap_assoc]
      exact List.flatMap_congr ih
    · cases n with
      | ref notes id =>
        rw [inlineWith]
        cases henter : enter id with
        | none => simp [refs, henter]
        | some definition => simp [refs, henter]
      | _ => exact absurd rfl hn

theorem inlineWith_congr {n : Node} (h : ∀ id ∈ n.refs, enter id = enter' id) :
    n.inlineWith enter = n.inlineWith enter' := by
  induction n using induction with
  | step n ih =>
    have hbelow : ∀ c ∈ n.children, c.inlineWith enter = c.inlineWith enter' := by
      intro c hc
      refine ih c hc fun id hid => h id ?_
      rw [refs_eq n]
      exact List.mem_append_right _ (List.mem_flatMap.2 ⟨c, hc, hid⟩)
    cases n with
    | leaf | literal | enum => rfl
    | object notes shape =>
      simp only [inlineWith, inlineShape_eq, Entries.mapValues]
      refine congrArg _ (List.map_congr_left fun e he => ?_)
      rw [hbelow e.2 (List.mem_map_of_mem he)]
    | record notes n | array notes n => simp only [inlineWith, hbelow n List.mem_cons_self]
    | tuple notes ns | intersection notes ns | union notes ns =>
      simp only [inlineWith, inlineList_eq]
      exact congrArg _ (List.map_congr_left hbelow)
    | ref notes id => simp only [inlineWith, h id List.mem_cons_self]

theorem inlineWith_none (n : Node) : n.inlineWith (fun _ => none) = n := by
  induction n using induction with
  | step n ih =>
    cases n with
    | leaf | literal | enum | ref => rfl
    | object notes shape =>
      simp only [inlineWith, inlineShape_eq, Entries.mapValues]
      refine congrArg _ ((List.map_congr_left fun e he => ?_).trans (List.map_id shape))
      rw [ih e.2 (List.mem_map_of_mem he)]
      rfl
    | record notes n | array notes n => simp only [inlineWith, ih n List.mem_cons_self]
    | tuple notes ns | intersection notes ns | union notes ns =>
      simp only [inlineWith, inlineList_eq]
      exact congrArg _ ((List.map_congr_left ih).trans (List.map_id ns))

end

end Node

namespace Document

/-! ## Definitions in the place of references -/

/-- a node with definitions in the place of references, down to a depth -/
def inlineAt (doc : Document) : (depth : Nat) → Node → Node
  | 0, n => n
  | depth + 1, n => n.inlineWith fun id => (get? doc.definitions id).map (inlineAt doc depth)

/-- a definition refers to another -/
def Leads (doc : Document) (id other : Text) : Prop := ∃ n, get? doc.definitions id = some n ∧ other ∈ n.refs

/-- the codec refers to a definition, by itself or through others -/
def Reached (doc : Document) (id : Text) : Prop :=
  ∃ first ∈ doc.codec.refs, Relation.ReflTransGen doc.Leads first id

/-- no definition that is reached leads back to itself -/
def Acyclic (doc : Document) : Prop := ∀ id, doc.Reached id → ¬ Relation.TransGen doc.Leads id id

variable {doc : Document} {id other : Text}

theorem Reached.step (h : doc.Reached id) (hleads : doc.Leads id other) : doc.Reached other := by
  obtain ⟨first, hfirst, hpath⟩ := h
  exact ⟨first, hfirst, hpath.tail hleads⟩

/-- a document is acyclic where references lead to lower ranks only, those at rank zero not being reached -/
theorem acyclic_of_rank (rank : Text → ℕ) (hcodec : ∀ id ∈ doc.codec.refs, 0 < rank id)
    (hdefinitions : ∀ e ∈ doc.definitions, 0 < rank e.1 → ∀ other ∈ e.2.refs, 0 < rank other ∧ rank other < rank e.1) :
    doc.Acyclic := by
  have hstep : ∀ id other, 0 < rank id → doc.Leads id other → 0 < rank other ∧ rank other < rank id := by
    rintro id other hid ⟨n, hn, hother⟩
    exact hdefinitions _ (Entries.mem_of_get? hn) hid other hother
  have hpath : ∀ id other, 0 < rank id → Relation.TransGen doc.Leads id other →
      0 < rank other ∧ rank other < rank id := by
    intro id other hid h
    induction h with
    | single h => exact hstep id _ hid h
    | tail _ h ih =>
      obtain ⟨hpos, hless⟩ := hstep _ _ ih.1 h
      exact ⟨hpos, hless.trans ih.2⟩
  rintro id ⟨first, hfirst, hreach⟩ hcycle
  have hid : 0 < rank id := by
    rcases Relation.reflTransGen_iff_eq_or_transGen.1 hreach with rfl | h
    · exact hcodec id hfirst
    · exact (hpath first id (hcodec first hfirst) h).1
  exact (hpath id id hid hcycle).2.false

open Classical in
/-- the definitions that a definition leads to -/
noncomputable def below (doc : Document) (id : Text) : Finset Text :=
  (names doc.definitions).toFinset.filter fun other => Relation.TransGen doc.Leads id other

theorem mem_below : other ∈ doc.below id ↔ other ∈ names doc.definitions ∧ Relation.TransGen doc.Leads id other := by
  simp [below]

theorem Leads.defined (closed : doc.Closed) (h : doc.Leads id other) : other ∈ names doc.definitions := by
  obtain ⟨n, hn, hother⟩ := h
  have hpart : n ∈ doc.parts := List.mem_cons_of_mem _ (List.mem_map.2 ⟨_, Entries.mem_of_get? hn, rfl⟩)
  exact closed other (refs_part hpart hother)

/-- each step away from the codec leaves fewer definitions below -/
theorem card_below_lt (closed : doc.Closed) (acyclic : doc.Acyclic) (hid : doc.Reached id) (h : doc.Leads id other) :
    (doc.below other).card < (doc.below id).card := by
  refine Finset.card_lt_card (Finset.ssubset_iff_of_subset ?_ |>.2 ⟨other, ?_, ?_⟩)
  · intro far hfar
    obtain ⟨hmem, hpath⟩ := mem_below.1 hfar
    exact mem_below.2 ⟨hmem, .head h hpath⟩
  · exact mem_below.2 ⟨h.defined closed, .single h⟩
  · exact fun hback => acyclic other (hid.step h) (mem_below.1 hback).2

theorem card_below_lt_length (acyclic : doc.Acyclic) (hid : doc.Reached id) (hmem : id ∈ names doc.definitions) :
    (doc.below id).card < doc.definitions.length := by
  have hsub : doc.below id ⊆ (names doc.definitions).toFinset.erase id := by
    intro far hfar
    obtain ⟨hfar, hpath⟩ := mem_below.1 hfar
    refine Finset.mem_erase.2 ⟨?_, List.mem_toFinset.2 hfar⟩
    rintro rfl
    exact acyclic far hid hpath
  calc (doc.below id).card
      ≤ ((names doc.definitions).toFinset.erase id).card := Finset.card_le_card hsub
    _ < (names doc.definitions).toFinset.card := Finset.card_erase_lt_of_mem (List.mem_toFinset.2 hmem)
    _ ≤ (names doc.definitions).length := List.toFinset_card_le _
    _ = doc.definitions.length := List.length_map _

theorem refs_inlineAt_of_below (closed : doc.Closed) (acyclic : doc.Acyclic) {depth : Nat} {n : Node}
    (h : ∀ id ∈ n.refs, doc.Reached id ∧ id ∈ names doc.definitions ∧ (doc.below id).card < depth) :
    (doc.inlineAt depth n).refs = [] := by
  induction depth generalizing n with
  | zero => exact List.eq_nil_iff_forall_not_mem.2 fun id hid => absurd (h id hid).2.2 (Nat.not_lt_zero _)
  | succ depth ih =>
    rw [inlineAt, Node.refs_inlineWith, List.flatMap_eq_nil_iff]
    intro id hid
    obtain ⟨hreached, hmem, hcard⟩ := h id hid
    obtain ⟨definition, hdefinition⟩ := Entries.exists_get? hmem
    rw [hdefinition, Option.map_some]
    refine ih fun other hother => ?_
    have hleads : doc.Leads id other := ⟨definition, hdefinition, hother⟩
    have hless := card_below_lt closed acyclic hreached hleads
    exact ⟨hreached.step hleads, hleads.defined closed, by omega⟩

/-- **Inlining ends**: in an acyclic document no reference of the codec is left at a depth of as many definitions as
there are. -/
theorem refs_inlineAt (closed : doc.Closed) (acyclic : doc.Acyclic) {depth : Nat}
    (hdepth : doc.definitions.length ≤ depth) : (doc.inlineAt depth doc.codec).refs = [] := by
  refine refs_inlineAt_of_below closed acyclic fun id hid => ?_
  have hmem : id ∈ names doc.definitions := closed id (refs_part List.mem_cons_self hid)
  have hreached : doc.Reached id := ⟨id, hid, .refl⟩
  exact ⟨hreached, hmem, (card_below_lt_length acyclic hreached hmem).trans_le hdepth⟩

/-- where no reference is left there is nothing to replace any deeper -/
theorem inlineAt_succ {depth : Nat} {n : Node} (h : (doc.inlineAt depth n).refs = []) :
    doc.inlineAt (depth + 1) n = doc.inlineAt depth n := by
  induction depth generalizing n with
  | zero =>
    have hrefs : n.refs = [] := h
    have hnone : doc.inlineAt 1 n = n.inlineWith fun _ => none := by
      refine Node.inlineWith_congr fun id hid => ?_
      rw [hrefs] at hid
      exact nomatch hid
    exact hnone.trans (Node.inlineWith_none n)
  | succ depth ih =>
    rw [inlineAt, Node.refs_inlineWith, List.flatMap_eq_nil_iff] at h
    rw [inlineAt, inlineAt]
    refine Node.inlineWith_congr fun id hid => ?_
    cases hdefinition : get? doc.definitions id with
    | none => rfl
    | some definition =>
      have hleft := h id hid
      rw [hdefinition, Option.map_some] at hleft
      rw [Option.map_some, Option.map_some, ih hleft]

theorem inlineAt_eq {depth deeper : Nat} {n : Node} (h : (doc.inlineAt depth n).refs = []) (hle : depth ≤ deeper) :
    doc.inlineAt deeper n = doc.inlineAt depth n := by
  induction deeper, hle using Nat.le_induction with
  | base => rfl
  | succ deeper _ ih =>
    rw [inlineAt_succ, ih]
    rwa [ih]

end Document

end CodecCompiler
