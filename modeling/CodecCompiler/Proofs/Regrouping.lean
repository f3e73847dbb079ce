/-
The members of intersections may be grouped in any way, as long as none of them exposes alternatives: an intersection
among the members of another adds what its own members add.

- `Codec.Regrouped`: codecs that differ in how the members of intersections are grouped, anywhere in them;
  `Codec.Frame.plug` is one step of the way down to where they differ.
- `joined_joined`, `intersect_joined_between`: joining joined fragments with others is joining them all.
- `fragmentOf_plug`, `fragmentOf_flatten`: a codec compiles as before with a part that does, and so does an intersection
  with the members of an inner one in its place; so `fragmentOf_regrouped`.
- `fragmentAt_regrouped`: the same where bodies are regrouped too.
- `Codec.leaves`: what an intersection comes down to; `Codec.regrouped_of_leaves`: nothing else counts.
- `generate_regrouped`: regrouped systems compile to the same document, or fail alike.
-/
import CodecCompiler.Proofs.Meaning

namespace CodecCompiler

open Entries (names get?)
open Compile

/-! ## Grouping -/

namespace Codec

/-- a codec with a gap directly below it -/
inductive Frame where
  | object (m : Marks) (before : List (Text × Codec)) (name : Text) (after : List (Text × Codec))
  | record (m : Marks)
  | array (m : Marks)
  | tuple (m : Marks) (before after : List Codec)
  | intersection (m : Marks) (before after : List Codec)
  | union (m : Marks) (before after : List Codec)

/-- the codec with the gap filled -/
def Frame.plug : Frame → Codec → Codec
  | .object m before name after, c => .object m (before ++ (name, c) :: after)
  | .record m, c => .record m c
  | .array m, c => .array m c
  | .tuple m before after, c => .tuple m (before ++ c :: after)
  | .intersection m before after, c => .intersection m (before ++ c :: after)
  | .union m before after, c => .union m (before ++ c :: after)

/-- whenever the codec compiles, its fragment exposes no alternatives -/
def Single (ctx : Context) (c : Codec) : Prop :=
  ∀ depth p f p', Runs (fragmentAt ctx depth c) p f p' → Fragment.alternatives? f = none

/-- the codecs differ in how the members of intersections are grouped, where none of these members exposes
alternatives -/
inductive Regrouped (ctx : Context) : Codec → Codec → Prop
  | refl (c : Codec) : Regrouped ctx c c
  | symm {c d : Codec} : Regrouped ctx c d → Regrouped ctx d c
  | trans {c d e : Codec} : Regrouped ctx c d → Regrouped ctx d e → Regrouped ctx c e
  | inside (frame : Frame) {c d : Codec} : Regrouped ctx c d → Regrouped ctx (frame.plug c) (frame.plug d)
  | flatten (m inner : Marks) {xs ys zs : List Codec} : (∀ c ∈ xs ++ ys ++ zs, c.Single ctx) →
      Regrouped ctx (.intersection m (xs ++ .intersection inner ys :: zs)) (.intersection m (xs ++ ys ++ zs))

variable {ctx : Context} {c d : Codec}

/-- regrouping leaves the marks of a codec as they are -/
theorem Regrouped.marks_eq (h : Regrouped ctx c d) : c.marks = d.marks := by
  induction h with
  | refl c => rfl
  | symm _ ih => exact ih.symm
  | trans _ _ ih ih' => exact ih.trans ih'
  | inside frame _ _ => cases frame <;> rfl
  | flatten m inner _ => rfl

/-- regrouping leaves the ids of a codec in their order -/
theorem Regrouped.ids_eq (h : Regrouped ctx c d) : c.ids = d.ids := by
  induction h with
  | refl c => rfl
  | symm _ ih => exact ih.symm
  | trans _ _ ih ih' => exact ih.trans ih'
  | inside frame _ ih => cases frame <;> simp [Frame.plug, ids, idsList_eq, idsEntries_eq, ih]
  | flatten m inner _ => simp [ids, idsList_eq]

end Codec

/-! ## Merging -/

namespace Fragment

variable {allow : Bool}

/-- joining joined fragments with others is joining them all -/
theorem joined_joined (before fs after : List Fields) (d : Option Text) :
    joined allow (before ++ noted d (joined allow fs) :: after) = joined allow (before ++ fs ++ after) := by
  have hproperties : Entries.mergeAll ((before ++ noted d (joined allow fs) :: after).map propertiesOf) =
      Entries.mergeAll ((before ++ fs ++ after).map propertiesOf) := by
    calc Entries.mergeAll ((before ++ noted d (joined allow fs) :: after).map propertiesOf)
        = (after.map propertiesOf).foldl Entries.merge
            (Entries.merge (Entries.mergeAll (before.map propertiesOf)) (Entries.mergeAll (fs.map propertiesOf))) := by
          simp only [List.map_append, List.map_cons, propertiesOf_noted, propertiesOf_joined, Entries.mergeAll,
            List.foldl_append, List.foldl_cons]
      _ = (after.map propertiesOf).foldl Entries.merge (Entries.mergeAll ((before ++ fs).map propertiesOf)) := by
          rw [← Entries.mergeAll_append, List.map_append]
      _ = Entries.mergeAll ((before ++ fs ++ after).map propertiesOf) := by
          rw [Entries.mergeAll, ← List.foldl_append, ← List.map_append]
          rfl
  have hrequired : (before ++ noted d (joined allow fs) :: after).flatMap requiredOf =
      (before ++ fs ++ after).flatMap requiredOf := by
    simp [List.flatMap_append, requiredOf_joined]
  exact congrArg₂ (fun properties required => object properties allow required) hproperties hrequired

/-- a merge can read the fragment, and it exposes no alternatives -/
def Alone (f : Fields) : Prop := Mergeable f ∧ alternatives? f = none

theorem alone_joined (fs : List Fields) (d : Option Text) : Alone (noted d (joined allow fs)) := by
  refine ⟨.noted d ⟨rfl, rfl⟩, ?_⟩
  rw [alternatives?_noted]
  rfl

theorem intersect_alone {fs : List Fields} (h : ∀ f ∈ fs, Alone f) : intersect fs allow = .ok (joined allow fs) :=
  intersect_joined (fun f hf => (h f hf).1) fun f hf => (h f hf).2

/-- **What some fragments merge into** adds to others what these fragments add. -/
theorem intersect_joined_between {before fs after : List Fields} (hbefore : ∀ f ∈ before, Alone f)
    (hfs : ∀ f ∈ fs, Alone f) (hafter : ∀ f ∈ after, Alone f) (d : Option Text) :
    intersect (before ++ noted d (joined allow fs) :: after) allow = intersect (before ++ fs ++ after) allow := by
  have hleft : ∀ f ∈ before ++ noted d (joined allow fs) :: after, Alone f :=
    List.forall_mem_append.2 ⟨hbefore, List.forall_mem_cons.2 ⟨alone_joined fs d, hafter⟩⟩
  have hright : ∀ f ∈ before ++ fs ++ after, Alone f :=
    List.forall_mem_append.2 ⟨List.forall_mem_append.2 ⟨hbefore, hfs⟩, hafter⟩
  rw [intersect_alone hleft, intersect_alone hright, joined_joined]

end Fragment

/-! ## Compiling -/

section

variable {ctx ctx' : Context} {enter enter' : Codec → Compile Fields}

theorem fragmentsOf_append (cs ds : List Codec) :
    fragmentsOf ctx enter (cs ++ ds) = do
      let fs ← fragmentsOf ctx enter cs
      let gs ← fragmentsOf ctx enter ds
      return fs ++ gs := by
  induction cs with
  | nil => simp [fragmentsOf]
  | cons c cs ih => simp [fragmentsOf, ih]

/-- what the first handler of a kind does with a codec depends on its tag, its description and its kind's rule -/
theorem handled_congr (hb : ctx.registry = Registry.builtin) (hb' : ctx'.registry = Registry.builtin) {c d : Codec}
    (htag : c.tag = d.tag) (hdescription : c.description = d.description) {step step' : Compile Fields}
    (h : step = step') : handled ctx enter c step = handled ctx' enter' d step' := by
  unfold handled
  rw [hb, hb', htag, hdescription, h, find?_builtin]
  cases d.tag.kind? <;> rfl

theorem fragmentsOfShape_congr {shape shape' : List (Text × Codec)}
    (h : List.Forall₂ (fun e e' => e.1 = e'.1 ∧ fragmentOf ctx enter e.2 = fragmentOf ctx' enter' e'.2) shape shape') :
    fragmentsOfShape ctx enter shape = fragmentsOfShape ctx' enter' shape' := by
  induction h with
  | nil => rfl
  | @cons e e' _ _ hfirst _ ih =>
    obtain ⟨name, c⟩ := e
    obtain ⟨name', c'⟩ := e'
    obtain ⟨rfl, hfirst⟩ : name = name' ∧ _ := hfirst
    simp only [fragmentsOfShape, ih]
    rw [hfirst]

theorem forall₂_around {α : Type} (R : α → α → Prop) (hrefl : ∀ a, R a a) (before after : List α) {a b : α}
    (h : R a b) : List.Forall₂ R (before ++ a :: after) (before ++ b :: after) :=
  List.rel_append (List.forall₂_same.2 fun a _ => hrefl a) (.cons h (List.forall₂_same.2 fun a _ => hrefl a))

/-- **What fills the gap of a codec** counts as it compiles. -/
theorem fragmentOf_plug (hb : ctx.registry = Registry.builtin) (frame : Codec.Frame) {c d : Codec}
    (hmarks : c.marks = d.marks) (h : fragmentOf ctx enter c = fragmentOf ctx enter d) :
    fragmentOf ctx enter (frame.plug c) = fragmentOf ctx enter (frame.plug d) := by
  have hlist : ∀ before after : List Codec,
      fragmentsOf ctx enter (before ++ c :: after) = fragmentsOf ctx enter (before ++ d :: after) :=
    fun before after => fragmentsOf_congr
      (forall₂_around (fun c d => fragmentOf ctx enter c = fragmentOf ctx enter d) (fun _ => rfl) before after h)
  have htag : (frame.plug c).tag = (frame.plug d).tag := by cases frame <;> rfl
  have hdescription : (frame.plug c).description = (frame.plug d).description := by cases frame <;> rfl
  rw [fragmentOf_eq, fragmentOf_eq]
  refine handled_congr hb hb htag hdescription ?_
  cases frame with
  | object m before name after =>
    have hrequired : requiredNames (before ++ (name, c) :: after) = requiredNames (before ++ (name, d) :: after) := by
      simp only [requiredNames, List.filter_append, List.filter_cons, Codec.required, hmarks, Entries.names_append]
      split <;> rfl
    have hshape : fragmentsOfShape ctx enter (before ++ (name, c) :: after) =
        fragmentsOfShape ctx enter (before ++ (name, d) :: after) :=
      fragmentsOfShape_congr (forall₂_around
        (fun e e' : Text × Codec => e.1 = e'.1 ∧ fragmentOf ctx enter e.2 = fragmentOf ctx enter e'.2)
        (fun _ => ⟨rfl, rfl⟩) before after ⟨rfl, h⟩)
    simp only [Codec.Frame.plug, prescribed, hrequired, hshape]
  | record m | array m => simp only [Codec.Frame.plug, prescribed, h]
  | tuple m before after | intersection m before after | union m before after =>
    simp only [Codec.Frame.plug, prescribed, hlist]

/-- the members of an intersection are compiled, and their fragments merged -/
theorem fragmentOf_intersection (hb : ctx.registry = Registry.builtin) (m : Marks) (members : List Codec) :
    fragmentOf ctx enter (.intersection m members) = do
      let fs ← fragmentsOf ctx enter members
      let f ← ofMerge (Fragment.intersect fs ctx.allowAdditional)
      return described m.description f := by
  rw [fragmentOf_eq]
  unfold handled
  rw [hb, find?_builtin, show (Codec.intersection m members).tag.kind? = _ from Tag.kind?_kind .intersection]
  simp [act, prescribed]
  rfl

end

section

variable {ctx : Context} {depth : Nat} {p p' : Progress}

theorem alone_fragments (hb : ctx.registry = Registry.builtin) {cs : List Codec} (h : ∀ c ∈ cs, c.Single ctx)
    {fs : List Fields} (hfs : Runs (fragmentsOf ctx (fragmentAt ctx depth) cs) p fs p') :
    ∀ f ∈ fs, Fragment.Alone f := by
  intro f hf
  obtain ⟨c, hc, q, q', hrun⟩ := forall₂_mem_right (forall₂_fragmentsOf hfs) f hf
  have hrun : Runs (fragmentAt ctx (depth + 1) c) q f q' := hrun
  exact ⟨(Codec.translate_shaped (fragmentAt_sound hb hrun).fragment).mergeable, h c hc (depth + 1) q f q' hrun⟩

/-- **An intersection among the members of another** adds what its own members add. -/
theorem fragmentOf_flatten (hb : ctx.registry = Registry.builtin) (m inner : Marks) {xs ys zs : List Codec}
    (h : ∀ c ∈ xs ++ ys ++ zs, c.Single ctx) :
    fragmentOf ctx (fragmentAt ctx depth) (.intersection m (xs ++ .intersection inner ys :: zs)) =
      fragmentOf ctx (fragmentAt ctx depth) (.intersection m (xs ++ ys ++ zs)) := by
  refine Compile.ext fun p => ?_
  rw [fragmentOf_intersection hb, fragmentOf_intersection hb]
  simp only [fragmentsOf_append, fragmentsOf, fragmentOf_intersection hb, bind_assoc, pure_bind]
  -- both compile the members of the three lists in this order; the inner merge stands between the last two
  refine runFrom_bind_congr fun fs p₁ hfs => runFrom_bind_congr fun gs p₂ hgs => ?_
  have hx := alone_fragments hb (fun c hc => h c (by simp [hc])) hfs
  have hy := alone_fragments hb (fun c hc => h c (by simp [hc])) hgs
  simp only [Fragment.intersect_alone hy, ofMerge, pure_bind]
  refine runFrom_bind_congr fun hs p₃ hhs => ?_
  have hz := alone_fragments hb (fun c hc => h c (by simp [hc])) hhs
  rw [described_eq (undescribed_joined _ _), Fragment.intersect_joined_between hx hy hz]

/-- **Regrouping** leaves what a codec compiles to as it is. -/
theorem fragmentOf_regrouped (hb : ctx.registry = Registry.builtin) {c d : Codec} (h : c.Regrouped ctx d) :
    fragmentOf ctx (fragmentAt ctx depth) c = fragmentOf ctx (fragmentAt ctx depth) d := by
  induction h with
  | refl c => rfl
  | symm _ ih => exact ih.symm
  | trans _ _ ih ih' => exact ih.trans ih'
  | inside frame h ih => exact fragmentOf_plug hb frame h.marks_eq ih
  | flatten m inner hsingle => exact fragmentOf_flatten hb m inner hsingle

end

/-! ## Bodies -/

/-- bodies of the same names in the same order, of which each is regrouped -/
def Bodies.Regrouped (ctx : Context) (bodies bodies' : Bodies) : Prop :=
  List.Forall₂ (fun e e' => e.1 = e'.1 ∧ e.2.Regrouped ctx e'.2) bodies bodies'

theorem Bodies.Regrouped.get? {ctx : Context} {bodies bodies' : Bodies} (h : bodies.Regrouped ctx bodies')
    (name : Text) : Option.Rel (Codec.Regrouped ctx) (Entries.get? bodies name) (Entries.get? bodies' name) := by
  induction h with
  | nil => exact .none
  | @cons e e' _ _ hfirst _ ih =>
    rw [Entries.get?_cons, Entries.get?_cons, ← hfirst.1]
    split_ifs
    · exact .some hfirst.2
    · exact ih

section

variable {ctx ctx' : Context} {enter enter' : Codec → Compile Fields}

/-- a codec compiles alike in contexts that differ in their bodies, where references do -/
theorem fragmentOf_congr (hb : ctx.registry = Registry.builtin) (hb' : ctx'.registry = Registry.builtin)
    (hallow : ctx.allowAdditional = ctx'.allowAdditional)
    (hdefinition : ∀ id body, definition ctx enter id body = definition ctx' enter' id body) (c : Codec) :
    fragmentOf ctx enter c = fragmentOf ctx' enter' c := by
  induction c using Codec.induction with
  | step c ih =>
    have hlist : ∀ cs : List Codec, (∀ d ∈ cs, d ∈ c.children) →
        fragmentsOf ctx enter cs = fragmentsOf ctx' enter' cs :=
      fun cs hcs => fragmentsOf_congr (List.forall₂_same.2 fun d hd => ih d (hcs d hd))
    rw [fragmentOf_eq, fragmentOf_eq]
    refine handled_congr hb hb' rfl rfl ?_
    cases c with
    | plain | literal | enum => rfl
    | object m shape =>
      have hshape : fragmentsOfShape ctx enter shape = fragmentsOfShape ctx' enter' shape :=
        fragmentsOfShape_congr (List.forall₂_same.2 fun e he => ⟨rfl, ih e.2 (List.mem_map_of_mem he)⟩)
      simp only [prescribed, hshape, hallow]
    | record m c | array m c => simp only [prescribed, ih c List.mem_cons_self]
    | tuple m cs | union m cs | intersection m cs => simp only [prescribed, hlist cs fun _ hd => hd, hallow]
    | recursive m id body => exact hdefinition id body

theorem definition_congr (h : ∀ c d, c.Regrouped ctx d → enter c = enter' d)
    (hbodies : ctx.bodies.Regrouped ctx ctx'.bodies) (id body : Text) :
    definition ctx enter id body = definition ctx' enter' id body := by
  refine Compile.ext fun p => ?_
  rw [runFrom_definition, runFrom_definition]
  by_cases hid : id ∈ names p.definitions
  · rw [if_pos hid, if_pos hid]
  · rw [if_neg hid, if_neg hid]
    have hbody := hbodies.get? body
    generalize Entries.get? ctx.bodies body = found at hbody ⊢
    generalize Entries.get? ctx'.bodies body = found' at hbody ⊢
    cases hbody with
    | none => rfl
    | some hcd => simp only [h _ _ hcd]

/-- **Regrouping, in the bodies too,** leaves what a codec compiles to as it is. -/
theorem fragmentAt_regrouped (hb : ctx.registry = Registry.builtin) (hb' : ctx'.registry = Registry.builtin)
    (hallow : ctx.allowAdditional = ctx'.allowAdditional) (hbodies : ctx.bodies.Regrouped ctx ctx'.bodies) (depth : Nat)
    {c d : Codec} (h : c.Regrouped ctx d) : fragmentAt ctx depth c = fragmentAt ctx' depth d := by
  induction depth generalizing c d with
  | zero => rfl
  | succ depth ih =>
    have hdefinition := definition_congr (fun c d hcd => ih hcd) hbodies
    exact (fragmentOf_regrouped hb h).trans (fragmentOf_congr hb hb' hallow hdefinition d)

end

/-! ## Leaves -/

namespace Codec

mutual

/-- what an intersection comes down to: its members, with the leaves of intersections among them in their place -/
def leaves : Codec → List Codec
  | .intersection _ members => leavesOf members
  | c => [c]

def leavesOf : List Codec → List Codec
  | [] => []
  | c :: cs => leaves c ++ leavesOf cs

end

theorem leavesOf_eq (cs : List Codec) : leavesOf cs = cs.flatMap leaves := by
  induction cs with
  | nil => rfl
  | cons c cs ih => rw [leavesOf, ih, List.flatMap_cons]

/-- does the codec merge or list the fragments of others -/
def isJunction : Codec → Bool
  | .intersection _ _ | .union _ _ => true
  | _ => false

variable {ctx : Context}

/-- only unions and intersections expose alternatives -/
theorem single_of_isJunction (hb : ctx.registry = Registry.builtin) {c : Codec} (h : c.isJunction = false) :
    c.Single ctx := by
  intro depth p f p' hrun
  obtain ⟨g, hg, rfl⟩ := translate_eq_ok.1 (fragmentAt_sound hb hrun).fragment
  rw [Fragment.alternatives?_noted]
  cases c with
  | intersection | union => cases h
  | plain m tag =>
    rcases bareTranslation_form hg with rfl | ⟨p, rfl⟩
    · rfl
    · rfl
  | literal | enum | recursive =>
    cases pure_eq_ok_iff.1 hg
    rfl
  | object | record | array | tuple =>
    obtain ⟨below, -, hg⟩ := bind_eq_ok_iff.1 hg
    cases pure_eq_ok_iff.1 hg
    rfl

/-- an intersection exposes none where its members do not -/
theorem single_intersection (hb : ctx.registry = Registry.builtin) (m : Marks) {cs : List Codec}
    (h : ∀ c ∈ cs, c.Single ctx) : (Codec.intersection m cs).Single ctx := by
  intro depth p f p' hrun
  cases depth with
  | zero => exact absurd hrun not_runs_throw
  | succ depth =>
    rw [fragmentAt, fragmentOf_intersection hb] at hrun
    obtain ⟨fs, q, hfs, hrun⟩ := runs_bind.1 hrun
    obtain ⟨g, q', hg, hrun⟩ := runs_bind.1 hrun
    obtain ⟨rfl, -⟩ := runs_pure.1 hrun
    obtain ⟨hmerge, -⟩ := runs_ofMerge.1 hg
    cases (Fragment.intersect_alone (alone_fragments hb h hfs)).symm.trans hmerge
    rw [described_eq (undescribed_joined _ _)]
    exact (Fragment.alone_joined fs _).2

theorem single_of_leaves (hb : ctx.registry = Registry.builtin) {c : Codec} (h : ∀ d ∈ c.leaves, d.Single ctx) :
    c.Single ctx := by
  induction c using induction with
  | step c ih =>
    cases c with
    | intersection m cs =>
      rw [leaves, leavesOf_eq] at h
      exact single_intersection hb m fun c hc => ih c hc fun d hd => h d (List.mem_flatMap.2 ⟨c, hc, hd⟩)
    | _ => exact h _ (by simp [leaves])

/-- a member of an intersection is regrouped into its leaves -/
theorem regrouped_member (m : Marks) {front rest : List Codec} {c : Codec}
    (hown : ∀ inner ys, c = .intersection inner ys → c.Regrouped ctx (.intersection inner (leavesOf ys)))
    (hsingle : ∀ d ∈ front ++ c.leaves ++ rest, d.Single ctx) :
    (Codec.intersection m (front ++ c :: rest)).Regrouped ctx (.intersection m (front ++ c.leaves ++ rest)) := by
  cases c with
  | intersection inner ys =>
    rw [leaves] at hsingle ⊢
    exact .trans (.inside (.intersection m front rest) (hown inner ys rfl)) (.flatten m inner hsingle)
  | _ =>
    simp only [leaves, List.append_assoc, List.singleton_append]
    exact .refl _

/-- **An intersection is regrouped into its leaves.** -/
theorem regrouped_leaves (hb : ctx.registry = Registry.builtin) {c : Codec} (h : ∀ d ∈ c.leaves, d.Single ctx) :
    ∀ m cs, c = .intersection m cs → c.Regrouped ctx (.intersection m (leavesOf cs)) := by
  induction c using induction with
  | step c ih =>
    rintro m cs rfl
    rw [leaves, leavesOf_eq] at h
    have hleaves : ∀ c ∈ cs, ∀ d ∈ c.leaves, d.Single ctx := fun c hc d hd => h d (List.mem_flatMap.2 ⟨c, hc, hd⟩)
    -- one member after the other; those in front have been regrouped
    have hfront : ∀ front rest : List Codec, (∀ c ∈ front, c.Single ctx) → (∀ c ∈ rest, c ∈ cs) →
        (Codec.intersection m (front ++ rest)).Regrouped ctx (.intersection m (front ++ leavesOf rest)) := by
      intro front rest hsingle hrest
      induction rest generalizing front with
      | nil => exact .refl _
      | cons c rest ihrest =>
        have hc : c ∈ cs := hrest c List.mem_cons_self
        have hbehind : ∀ d ∈ rest, d ∈ cs := fun d hd => hrest d (List.mem_cons_of_mem c hd)
        have hfirst : ∀ d ∈ front ++ c.leaves, d.Single ctx := List.forall_mem_append.2 ⟨hsingle, hleaves c hc⟩
        have hall : ∀ d ∈ front ++ c.leaves ++ rest, d.Single ctx :=
          List.forall_mem_append.2 ⟨hfirst, fun d hd => single_of_leaves hb (hleaves d (hbehind d hd))⟩
        rw [leavesOf, ← List.append_assoc]
        exact (regrouped_member m (ih c hc (hleaves c hc)) hall).trans (ihrest _ hfirst hbehind)
    exact hfront [] cs (by simp) fun _ hc => hc

/-- intersections with the same leaves are regrouped into each other -/
theorem regrouped_of_leaves (hb : ctx.registry = Registry.builtin) (m : Marks) {cs ds : List Codec}
    (h : ∀ c ∈ leavesOf cs, c.Single ctx) (hsame : leavesOf cs = leavesOf ds) :
    (Codec.intersection m cs).Regrouped ctx (.intersection m ds) := by
  have hcs := regrouped_leaves hb (by rwa [leaves]) m cs rfl
  have hds := regrouped_leaves hb (by rwa [leaves, ← hsame]) m ds rfl
  rw [hsame] at hcs
  exact hcs.trans hds.symm

end Codec

/-! ## Systems -/

/-- the systems differ in how the members of intersections are grouped, in the root and in the bodies -/
structure CodecSystem.Regrouped (ctx : Context) (system system' : CodecSystem) : Prop where
  root : system.root.Regrouped ctx system'.root
  bodies : system.bodies.Regrouped ctx system'.bodies

theorem Bodies.Regrouped.ids_eq {ctx : Context} {bodies bodies' : Bodies} (h : bodies.Regrouped ctx bodies') :
    Codec.idsEntries bodies = Codec.idsEntries bodies' := by
  induction h with
  | nil => rfl
  | cons hfirst _ ih => simp only [Codec.idsEntries, hfirst.2.ids_eq, ih]

/-- **The grouping of members never matters** without alternatives. Where intersections among the members of others are
replaced by their own members, or members are put together in intersections, in the root or in the bodies, a system
compiles to the same document by the same progress, or fails alike; and intersections are replaced so by all that have
the same leaves. -/
theorem generate_regrouped {options : Options} (hplain : options.handlers = []) (system : CodecSystem) :
    (∀ system', system.Regrouped (options.context system.bodies) system' →
      generate system options = generate system' options) ∧
    ∀ m cs ds, (∀ c ∈ Codec.leavesOf cs, c.Single (options.context system.bodies)) →
      Codec.leavesOf cs = Codec.leavesOf ds →
      (Codec.intersection m cs).Regrouped (options.context system.bodies) (.intersection m ds) := by
  have hb := Options.registry_context hplain system.bodies
  refine ⟨fun system' h => ?_, fun m cs ds hsingle hsame => Codec.regrouped_of_leaves hb m hsingle hsame⟩
  have hb' := Options.registry_context hplain system'.bodies
  have hdepth : (options.context system.bodies).depth system.root =
      (options.context system'.bodies).depth system'.root := by
    rw [Context.depth_builtin hb, Context.depth_builtin hb', h.root.ids_eq]
    exact congrArg (fun ids => (system'.root.ids ++ ids).length + 2) h.bodies.ids_eq
  unfold generate compile
  rw [fragmentAt_regrouped hb hb' rfl h.bodies _ h.root, hdepth]

/-! ### Named things -/

/-- names in groups -/
def grouped : CodecSystem where
  root := .array {} (.intersection {} [named, .intersection ⟨false, some "inner"⟩
    [.record {} named, .intersection {} [], .recursive {} "Id" "Id"], named])
  bodies := [("Id", .intersection {} [.intersection {} [named]])]

/-- the same names without groups -/
def ungrouped : CodecSystem where
  root := .array {} (.intersection {} [named, .record {} named, .recursive {} "Id" "Id", named])
  bodies := [("Id", .intersection {} [named])]

theorem grouped_generates_alike :
    grouped.Regrouped (({} : Options).context grouped.bodies) ungrouped ∧
    (∃ document progress, generate grouped {} = (.ok document, progress)) ∧
      generate grouped {} = generate ungrouped {} := by
  obtain ⟨halike, hgroups⟩ := generate_regrouped (show ({} : Options).handlers = [] from rfl) grouped
  have hsingle : ∀ cs, (∀ c ∈ Codec.leavesOf cs, c.isJunction = false) →
      ∀ c ∈ Codec.leavesOf cs, c.Single (({} : Options).context grouped.bodies) :=
    fun cs h c hc => Codec.single_of_isJunction rfl (h c hc)
  have hroot : grouped.root.Regrouped (({} : Options).context grouped.bodies) ungrouped.root :=
    .inside (.array {})
      (hgroups {} _ _ (hsingle _ (by simp [Codec.leavesOf, Codec.leaves, named, Codec.isJunction])) rfl)
  have hbody := hgroups {} [.intersection {} [named]] [named]
    (hsingle _ (by simp [Codec.leavesOf, Codec.leaves, named, Codec.isJunction])) rfl
  have hregrouped : grouped.Regrouped (({} : Options).context grouped.bodies) ungrouped :=
    ⟨hroot, .cons ⟨rfl, hbody⟩ .nil⟩
  exact ⟨hregrouped, ⟨_, _, rfl⟩, halike ungrouped hregrouped⟩

end CodecCompiler
