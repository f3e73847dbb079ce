/-
Relations that steps of the compiler keep, between the progress before a step and the progress after it.

- `Sequential` relations hold where nothing is done, and of two steps together when they hold of each. They may heed
  whether a step ends or fails.
- `Follows`: a step keeps such a relation; one lemma for each way in which steps are put together.
- `walkOf`: the walk through a codec, with anything in the place of the handlers. `walkOf_handled`: with the handlers of
  the context it is what the compiler does.
- `follows_walkOf`: the walk keeps what the handlers and the definitions of ids keep.
-/
import CodecCompiler.Proofs.Runs

namespace CodecCompiler

open Compile

/-! ## Relations -/

/-- a relation of the progress before a step and after it, that steps one after the other keep; the flag tells whether
the step ended -/
structure Sequential (R : Bool → Progress → Progress → Prop) : Prop where
  refl : ∀ ended p, R ended p p
  trans : ∀ {ended ended' p q r}, R ended p q → R ended' q r → R (ended && ended') p r

/-- a step keeps a relation, from whatever progress it starts -/
def Follows {α : Type} (R : Bool → Progress → Progress → Prop) (step : Compile α) : Prop :=
  ∀ p, R (step.runFrom p).1.isOk p (step.runFrom p).2

section

variable {R : Bool → Progress → Progress → Prop} {α β : Type}

theorem follows_pure (hR : Sequential R) (a : α) : Follows R (pure a) := fun p => hR.refl true p

theorem follows_throw (hR : Sequential R) (e : CompileError) : Follows R (throw e : Compile α) :=
  fun p => hR.refl false p

theorem follows_get (hR : Sequential R) : Follows R (get : Compile Progress) := fun p => hR.refl true p

theorem follows_bind (hR : Sequential R) {x : Compile α} {f : α → Compile β} (hx : Follows R x)
    (hf : ∀ a, Follows R (f a)) : Follows R (x >>= f) := by
  intro p
  have hfirst := hx p
  rw [runFrom_bind]
  rcases hrun : x.runFrom p with ⟨e | a, q⟩
  · rw [hrun] at hfirst
    exact hfirst
  · rw [hrun] at hfirst
    have hboth := hR.trans hfirst (hf a q)
    rwa [show (Except.ok a : Except CompileError α).isOk = true from rfl, Bool.true_and] at hboth

theorem follows_ofMerge (hR : Sequential R) (result : Except MergeError α) : Follows R (ofMerge result) := by
  cases result with
  | ok a => exact follows_pure hR a
  | error e => exact follows_throw hR (.merge e)

theorem follows_bareFragment (hR : Sequential R) (tag : Tag) : Follows R (bareFragment tag) := by
  unfold bareFragment
  split
  · exact follows_pure hR _
  · exact follows_pure hR _
  · exact follows_throw hR _

/-! ## Handlers -/

section

variable {ctx : Context} {enter : Codec → Compile Fields} {builtin : Compile Fields}

theorem follows_program (hR : Sequential R) (henter : ∀ c, Follows R (enter c)) (hbuiltin : Follows R builtin)
    (program : Program) : Follows R (program.run enter builtin) := by
  induction program with
  | give f => exact follows_pure hR f
  | fail e => exact follows_throw hR e
  | compile c next ih => exact follows_bind hR (henter c) ih
  | prescribed next ih => exact follows_bind hR hbuiltin ih

theorem follows_act (hR : Sequential R) (henter : ∀ c, Follows R (enter c)) (hbuiltin : Follows R builtin) (c : Codec)
    (action : Action) : Follows R (act ctx enter c builtin action) := by
  cases action with
  | builtin => exact hbuiltin
  | constant f => exact follows_pure hR f
  | reportCache => exact follows_bind hR (follows_get hR) fun _ => follows_pure hR _
  | reportContext => exact follows_pure hR _
  | delegate key other => exact follows_bind hR (henter other) fun _ => follows_pure hR _
  | replace other => exact henter other
  | extend extra => exact follows_bind hR hbuiltin fun _ => follows_pure hR _
  | custom script => exact follows_program hR henter hbuiltin _

theorem follows_handled (hR : Sequential R) (henter : ∀ c, Follows R (enter c)) (c : Codec)
    (hbuiltin : Follows R builtin) : Follows R (handled ctx enter c builtin) := by
  unfold handled
  split
  · exact follows_throw hR _
  · exact follows_bind hR (follows_act hR henter hbuiltin c _) fun _ => follows_pure hR _

end

end

/-! ## Walks -/

section

variable (ctx : Context) (enter : Codec → Compile Fields) (handle : Codec → Compile Fields → Compile Fields)

mutual

/-- compiles a codec, where `handle` is what handlers make of a codec and of what its kind prescribes -/
def walkOf : Codec → Compile Fields
  | .plain m tag => handle (.plain m tag) (bareFragment tag)
  | .literal m value => handle (.literal m value) (pure [("type", .str "string"), ("const", value)])
  | .enum m values => handle (.enum m values) (pure [("type", .str "string"), ("enum", .arr values)])
  | .object m shape =>
    handle (.object m shape) do
      let properties ← walksOfShape shape
      return objectFragment properties ctx.allowAdditional (requiredNames shape)
  | .record m values => handle (.record m values) do return recordFragment (← walkOf values)
  | .array m items => handle (.array m items) do return arrayFragment (← walkOf items)
  | .tuple m items => handle (.tuple m items) do return tupleFragment (← walksOf items)
  | .intersection m members =>
    handle (.intersection m members) do
      Compile.ofMerge (Fragment.intersect (← walksOf members) ctx.allowAdditional)
  | .union m members => handle (.union m members) do return [("anyOf", .arr ((← walksOf members).map .obj))]
  | .recursive m id body => handle (.recursive m id body) (definition ctx enter id body)

def walksOf : List Codec → Compile (List Fields)
  | [] => do return []
  | c :: cs => do
    let fragment ← walkOf c
    return fragment :: (← walksOf cs)

def walksOfShape : List (Text × Codec) → Compile (Entries Fields)
  | [] => do return []
  | (name, c) :: cs => do
    let fragment ← walkOf c
    return (name, fragment) :: (← walksOfShape cs)

end

end

section

variable {ctx : Context} {enter : Codec → Compile Fields}

mutual

/-- **The compiler's own walk** is the one with the handlers of its context. -/
theorem walkOf_handled (c : Codec) : walkOf ctx enter (handled ctx enter) c = fragmentOf ctx enter c := by
  cases c with
  | plain | literal | enum | recursive => rfl
  | object m shape => rw [walkOf, fragmentOf, walksOfShape_handled shape]
  | record m values => rw [walkOf, fragmentOf, walkOf_handled values]
  | array m items => rw [walkOf, fragmentOf, walkOf_handled items]
  | tuple m items => rw [walkOf, fragmentOf, walksOf_handled items]
  | intersection m members => rw [walkOf, fragmentOf, walksOf_handled members]
  | union m members => rw [walkOf, fragmentOf, walksOf_handled members]

theorem walksOf_handled (cs : List Codec) : walksOf ctx enter (handled ctx enter) cs = fragmentsOf ctx enter cs := by
  match cs with
  | [] => rfl
  | c :: cs => rw [walksOf, fragmentsOf, walkOf_handled c, walksOf_handled cs]

theorem walksOfShape_handled (shape : List (Text × Codec)) :
    walksOfShape ctx enter (handled ctx enter) shape = fragmentsOfShape ctx enter shape := by
  match shape with
  | [] => rfl
  | (name, c) :: shape => rw [walksOfShape, fragmentsOfShape, walkOf_handled c, walksOfShape_handled shape]

end

variable {R : Bool → Progress → Progress → Prop} {handle : Codec → Compile Fields → Compile Fields}

/-- what a walk needs to keep a relation: handlers keep it, whatever their codec, and so do definitions of ids -/
structure WalkKeeps (R : Bool → Progress → Progress → Prop) (ctx : Context) (enter : Codec → Compile Fields)
    (handle : Codec → Compile Fields → Compile Fields) : Prop where
  sequential : Sequential R
  handle : ∀ c {builtin : Compile Fields}, Follows R builtin → Follows R (handle c builtin)
  definition : ∀ id body, Follows R (definition ctx enter id body)

mutual

/-- **A walk keeps what its handlers and definitions keep.** -/
theorem follows_walkOf (h : WalkKeeps R ctx enter handle) (c : Codec) : Follows R (walkOf ctx enter handle c) := by
  have hR := h.sequential
  cases c with
  | plain m tag => exact h.handle _ (follows_bareFragment hR tag)
  | literal m value => exact h.handle _ (follows_pure hR _)
  | enum m values => exact h.handle _ (follows_pure hR _)
  | object m shape =>
    rw [walkOf]
    exact h.handle _ (follows_bind hR (follows_walksOfShape h shape) fun _ => follows_pure hR _)
  | record m values =>
    rw [walkOf]
    exact h.handle _ (follows_bind hR (follows_walkOf h values) fun _ => follows_pure hR _)
  | array m items =>
    rw [walkOf]
    exact h.handle _ (follows_bind hR (follows_walkOf h items) fun _ => follows_pure hR _)
  | tuple m items =>
    rw [walkOf]
    exact h.handle _ (follows_bind hR (follows_walksOf h items) fun _ => follows_pure hR _)
  | intersection m members =>
    rw [walkOf]
    exact h.handle _ (follows_bind hR (follows_walksOf h members) fun _ => follows_ofMerge hR _)
  | union m members =>
    rw [walkOf]
    exact h.handle _ (follows_bind hR (follows_walksOf h members) fun _ => follows_pure hR _)
  | recursive m id body => exact h.handle _ (h.definition id body)

theorem follows_walksOf (h : WalkKeeps R ctx enter handle) (cs : List Codec) :
    Follows R (walksOf ctx enter handle cs) := by
  have hR := h.sequential
  match cs with
  | [] => exact follows_pure hR []
  | c :: cs =>
    exact follows_bind hR (follows_walkOf h c) fun f =>
      follows_bind hR (follows_walksOf h cs) fun fs => follows_pure hR (f :: fs)

theorem follows_walksOfShape (h : WalkKeeps R ctx enter handle) (shape : List (Text × Codec)) :
    Follows R (walksOfShape ctx enter handle shape) := by
  have hR := h.sequential
  match shape with
  | [] => exact follows_pure hR []
  | (name, c) :: shape =>
    exact follows_bind hR (follows_walkOf h c) fun f =>
      follows_bind hR (follows_walksOfShape h shape) fun fs => follows_pure hR ((name, f) :: fs)

end

end

end CodecCompiler
