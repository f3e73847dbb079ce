/-
Which ids a compilation meets, and what the schema document holds of them, for all the parsers that a caller may have.

- `Action.attempt`: what a handler does is an attempt too; `act_eq_run`: it runs as the handler does.
- `Task`: a call of the compiler for a codec, or what the kind of a codec prescribes for it.
- `Leads`: a task leads directly to another: to what a parser turns to, to the codecs below, to the body of a new id.
- `Met`: the id of a recursive codec that a compilation comes to, by whatever calls.
- `Leads.within`: a task leaves no less than the tasks that it leads to; so `known_of_met`: an id that is met has a
  definition afterwards.
- `Yields`: where no parser goes on after a failure, each new definition is the fragment that a call made of its body.
- `generate_keeps_met`: so the document holds the definition of every id that is met, unless its top fragment has a
  field `definitions` of its own.
Witness of what happens then:
- `own_definitions_prevail`: a reference at the top of a document that does not hold its definition.
-/
import CodecCompiler.Proofs.Failure
import Mathlib.Logic.Relation

namespace CodecCompiler

open Entries (names get?)
open Compile

/-! ## Handlers as attempts -/

/-- goes on with a fragment, and fails where there is none -/
def Attempt.onward (next : Fields → Attempt) : Except CompileError Fields → Attempt
  | .ok fragment => next fragment
  | .error error => .fail error

/-- the attempt that a handler's program is -/
def Program.attempt : Program → Attempt
  | .give fragment => .give fragment
  | .fail error => .fail error
  | .compile codec next => .compile codec (Attempt.onward fun fragment => (next fragment).attempt)
  | .prescribed next => .prescribed (Attempt.onward fun fragment => (next fragment).attempt)

/-- what a handler does with a codec -/
def Action.attempt (ctx : Context) (codec : Codec) : Action → Attempt
  | .builtin => .prescribed (Attempt.onward .give)
  | .constant fragment => .give fragment
  | .reportCache => .look fun definitions => .give [("x-cache", .obj definitions)]
  | .reportContext =>
    .give [("x-target", .str ctx.target.name), ("x-allow", .bool ctx.allowAdditional),
      ("x-tags", Json.texts ctx.registry.tags), ("x-required", .bool codec.required)]
  | .delegate key other => .compile other (Attempt.onward fun fragment => .give [(key, .obj fragment)])
  | .replace other => .compile other (Attempt.onward .give)
  | .extend extra => .prescribed (Attempt.onward fun fragment => .give (Entries.merge fragment extra))
  | .custom script => (script.program codec).attempt

/-- what is done with a codec: by the caller's parser of its tag, or by the first handler where there is none -/
def attempt? (ctx : Context) (parsers : Parsers) (codec : Codec) : Option Attempt :=
  match parsers codec.tag.name with
  | some parser => some (parser codec)
  | none => (ctx.registry.find? codec.tag).map fun handler => handler.action.attempt ctx codec

section

variable {ctx : Context} {parsers : Parsers} {enter : Codec → Compile Fields} {builtin : Compile Fields}

theorem run_onward (step : Compile Fields) (next : Fields → Attempt) :
    (caught step >>= fun result => (Attempt.onward next result).run enter builtin) =
      step >>= fun fragment => (next fragment).run enter builtin := by
  refine Compile.ext fun p => ?_
  rw [runFrom_bind, runFrom_bind, runFrom_caught]
  rcases step.runFrom p with ⟨e | f, q⟩
  · rfl
  · rfl

theorem Program.run_attempt (program : Program) : program.attempt.run enter builtin = program.run enter builtin := by
  induction program with
  | give f => rfl
  | fail e => rfl
  | compile c next ih =>
    refine (run_onward (enter c) fun f => (next f).attempt).trans ?_
    simp only [ih]
    rfl
  | prescribed next ih =>
    refine (run_onward builtin fun f => (next f).attempt).trans ?_
    simp only [ih]
    rfl

/-- **A handler runs as its attempt does.** -/
theorem act_eq_run (c : Codec) (action : Action) :
    act ctx enter c builtin action = (action.attempt ctx c).run enter builtin := by
  cases action with
  | builtin => exact ((run_onward builtin .give).trans (bind_pure builtin)).symm
  | constant f => rfl
  | reportCache => rfl
  | reportContext => rfl
  | delegate key other => exact (run_onward (enter other) fun fragment => .give [(key, .obj fragment)]).symm
  | replace other => exact ((run_onward (enter other) .give).trans (bind_pure (enter other))).symm
  | extend extra => exact (run_onward builtin fun fragment => .give (Entries.merge fragment extra)).symm
  | custom script => exact (Program.run_attempt _).symm

theorem tried_of_some {c : Codec} {attempt : Attempt} (h : attempt? ctx parsers c = some attempt) :
    tried ctx parsers enter c builtin = do return described c.description (← attempt.run enter builtin) := by
  unfold attempt? at h
  unfold tried
  cases hparser : parsers c.tag.name with
  | some parser =>
    simp only [hparser, Option.some.injEq] at h
    rw [← h]
  | none =>
    simp only [hparser] at h
    obtain ⟨handler, hfind, rfl⟩ := Option.map_eq_some_iff.1 h
    simp only [handled, hfind, act_eq_run]

theorem tried_of_none {c : Codec} (h : attempt? ctx parsers c = none) :
    tried ctx parsers enter c builtin = throw (.unsupported c.tag.name) := by
  unfold attempt? at h
  unfold tried
  cases hparser : parsers c.tag.name with
  | some parser => simp only [hparser, reduceCtorEq] at h
  | none =>
    simp only [hparser, Option.map_eq_none_iff] at h
    simp only [handled, h]

end

/-! ## Tasks -/

section

variable (ctx : Context) (enter : Codec → Compile Fields) (handle : Codec → Compile Fields → Compile Fields)

/-- what the kind of a codec prescribes, in a walk where `handle` is what handlers make of the codecs below -/
def ruleOf : Codec → Compile Fields
  | .plain _ tag => bareFragment tag
  | .literal _ value => pure [("type", .str "string"), ("const", value)]
  | .enum _ values => pure [("type", .str "string"), ("enum", .arr values)]
  | .object _ shape => do
    return objectFragment (← walksOfShape ctx enter handle shape) ctx.allowAdditional (requiredNames shape)
  | .record _ values => do return recordFragment (← walkOf ctx enter handle values)
  | .array _ items => do return arrayFragment (← walkOf ctx enter handle items)
  | .tuple _ items => do return tupleFragment (← walksOf ctx enter handle items)
  | .intersection _ members => do
    Compile.ofMerge (Fragment.intersect (← walksOf ctx enter handle members) ctx.allowAdditional)
  | .union _ members => do return [("anyOf", .arr ((← walksOf ctx enter handle members).map .obj))]
  | .recursive _ id body => definition ctx enter id body

theorem walkOf_eq (c : Codec) : walkOf ctx enter handle c = handle c (ruleOf ctx enter handle c) := by
  cases c <;> rw [walkOf] <;> rfl

end

/-- what a compilation has to do on its way -/
inductive Task where
  /-- a call of the compiler for a codec -/
  | call (depth : Nat) (codec : Codec)
  /-- what the kind of a codec prescribes for it -/
  | rule (depth : Nat) (codec : Codec)

/-- the step that a task is -/
def Task.step (ctx : Context) (parsers : Parsers) : Task → Compile Fields
  | .call depth codec => walkAt ctx parsers depth codec
  | .rule depth codec => ruleOf ctx (walkAt ctx parsers depth) (tried ctx parsers (walkAt ctx parsers depth)) codec

/-- what an attempt turns to on its way, and with what progress: a codec to compile, or what the kind of its own
prescribes where it is none -/
inductive Attempt.Turns (enter : Codec → Compile Fields) (builtin : Compile Fields) :
    Attempt → Progress → Option Codec → Progress → Prop
  | compile {p : Progress} {codec : Codec} {next : Except CompileError Fields → Attempt} :
    Turns enter builtin (.compile codec next) p (some codec) p
  | prescribed {p : Progress} {next : Except CompileError Fields → Attempt} :
    Turns enter builtin (.prescribed next) p none p
  | afterLook {p q : Progress} {turn : Option Codec} {next : Fields → Attempt} :
    Turns enter builtin (next p.definitions) p turn q → Turns enter builtin (.look next) p turn q
  | afterCompile {p q : Progress} {turn : Option Codec} {codec : Codec} {next : Except CompileError Fields → Attempt} :
    Turns enter builtin (next ((enter codec).runFrom p).1) ((enter codec).runFrom p).2 turn q →
      Turns enter builtin (.compile codec next) p turn q
  | afterPrescribed {p q : Progress} {turn : Option Codec} {next : Except CompileError Fields → Attempt} :
    Turns enter builtin (next (builtin.runFrom p).1) (builtin.runFrom p).2 turn q →
      Turns enter builtin (.prescribed next) p turn q

/-- a task, begun with some progress, leads directly to another -/
inductive Leads (ctx : Context) (parsers : Parsers) : Task × Progress → Task × Progress → Prop
  /-- what is done with a codec turns to something -/
  | turn {depth : Nat} {c : Codec} {attempt : Attempt} {turn : Option Codec} {p q : Progress} :
    attempt? ctx parsers c = some attempt →
      attempt.Turns (walkAt ctx parsers depth) ((Task.rule depth c).step ctx parsers) p turn q →
      Leads ctx parsers (.call (depth + 1) c, p) (turn.elim (.rule depth c) (.call depth), q)
  /-- the codecs below are compiled one after the other -/
  | child {depth : Nat} {c d : Codec} {before after : List Codec} {fs : List Fields} {p q : Progress} :
    c.children = before ++ d :: after →
      Runs (walksOf ctx (walkAt ctx parsers depth) (tried ctx parsers (walkAt ctx parsers depth)) before) p fs q →
      Leads ctx parsers (.rule depth c, p) (.call (depth + 1) d, q)
  /-- the body of a new id is compiled -/
  | body {depth : Nat} {m : Marks} {id body : Text} {d : Codec} {p : Progress} :
    id ∉ names p.definitions → get? ctx.bodies body = some d →
      Leads ctx parsers (.rule depth (.recursive m id body), p) (.call depth d, p.reserve id body)

/-- the id is that of a recursive codec that the compilation of a codec comes to -/
def Met (ctx : Context) (parsers : Parsers) (depth : Nat) (codec : Codec) (p : Progress) (id : Text) : Prop :=
  ∃ k m body q, Relation.ReflTransGen (Leads ctx parsers) (.call depth codec, p) (.rule k (.recursive m id body), q)

/-! ## What tasks leave -/

section

variable {ctx : Context} {parsers : Parsers} {enter : Codec → Compile Fields}
  {handle : Codec → Compile Fields → Compile Fields} {builtin : Compile Fields} {α β : Type}

/-- ids and bodies asked for stay -/
theorem sequential_within : Sequential fun _ => Progress.Within := ⟨fun _ => .refl, .trans⟩

theorem within_walkAt (depth : Nat) (c : Codec) : Follows (fun _ => Progress.Within) (walkAt ctx parsers depth c) := by
  intro p
  obtain ⟨added, hkept⟩ := kept_walkAt ctx parsers depth c p
  exact hkept.within

theorem within_definition (depth : Nat) (id body : Text) :
    Follows (fun _ => Progress.Within) (definition ctx (walkAt ctx parsers depth) id body) := by
  intro p
  obtain ⟨added, hkept⟩ := kept_definition (kept_walkAt ctx parsers depth) id body p
  exact hkept.within

/-- the definition of a new id leaves no less than what its body leaves -/
theorem within_body {depth : Nat} {id body : Text} {d : Codec} {p : Progress} (hid : id ∉ names p.definitions)
    (hd : get? ctx.bodies body = some d) : ((walkAt ctx parsers depth d).runFrom (p.reserve id body)).2.Within
      ((definition ctx (walkAt ctx parsers depth) id body).runFrom p).2 := by
  have hwithin : (p.reserve id body).Within ((walkAt ctx parsers depth d).runFrom (p.reserve id body)).2 :=
    within_walkAt depth d (p.reserve id body)
  rw [runFrom_definition, if_neg hid, hd]
  rcases hrun : (walkAt ctx parsers depth d).runFrom (p.reserve id body) with ⟨e | f, q⟩
  · simp only [hrun]
    exact .refl q
  · rw [hrun] at hwithin
    have hids := hwithin.ids
    rw [names_reserve hid body] at hids
    simp only [hrun]
    exact Progress.within_define (hids.subset (by simp)) f

/-- a step leaves no less than the part that it begins with -/
theorem within_bind {x : Compile α} {f : α → Compile β} (hf : ∀ a, Follows (fun _ => Progress.Within) (f a))
    (p : Progress) : (x.runFrom p).2.Within ((x >>= f).runFrom p).2 := by
  rw [runFrom_bind]
  rcases x.runFrom p with ⟨e | a, q⟩
  · exact .refl q
  · exact hf a q

/-- what only makes a result leaves what was there -/
theorem runFrom_bind_snd {x : Compile α} {f : α → Compile β} (hf : ∀ a q, ((f a).runFrom q).2 = q) (p : Progress) :
    ((x >>= f).runFrom p).2 = (x.runFrom p).2 := by
  rw [runFrom_bind]
  rcases x.runFrom p with ⟨e | a, q⟩
  · rfl
  · exact hf a q

theorem runFrom_ofMerge_snd (result : Except MergeError α) (p : Progress) : ((ofMerge result).runFrom p).2 = p := by
  cases result <;> rfl

theorem runFrom_walksOfShape_snd (shape : List (Text × Codec)) (p : Progress) :
    ((walksOfShape ctx enter handle shape).runFrom p).2 =
      ((walksOf ctx enter handle (shape.map (·.2))).runFrom p).2 := by
  induction shape generalizing p with
  | nil => rfl
  | cons e shape ih =>
    simp only [walksOfShape, walksOf, List.map_cons, runFrom_bind (walkOf ctx enter handle e.2)]
    rcases (walkOf ctx enter handle e.2).runFrom p with ⟨e' | f, q⟩
    · rfl
    · exact (runFrom_bind_snd (fun _ _ => rfl) q).trans ((ih q).trans (runFrom_bind_snd (fun _ _ => rfl) q).symm)

/-- what a kind prescribes leaves what compiling the codecs below leaves -/
theorem runFrom_ruleOf_snd {c : Codec} (hc : c.isRecursive = false) (p : Progress) :
    ((ruleOf ctx enter handle c).runFrom p).2 = ((walksOf ctx enter handle c.children).runFrom p).2 := by
  have hone : ∀ (d : Codec) (make : Fields → Fields),
      ((do return make (← walkOf ctx enter handle d) : Compile Fields).runFrom p).2 =
        ((walksOf ctx enter handle [d]).runFrom p).2 := fun d make =>
    (runFrom_bind_snd (fun _ _ => rfl) p).trans (runFrom_bind_snd (fun _ _ => rfl) p).symm
  cases c with
  | plain m tag =>
    rw [ruleOf, bareFragment]
    split
    · rfl
    · rfl
    · rfl
  | literal m value => rfl
  | enum m values => rfl
  | object m shape => exact (runFrom_bind_snd (fun _ _ => rfl) p).trans (runFrom_walksOfShape_snd shape p)
  | record m values => exact hone values recordFragment
  | array m items => exact hone items arrayFragment
  | tuple m items => exact runFrom_bind_snd (fun _ _ => rfl) p
  | intersection m members => exact runFrom_bind_snd (fun _ => runFrom_ofMerge_snd _) p
  | union m members => exact runFrom_bind_snd (fun _ _ => rfl) p
  | recursive m id body => exact absurd hc (by simp [Codec.isRecursive])

theorem within_walksOf (hwalk : ∀ c, Follows (fun _ => Progress.Within) (walkOf ctx enter handle c))
    (cs : List Codec) : Follows (fun _ => Progress.Within) (walksOf ctx enter handle cs) := by
  induction cs with
  | nil => exact follows_pure sequential_within []
  | cons c cs ih =>
    exact follows_bind sequential_within (hwalk c) fun f =>
      follows_bind sequential_within ih fun fs => follows_pure sequential_within (f :: fs)

/-- the codecs of a list leave no less than one of them that is come to -/
theorem within_walksOf_part (hwalk : ∀ c, Follows (fun _ => Progress.Within) (walkOf ctx enter handle c))
    {before after : List Codec} {d : Codec} {fs : List Fields} {p q : Progress}
    (h : Runs (walksOf ctx enter handle before) p fs q) :
    ((walkOf ctx enter handle d).runFrom q).2.Within
      ((walksOf ctx enter handle (before ++ d :: after)).runFrom p).2 := by
  induction before generalizing p fs with
  | nil =>
    obtain ⟨rfl, rfl⟩ := runs_pure.1 h
    exact within_bind (fun f => follows_bind sequential_within (within_walksOf hwalk after) fun fs =>
      follows_pure sequential_within (f :: fs)) p
  | cons b before ih =>
    simp only [walksOf, runs_bind] at h
    obtain ⟨f, r, hf, gs, r', hgs, hlast⟩ := h
    obtain ⟨rfl, rfl⟩ := runs_pure.1 hlast
    have hrest : ((walksOf ctx enter handle (b :: (before ++ d :: after))).runFrom p).2 =
        ((walksOf ctx enter handle (before ++ d :: after)).runFrom r).2 := by
      rw [walksOf, runFrom_bind, show (walkOf ctx enter handle b).runFrom p = (.ok f, r) from hf]
      exact runFrom_bind_snd (fun _ _ => rfl) r
    rw [List.cons_append, hrest]
    exact ih hgs

theorem Attempt.Turns.within (henter : ∀ c, Follows (fun _ => Progress.Within) (enter c))
    (hbuiltin : Follows (fun _ => Progress.Within) builtin) {attempt : Attempt} {turn : Option Codec} {p q : Progress}
    (h : attempt.Turns enter builtin p turn q) :
    ((turn.elim builtin enter).runFrom q).2.Within ((attempt.run enter builtin).runFrom p).2 := by
  have hrun : ∀ attempt : Attempt, Follows (fun _ => Progress.Within) (attempt.run enter builtin) :=
    follows_attempt sequential_within (fun _ _ _ h => h) henter hbuiltin
  induction h with
  | @compile p codec next =>
    have hfirst : ((caught (enter codec)).runFrom p).2.Within _ := within_bind (fun result => hrun (next result)) p
    exact hfirst
  | @prescribed p next =>
    have hfirst : ((caught builtin).runFrom p).2.Within _ := within_bind (fun result => hrun (next result)) p
    exact hfirst
  | afterLook _ ih => exact ih
  | afterCompile _ ih => exact ih
  | afterPrescribed _ ih => exact ih

theorem within_rule (depth : Nat) (c : Codec) :
    Follows (fun _ => Progress.Within) ((Task.rule depth c).step ctx parsers) := by
  have hwalks : ∀ cs, Follows (fun _ => Progress.Within)
      (walksOf ctx (walkAt ctx parsers depth) (tried ctx parsers (walkAt ctx parsers depth)) cs) :=
    within_walksOf (within_walkAt (depth + 1))
  have hrule : c.isRecursive = false → Follows (fun _ => Progress.Within) ((Task.rule depth c).step ctx parsers) := by
    intro hc p
    change p.Within ((ruleOf ctx _ _ c).runFrom p).2
    rw [runFrom_ruleOf_snd hc]
    exact hwalks c.children p
  cases c with
  | recursive m id body => exact within_definition depth id body
  | _ => exact hrule rfl

/-- **A task leaves no less than the tasks that it leads to.** -/
theorem Leads.within {task task' : Task} {p p' : Progress} (h : Leads ctx parsers (task, p) (task', p')) :
    ((task'.step ctx parsers).runFrom p').2.Within ((task.step ctx parsers).runFrom p).2 := by
  cases h with
  | @turn depth c attempt turn _ _ hattempt hturns =>
    have hstep : (turn.elim (.rule depth c) (.call depth) : Task).step ctx parsers =
        turn.elim ((Task.rule depth c).step ctx parsers) (walkAt ctx parsers depth) := by
      cases turn <;> rfl
    have hcall : (Task.call (depth + 1) c).step ctx parsers = do
        let fragment ← attempt.run (walkAt ctx parsers depth) ((Task.rule depth c).step ctx parsers)
        return described c.description fragment :=
      (walkOf_eq ctx _ _ c).trans (tried_of_some hattempt)
    rw [hstep, hcall, runFrom_bind_snd fun _ _ => rfl]
    exact hturns.within (within_walkAt depth) (within_rule depth c)
  | @child depth c d before after fs _ _ hchildren hbefore =>
    have hc : c.isRecursive = false := by
      cases c with
      | recursive => simp [Codec.children] at hchildren
      | _ => rfl
    have hpart : ((walkAt ctx parsers (depth + 1) d).runFrom p').2.Within
        ((walksOf ctx _ _ (before ++ d :: after)).runFrom p).2 :=
      within_walksOf_part (within_walkAt (depth + 1)) hbefore
    rw [← hchildren, ← runFrom_ruleOf_snd hc] at hpart
    exact hpart
  | body hid hd => exact within_body hid hd

theorem within_of_leads {start finish : Task × Progress} (h : Relation.ReflTransGen (Leads ctx parsers) start finish) :
    ((finish.1.step ctx parsers).runFrom finish.2).2.Within ((start.1.step ctx parsers).runFrom start.2).2 := by
  induction h with
  | refl => exact .refl _
  | tail _ hleads ih => exact hleads.within.trans ih

/-- the id of a recursive codec has a definition once its kind was looked after -/
theorem defined_of_rule (depth : Nat) (m : Marks) (id body : Text) (p : Progress) :
    id ∈ names (((Task.rule depth (.recursive m id body)).step ctx parsers).runFrom p).2.definitions := by
  by_cases hid : id ∈ names p.definitions
  · exact (within_rule depth (.recursive m id body) p).ids.subset hid
  have hreserved : id ∈ names (p.reserve id body).definitions := by
    rw [names_reserve hid body]
    simp
  change id ∈ names ((definition ctx (walkAt ctx parsers depth) id body).runFrom p).2.definitions
  cases hc : get? ctx.bodies body with
  | none =>
    rw [runFrom_definition, if_neg hid, hc]
    exact hreserved
  | some c => exact ((within_walkAt depth c (p.reserve id body)).trans (within_body hid hc)).ids.subset hreserved

/-- **An id that is met has a definition afterwards**, whether the compilation ends or fails. -/
theorem known_of_met {depth : Nat} {c : Codec} {p : Progress} {id : Text} (h : Met ctx parsers depth c p id) :
    id ∈ names ((walkAt ctx parsers depth c).runFrom p).2.definitions := by
  obtain ⟨k, m, body, q, hleads⟩ := h
  exact (within_of_leads hleads).ids.subset (defined_of_rule k m id body q)

end

/-! ## Parsers that yield to failures -/

/-- fails where a compilation that it asked for fails -/
def Attempt.Strict : Attempt → Prop
  | .give _ | .fail _ => True
  | .look next => ∀ definitions, (next definitions).Strict
  | .compile _ next | .prescribed next =>
    (∀ error, ∃ error', next (.error error) = .fail error') ∧ ∀ fragment, (next (.ok fragment)).Strict

/-- no parser goes on after a failure -/
def Parsers.Strict (parsers : Parsers) : Prop := ∀ tag parser, parsers tag = some parser → ∀ c, (parser c).Strict

theorem Attempt.strict_onward {next : Fields → Attempt} (h : ∀ f, (next f).Strict) :
    (∀ error, ∃ error', onward next (.error error) = .fail error') ∧ ∀ f, (onward next (.ok f)).Strict :=
  ⟨fun error => ⟨error, rfl⟩, h⟩

theorem Program.strict_attempt (program : Program) : program.attempt.Strict := by
  induction program with
  | give f => trivial
  | fail e => trivial
  | compile c next ih => exact Attempt.strict_onward ih
  | prescribed next ih => exact Attempt.strict_onward ih

theorem Action.strict_attempt (ctx : Context) (c : Codec) (action : Action) : (action.attempt ctx c).Strict := by
  cases action with
  | constant | reportContext => trivial
  | reportCache => exact fun _ => trivial
  | builtin | delegate | replace | extend => exact Attempt.strict_onward fun _ => trivial
  | custom script => exact Program.strict_attempt _

theorem strict_attempt? {ctx : Context} {parsers : Parsers} (h : parsers.Strict) {c : Codec} {attempt : Attempt}
    (hattempt : attempt? ctx parsers c = some attempt) : attempt.Strict := by
  unfold attempt? at hattempt
  cases hparser : parsers c.tag.name with
  | some parser =>
    simp only [hparser, Option.some.injEq] at hattempt
    exact hattempt ▸ h _ parser hparser c
  | none =>
    simp only [hparser] at hattempt
    obtain ⟨handler, -, rfl⟩ := Option.map_eq_some_iff.1 hattempt
    exact Action.strict_attempt ctx c _

/-- where a step ends, each definition that is new is the fragment that a call of the compiler made of its body -/
def Yields (ctx : Context) (parsers : Parsers) (ended : Bool) (p q : Progress) : Prop :=
  ended = true → ∃ added, Kept ctx parsers p q added ∧ ∀ entry ∈ added, Made ctx parsers p q entry

section

variable {ctx : Context} {parsers : Parsers}

theorem sequential_yields (ctx : Context) (parsers : Parsers) : Sequential (Yields ctx parsers) := by
  refine ⟨fun _ p _ => ⟨[], .refl ctx parsers p, by simp⟩, fun {ended ended' p q r} h h' hboth => ?_⟩
  obtain ⟨hended, hended'⟩ := Bool.and_eq_true_iff.1 hboth
  obtain ⟨added, hkept, hmade⟩ := h hended
  obtain ⟨added', hkept', hmade'⟩ := h' hended'
  refine ⟨added ++ added', hkept.trans hkept', fun entry hentry => ?_⟩
  rcases List.mem_append.1 hentry with hentry | hentry
  · exact (hmade entry hentry).mono (.refl p) hkept'.within
  · exact (hmade' entry hentry).mono hkept.within (.refl r)

/-- an attempt that yields to failures ends only where what it asked for ended -/
theorem yields_attempt {enter : Codec → Compile Fields} {builtin : Compile Fields}
    (henter : ∀ c, Follows (Yields ctx parsers) (enter c)) (hbuiltin : Follows (Yields ctx parsers) builtin)
    {attempt : Attempt} (h : attempt.Strict) : Follows (Yields ctx parsers) (attempt.run enter builtin) := by
  have hR := sequential_yields ctx parsers
  have hcaught : ∀ {step : Compile Fields} {next : Except CompileError Fields → Attempt},
      Follows (Yields ctx parsers) step → (∀ error, ∃ error', next (.error error) = .fail error') →
      (∀ f, Follows (Yields ctx parsers) ((next (.ok f)).run enter builtin)) →
      Follows (Yields ctx parsers) (caught step >>= fun result => (next result).run enter builtin) := by
    intro step next hstep herror hok p
    have hfirst := hstep p
    rw [runFrom_bind, runFrom_caught]
    rcases hrun : step.runFrom p with ⟨e | f, q⟩
    · obtain ⟨e', he'⟩ := herror e
      simp only [he']
      exact fun hended => nomatch hended
    · rw [hrun] at hfirst
      exact hR.trans hfirst (hok f q)
  induction attempt with
  | give f => exact follows_pure hR f
  | fail e => exact follows_throw hR e
  | look next ih => exact follows_bind hR (follows_get hR) fun p => ih p.definitions (h p.definitions)
  | compile c next ih => exact hcaught (henter c) h.1 fun f => ih (.ok f) (h.2 f)
  | prescribed next ih => exact hcaught hbuiltin h.1 fun f => ih (.ok f) (h.2 f)

/-- the definition of a new id is made by the call for its body -/
theorem yields_definition {depth : Nat} (henter : ∀ c, Follows (Yields ctx parsers) (walkAt ctx parsers depth c))
    (id body : Text) : Follows (Yields ctx parsers) (definition ctx (walkAt ctx parsers depth) id body) := by
  intro p
  rw [runFrom_definition]
  by_cases hid : id ∈ names p.definitions
  · rw [if_pos hid]
    exact (sequential_yields ctx parsers).refl true p
  rw [if_neg hid]
  cases hc : get? ctx.bodies body with
  | none => exact fun hended => nomatch hended
  | some c =>
    have hbody := henter c (p.reserve id body)
    rcases hrun : (walkAt ctx parsers depth c).runFrom (p.reserve id body) with ⟨e | f, q⟩
    · simp only [hrun]
      exact fun hended => nomatch hended
    · simp only [hrun] at hbody ⊢
      intro hended
      obtain ⟨added, hkept, hall⟩ := hbody rfl
      have hreserved : (p.reserve id body).definitions = p.definitions ++ [(id, .obj [])] :=
        Entries.names_set_of_not_mem hid _
      have hmem : id ∈ names q.definitions := by
        rw [hkept.definitions, hreserved]
        simp
      have hwithin := Progress.within_define hmem f
      have hmade : Made ctx parsers p (q.define id f) (id, .obj f) :=
        ⟨body, c, depth, p, f, q, .refl p, hid, hc, hrun, hwithin, rfl⟩
      have hdefinitions : (q.define id f).definitions = p.definitions ++ (id, .obj f) :: added := by
        rw [Progress.define, hkept.definitions, hreserved, List.append_assoc, List.singleton_append]
        exact Entries.set_middle hid added _ _
      refine ⟨_, hkept.cons hid hdefinitions rfl hwithin (Or.inl hmade), List.forall_mem_cons.2 ⟨hmade, ?_⟩⟩
      exact fun entry hentry => (hall entry hentry).mono (Progress.within_reserve hid body) hwithin

/-- **Where no parser goes on after a failure, definitions are made**: a call that ends leaves no reservation. -/
theorem yields_walkAt (ctx : Context) (hstrict : parsers.Strict) (depth : Nat) (c : Codec) :
    Follows (Yields ctx parsers) (walkAt ctx parsers depth c) := by
  have hR := sequential_yields ctx parsers
  induction depth generalizing c with
  | zero => exact follows_throw hR .endless
  | succ depth ih =>
    refine follows_walkOf ⟨hR, fun d builtin hbuiltin => ?_, yields_definition ih⟩ c
    cases hattempt : attempt? ctx parsers d with
    | none =>
      rw [tried_of_none hattempt]
      exact follows_throw hR _
    | some attempt =>
      rw [tried_of_some hattempt]
      exact follows_bind hR (yields_attempt ih hbuiltin (strict_attempt? hstrict hattempt)) fun _ => follows_pure hR _

end

/-! ## Documents -/

/-- compiles a codec and its bodies into a schema document, where a caller's parsers stand before the handlers and
codecs are entered at most `depth` deep -/
def generateWith (parsers : Parsers) (depth : Nat) (system : CodecSystem) (options : Options) :
    Except CompileError Fields × Progress :=
  let (result, progress) := (walkAt (options.context system.bodies) parsers depth system.root).runFrom {}
  (result.map (withDefinitions progress.definitions), progress)

/-- **Without further parsers** it is generation with the handlers of the options. -/
theorem generateWith_none (system : CodecSystem) (options : Options) :
    generateWith (fun _ => none) ((options.context system.bodies).depth system.root) system options =
      generate system options := by
  unfold generateWith generate
  rw [walkAt_none]
  rfl

theorem get?_withDefinitions {definitions top : Fields} (h : ("definitions" : Text) ∉ names top) :
    get? (withDefinitions definitions top) "definitions" = some (.obj definitions) := by
  rw [withDefinitions, Entries.get?_merge, Entries.get?_eq_none_iff.2 (by simpa [names] using h)]
  rfl

/-- a field of the top fragment takes the place of the definitions -/
theorem exists_get?_withDefinitions {top : Fields} (h : ("definitions" : Text) ∈ names top) (definitions : Fields) :
    ∃ own, (("definitions" : Text), own) ∈ top ∧ get? (withDefinitions definitions top) "definitions" = some own := by
  obtain ⟨own, hown⟩ : ∃ own, get? top.reverse "definitions" = some own :=
    Entries.exists_get? (by simpa [names] using h)
  refine ⟨own, List.mem_reverse.1 (Entries.mem_of_get? hown), ?_⟩
  rw [withDefinitions, Entries.get?_merge, hown]
  rfl

/-- **Every id that is met has its definition in the document**, by whatever calls it was met: the fragment that a call
made of its body, or, where a parser goes on after a failure, the empty one that a failed body leaves. For this the top
fragment must have no field `definitions`; if it has one, the document has that in the place of all definitions. -/
theorem generate_keeps_met {parsers : Parsers} {depth : Nat} {system : CodecSystem} {options : Options}
    {document : Fields} {progress : Progress}
    (ended : generateWith parsers depth system options = (.ok document, progress)) :
    ∃ top, Runs (walkAt (options.context system.bodies) parsers depth system.root) {} top progress ∧
      (("definitions" : Text) ∉ names top → ∃ definitions, get? document "definitions" = some (.obj definitions) ∧
        ∀ id, Met (options.context system.bodies) parsers depth system.root {} id →
          ∃ v, get? definitions id = some v ∧
            (Made (options.context system.bodies) parsers {} progress (id, v) ∨
              ¬ parsers.Strict ∧ Stranded (options.context system.bodies) parsers {} progress (id, v))) ∧
      (("definitions" : Text) ∈ names top →
        ∃ own, (("definitions" : Text), own) ∈ top ∧ get? document "definitions" = some own) := by
  unfold generateWith at ended
  rcases hrun : (walkAt (options.context system.bodies) parsers depth system.root).runFrom {} with ⟨e | top, p⟩
  · rw [hrun] at ended
    cases ended
  rw [hrun] at ended
  cases ended
  refine ⟨top, hrun, fun hnone => ⟨_, get?_withDefinitions hnone, fun id hmet => ?_⟩,
    fun hown => exists_get?_withDefinitions hown _⟩
  have hknown := known_of_met hmet
  rw [hrun] at hknown
  obtain ⟨v, hv⟩ := Entries.exists_get? hknown
  refine ⟨v, hv, ?_⟩
  -- all definitions are new, for the compilation starts without any
  have hadded : ∀ added, Kept (options.context system.bodies) parsers {} progress added → (id, v) ∈ added := by
    intro added hkept
    have hdefinitions : progress.definitions = added := hkept.definitions
    rw [← hdefinitions]
    exact Entries.mem_of_get? hv
  by_cases hstrict : parsers.Strict
  · have hyields := yields_walkAt (options.context system.bodies) hstrict depth system.root {}
    rw [hrun] at hyields
    obtain ⟨added, hkept, hmade⟩ := hyields rfl
    exact Or.inl (hmade _ (hadded added hkept))
  · obtain ⟨added, hkept⟩ := kept_walkAt (options.context system.bodies) parsers depth system.root {}
    rw [hrun] at hkept
    exact (hkept.left _ (hadded added hkept)).imp_right fun hstranded => ⟨hstrict, hstranded⟩

/-! ### Runs -/

/-- a codec of a parser that goes on after a failure, and one with a body -/
def mended : CodecSystem := ⟨.tuple {} [.plain {} (.text "twice"), .recursive {} "Good" "Good"], lacking.bodies⟩

/-- what is compiled of them -/
def mendedProgress : Progress := ⟨[("Bad", .obj []), ("Good", .obj [("type", .str "string")])], ["Bad", "Good"]⟩

theorem mended_keeps_met :
    ∃ document, generateWith insistent 3 mended {} = (.ok document, mendedProgress) ∧
      Met lacking insistent 3 mended.root {} "Bad" ∧ Met lacking insistent 3 mended.root {} "Good" ∧
      ∃ top, Runs (walkAt lacking insistent 3 mended.root) {} top mendedProgress ∧ ("definitions" : Text) ∉ names top ∧
        ∃ definitions, get? document "definitions" = some (.obj definitions) ∧
          ∀ id, Met lacking insistent 3 mended.root {} id → ∃ v, get? definitions id = some v ∧
            (Made lacking insistent {} mendedProgress (id, v) ∨
              ¬ insistent.Strict ∧ Stranded lacking insistent {} mendedProgress (id, v)) := by
  have ended : ∃ document, generateWith insistent 3 mended {} = (.ok document, mendedProgress) := ⟨_, rfl⟩
  obtain ⟨document, ended⟩ := ended
  obtain ⟨top, hrun, hheld, -⟩ := generate_keeps_met ended
  have hnone : ("definitions" : Text) ∉ names top := by
    cases hrun
    decide
  have hitems : Leads lacking insistent (.call 3 mended.root, {}) (.rule 2 mended.root, {}) := .turn rfl .prescribed
  refine ⟨document, ended, ?_, ?_, top, hrun, hnone, hheld hnone⟩
  · -- the parser of the first item asks for the body that fails
    have hfirst : mended.root.children = [] ++ .plain {} (.text "twice") :: [.recursive {} "Good" "Good"] := rfl
    have hitem : Leads lacking insistent (.rule 2 mended.root, {}) (.call 3 (.plain {} (.text "twice")), {}) :=
      .child hfirst rfl
    have hasks : Leads lacking insistent (.call 3 (.plain {} (.text "twice")), {})
        (.call 2 (.recursive {} "Bad" "Bad"), {}) := .turn rfl .compile
    have hrule : Leads lacking insistent (.call 2 (.recursive {} "Bad" "Bad"), {})
        (.rule 1 (.recursive {} "Bad" "Bad"), {}) := .turn rfl .prescribed
    exact ⟨1, {}, "Bad", {}, (((Relation.ReflTransGen.single hitems).tail hitem).tail hasks).tail hrule⟩
  · -- the second item comes after what the first one left
    have hsecond : mended.root.children = [.plain {} (.text "twice")] ++ .recursive {} "Good" "Good" :: [] := rfl
    have hitem : Leads lacking insistent (.rule 2 mended.root, {})
        (.call 3 (.recursive {} "Good" "Good"), ⟨[("Bad", .obj [])], ["Bad"]⟩) := .child hsecond rfl
    have hrule : Leads lacking insistent (.call 3 (.recursive {} "Good" "Good"), ⟨[("Bad", .obj [])], ["Bad"]⟩)
        (.rule 2 (.recursive {} "Good" "Good"), ⟨[("Bad", .obj [])], ["Bad"]⟩) := .turn rfl .prescribed
    exact ⟨2, {}, "Good", _, ((Relation.ReflTransGen.single hitems).tail hitem).tail hrule⟩

/-- a parser of references that adds a field `definitions` to what their kind prescribes -/
def claiming : Options := { handlers := [⟨.text "recursive", .extend [("definitions", .obj [])]⟩] }

/-- a reference to a text -/
def claimed : CodecSystem := ⟨.recursive {} "Leaf" "Leaf", [("Leaf", .plain {} (.text "string"))]⟩

/-- **Definitions are lost behind a field of that name.** The reference at the top of the document is all that is left
of an id that was met and has a definition. -/
theorem own_definitions_prevail :
    generate claimed claiming = (.ok [("definitions", .obj []), ("$ref", .str "#/definitions/Leaf")],
      ⟨[("Leaf", .obj [("type", .str "string")])], ["Leaf"]⟩) ∧
    Met (claiming.context claimed.bodies) (fun _ => none) ((claiming.context claimed.bodies).depth claimed.root)
      claimed.root {} "Leaf" ∧
    ¬ ∀ system options document progress, generate system options = (.ok document, progress) →
      ∀ id, Met (options.context system.bodies) (fun _ => none) ((options.context system.bodies).depth system.root)
        system.root {} id →
      ∃ definitions v, get? document "definitions" = some (.obj definitions) ∧ get? definitions id = some v := by
  have hgenerate : generate claimed claiming = (.ok [("definitions", .obj []), ("$ref", .str "#/definitions/Leaf")],
    ⟨[("Leaf", .obj [("type", .str "string")])], ["Leaf"]⟩) := rfl
  have hmet : Met (claiming.context claimed.bodies) (fun _ => none)
      ((claiming.context claimed.bodies).depth claimed.root) claimed.root {} "Leaf" :=
    ⟨_, {}, "Leaf", {}, .single (.turn rfl .prescribed)⟩
  refine ⟨hgenerate, hmet, fun h => ?_⟩
  obtain ⟨definitions, v, hdefinitions, hv⟩ := h _ _ _ _ hgenerate "Leaf" hmet
  cases hdefinitions
  cases hv

end CodecCompiler
