/-
Runs of the compiler with the built-in handlers alone: what a step leaves behind when it ends with a fragment.

- `Compile.Runs`: a step ends with a value; one lemma for each way in which steps are put together.
- `runs_fragmentOf`: a codec compiles to what its kind prescribes (`prescribed`), with its description in front.
- `prescribed_eq`: that is assembled from the fragments of the codecs below, whatever the handlers are.
- `Settles`: progress grows by the definitions of the ids that the discovery walk meets, each with the translation of
  the body that the id was first met with. No reserved definition is left.
- `fragmentAt_sound`: a codec that compiles has its translation as fragment, whatever was compiled before, and what is
  compiled along the way settles.
- `fragmentAt_runs`: a codec with a translation compiles, when the bodies it can enter have translations and the bound
  exceeds the number of ids that are not defined yet.
-/
import CodecCompiler.Proofs.Discovery
import CodecCompiler.Proofs.Shape

namespace CodecCompiler

open Entries (names)

/-! ## Steps -/

namespace Compile

variable {α β : Type} {p p' p'' : Progress}

/-- the step ends with a value and leaves progress behind -/
def Runs (step : Compile α) (p : Progress) (a : α) (p' : Progress) : Prop := step.runFrom p = (.ok a, p')

theorem runFrom_bind (x : Compile α) (f : α → Compile β) (p : Progress) :
    (x >>= f).runFrom p = match x.runFrom p with
      | (.ok a, p') => (f a).runFrom p'
      | (.error e, p') => (.error e, p') := by
  simp only [runFrom, ExceptT.run_bind, StateT.run_bind]
  rcases (ExceptT.run x).run p with ⟨a | a, p'⟩ <;> rfl

theorem runs_bind {x : Compile α} {f : α → Compile β} {b : β} :
    Runs (x >>= f) p b p'' ↔ ∃ a p', Runs x p a p' ∧ Runs (f a) p' b p'' := by
  unfold Runs
  rw [runFrom_bind]
  constructor
  · intro h
    rcases hx : x.runFrom p with ⟨a | a, p'⟩
    · rw [hx] at h
      exact nomatch h
    · rw [hx] at h
      exact ⟨a, p', rfl, h⟩
  · rintro ⟨a, p', hx, hf⟩
    rw [hx]
    exact hf

theorem ext {x y : Compile α} (h : ∀ p, x.runFrom p = y.runFrom p) : x = y := funext h

/-- what comes behind a step counts only where the step ends -/
theorem runFrom_bind_congr {x : Compile α} {f g : α → Compile β}
    (h : ∀ a p', Runs x p a p' → (f a).runFrom p' = (g a).runFrom p') :
    (x >>= f).runFrom p = (x >>= g).runFrom p := by
  rw [runFrom_bind, runFrom_bind]
  rcases hx : x.runFrom p with ⟨e | a, p'⟩
  · rfl
  · exact h a p' hx

theorem runs_pure {a b : α} : Runs (pure a) p b p' ↔ a = b ∧ p = p' := by
  change ((.ok a, p) : Except CompileError α × Progress) = (.ok b, p') ↔ _
  simp

theorem not_runs_throw {e : CompileError} {a : α} : ¬ Runs (throw e) p a p' := by
  change ¬ ((.error e, p) : Except CompileError α × Progress) = (.ok a, p')
  simp

theorem runs_ofMerge {result : Except MergeError α} {a : α} :
    Runs (ofMerge result) p a p' ↔ result = .ok a ∧ p = p' := by
  cases result with
  | ok b => simp only [ofMerge, runs_pure, Except.ok.injEq]
  | error e => simp [ofMerge, not_runs_throw]

end Compile

open Compile

/-! ## The built-in handlers -/

theorem Tag.kind?_kind (k : Kind) : (Tag.kind k).kind? = some k := Kind.ofName?_name k

theorem find?_builtin (tag : Tag) : Registry.builtin.find? tag = tag.kind?.map fun k => ⟨.kind k, .builtin⟩ := by
  unfold Registry.find? Registry.builtin Tag.kind? Kind.ofName?
  rw [List.find?_map]
  rfl

section

variable {ctx : Context} {enter : Codec → Compile Fields} {p p' : Progress} {f : Fields}

/-- a codec whose first handler does what the kind prescribes gets that, with its description in front -/
theorem runs_found {c : Codec} {handler : Handler} (hfind : ctx.registry.find? c.tag = some handler)
    (haction : handler.action = .builtin) {step : Compile Fields} :
    Runs (handled ctx enter c step) p f p' ↔ ∃ g, Runs step p g p' ∧ f = described c.description g := by
  unfold handled
  rw [hfind]
  simp only [haction, act, runs_bind, runs_pure]
  constructor
  · rintro ⟨g, q, hg, rfl, rfl⟩
    exact ⟨g, hg, rfl⟩
  · rintro ⟨g, hg, rfl⟩
    exact ⟨g, p', hg, rfl, rfl⟩

theorem runs_handled (hb : ctx.registry = Registry.builtin) (c : Codec) {k : Kind} (hk : c.tag.kind? = some k)
    {step : Compile Fields} :
    Runs (handled ctx enter c step) p f p' ↔ ∃ g, Runs step p g p' ∧ f = described c.description g := by
  have hfind : ctx.registry.find? c.tag = some ⟨.kind k, .builtin⟩ := by
    rw [hb, find?_builtin, hk]
    rfl
  exact runs_found hfind rfl

theorem not_runs_handled (hb : ctx.registry = Registry.builtin) (c : Codec) (hk : c.tag.kind? = none)
    {step : Compile Fields} : ¬ Runs (handled ctx enter c step) p f p' := by
  unfold handled
  rw [hb, find?_builtin, hk]
  exact not_runs_throw

theorem runs_bareFragment {tag : Tag} {k : Kind} (hk : tag.kind? = some k) :
    Runs (bareFragment tag) p f p' ↔ Codec.bareTranslation tag = .ok f ∧ p = p' := by
  unfold bareFragment Codec.bareTranslation
  rw [hk]
  cases k with
  | primitive q => cases q <;> simp [runs_pure]
  | _ => simp [not_runs_throw]

/-- compiling a codec as its kind prescribes, without the description -/
def prescribed (ctx : Context) (enter : Codec → Compile Fields) : Codec → Compile Fields
  | .plain _ tag => bareFragment tag
  | .literal _ value => pure [("type", .str "string"), ("const", value)]
  | .enum _ values => pure [("type", .str "string"), ("enum", .arr values)]
  | .object _ shape => do
    return objectFragment (← fragmentsOfShape ctx enter shape) ctx.allowAdditional (requiredNames shape)
  | .record _ values => do return recordFragment (← fragmentOf ctx enter values)
  | .array _ items => do return arrayFragment (← fragmentOf ctx enter items)
  | .tuple _ items => do return tupleFragment (← fragmentsOf ctx enter items)
  | .intersection _ members => do
    Compile.ofMerge (Fragment.intersect (← fragmentsOf ctx enter members) ctx.allowAdditional)
  | .union _ members => do return [("anyOf", .arr ((← fragmentsOf ctx enter members).map .obj))]
  | .recursive _ id body => definition ctx enter id body

theorem fragmentOf_eq (ctx : Context) (enter : Codec → Compile Fields) (c : Codec) :
    fragmentOf ctx enter c = handled ctx enter c (prescribed ctx enter c) := by
  cases c <;> rw [fragmentOf] <;> rfl

/-- codecs that compile alike do so as a list -/
theorem fragmentsOf_congr {ctx ctx' : Context} {enter enter' : Codec → Compile Fields} {cs ds : List Codec}
    (h : List.Forall₂ (fun c d => fragmentOf ctx enter c = fragmentOf ctx' enter' d) cs ds) :
    fragmentsOf ctx enter cs = fragmentsOf ctx' enter' ds := by
  induction h with
  | nil => rfl
  | cons hfirst _ ih => simp only [fragmentsOf, hfirst, ih]

/-- what a codec's kind makes of the fragments of the codecs directly below -/
def assembled (ctx : Context) : Codec → List Fields → Compile Fields
  | .plain _ tag, _ => bareFragment tag
  | .literal _ value, _ => pure [("type", .str "string"), ("const", value)]
  | .enum _ values, _ => pure [("type", .str "string"), ("enum", .arr values)]
  | .object _ shape, fs => pure (objectFragment ((names shape).zip fs) ctx.allowAdditional (requiredNames shape))
  | .record _ _, fs => pure (recordFragment (fs.headD []))
  | .array _ _, fs => pure (arrayFragment (fs.headD []))
  | .tuple _ _, fs => pure (tupleFragment fs)
  | .intersection _ _, fs => ofMerge (Fragment.intersect fs ctx.allowAdditional)
  | .union _ _, fs => pure [("anyOf", Fragment.exposed fs)]
  | .recursive _ id _, _ => pure (reference id)

theorem fragmentsOfShape_eq (shape : List (Text × Codec)) :
    fragmentsOfShape ctx enter shape = do
      return (names shape).zip (← fragmentsOf ctx enter (shape.map (·.2))) := by
  induction shape with
  | nil => rfl
  | cons e shape ih => simp [fragmentsOfShape, fragmentsOf, ih]

/-- **What a kind prescribes** is put together from the fragments of the codecs below, compiled one after the other. -/
theorem prescribed_eq {c : Codec} (hc : c.isRecursive = false) :
    prescribed ctx enter c = fragmentsOf ctx enter c.children >>= assembled ctx c := by
  cases c with
  | recursive => exact nomatch hc
  | object m shape =>
    simp only [prescribed, fragmentsOfShape_eq, bind_assoc, pure_bind]
    rfl
  | record m c | array m c => simp [prescribed, Codec.children, assembled, fragmentsOf]
  | plain | literal | enum => simp [prescribed, Codec.children, assembled, fragmentsOf]
  | tuple | intersection | union => rfl

theorem runs_fragmentOf (hb : ctx.registry = Registry.builtin) {c : Codec} :
    Runs (fragmentOf ctx enter c) p f p' ↔
      ∃ g, Runs (prescribed ctx enter c) p g p' ∧ f = described c.description g := by
  rw [fragmentOf_eq]
  cases hk : c.tag.kind? with
  | some k => exact runs_handled hb c hk
  | none =>
    refine iff_of_false (not_runs_handled hb c hk) ?_
    rintro ⟨g, hg, -⟩
    cases c with
    | plain m tag =>
      rw [prescribed, bareFragment, show tag.kind? = none from hk] at hg
      exact not_runs_throw hg
    | _ => exact Option.some_ne_none _ ((Tag.kind?_kind _).symm.trans hk)

/-- the fields of a shape are compiled as the list of its codecs is -/
theorem runs_fragmentsOfShape {shape : List (Text × Codec)} {fs : Entries Fields} :
    Runs (fragmentsOfShape ctx enter shape) p fs p' ↔
      ∃ gs, Runs (fragmentsOf ctx enter (shape.map (·.2))) p gs p' ∧ fs = (names shape).zip gs := by
  rw [fragmentsOfShape_eq, runs_bind]
  simp only [runs_pure]
  constructor
  · rintro ⟨gs, q, hgs, rfl, rfl⟩
    exact ⟨gs, hgs, rfl⟩
  · rintro ⟨gs, hgs, rfl⟩
    exact ⟨gs, p', hgs, rfl, rfl⟩

/-- progress with a definition reserved for an id -/
def Progress.reserve (p : Progress) (id body : Text) : Progress :=
  ⟨Entries.set p.definitions id (.obj []), p.resolved ++ [body]⟩

/-- progress with the definition of an id -/
def Progress.define (p : Progress) (id : Text) (f : Fields) : Progress :=
  { p with definitions := Entries.set p.definitions id (.obj f) }

theorem names_reserve {id : Text} (hid : id ∉ names p.definitions) (body : Text) :
    names (p.reserve id body).definitions = names p.definitions ++ [id] := by
  rw [Progress.reserve, Entries.names_set_of_not_mem hid, Entries.names_append]
  rfl

/-- a recursive codec, step by step: a known id is left alone, a new one is reserved while its body is compiled -/
theorem runFrom_definition (ctx : Context) (enter : Codec → Compile Fields) (id body : Text) (p : Progress) :
    (definition ctx enter id body).runFrom p =
      if id ∈ names p.definitions then (.ok (reference id), p)
      else match Entries.get? ctx.bodies body with
        | none => (.error (.noBody body), p.reserve id body)
        | some c =>
          match (enter c).runFrom (p.reserve id body) with
          | (.ok f, q) => (.ok (reference id), q.define id f)
          | (.error e, q) => (.error e, q) := by
  have hget : (get : Compile Progress).runFrom p = (.ok p, p) := rfl
  have hreserve : (modify (Progress.reserve · id body) : Compile Unit).runFrom p = (.ok (), p.reserve id body) := rfl
  unfold definition
  simp only [runFrom_bind, hget]
  by_cases hid : Entries.has p.definitions id = true
  · rw [if_pos hid, if_pos (Entries.has_iff.1 hid)]
    rfl
  · rw [if_neg hid, if_neg (mt Entries.has_iff.2 hid)]
    change Compile.runFrom ((modify (Progress.reserve · id body) : Compile Unit) >>= _) p = _
    simp only [runFrom_bind, hreserve]
    cases Entries.get? ctx.bodies body with
    | none => rfl
    | some c =>
      simp only [runFrom_bind]
      rcases (enter c).runFrom (p.reserve id body) with ⟨e | f, q⟩
      · rfl
      · rfl

theorem runs_definition {id body : Text} :
    Runs (definition ctx enter id body) p f p' ↔ f = reference id ∧
      ((id ∈ names p.definitions ∧ p' = p) ∨
        (id ∉ names p.definitions ∧ ∃ c g q, Entries.get? ctx.bodies body = some c ∧
          Runs (enter c) (p.reserve id body) g q ∧ p' = q.define id g)) := by
  unfold Runs
  rw [runFrom_definition]
  by_cases hid : id ∈ names p.definitions
  · simp [hid, eq_comm]
  · simp only [hid, if_false, false_and, false_or, not_false_eq_true, true_and]
    cases Entries.get? ctx.bodies body with
    | none => simp
    | some c =>
      rcases hrun : (enter c).runFrom (p.reserve id body) with ⟨e | g, q⟩
      · simp [hrun]
      · simp [hrun, eq_comm]

end

/-! ## Options without custom handlers -/

theorem Options.registry_context {options : Options} (h : options.handlers = []) (bodies : Bodies) :
    (options.context bodies).registry = Registry.builtin := by
  rw [Options.context, h]
  rfl

theorem Context.payloads_builtin {ctx : Context} (hb : ctx.registry = Registry.builtin) : ctx.payloads = [] := by
  rw [Context.payloads, hb]
  rfl

theorem Context.depth_builtin {ctx : Context} (hb : ctx.registry = Registry.builtin) (c : Codec) :
    ctx.depth c = (c.ids ++ Codec.idsEntries ctx.bodies).length + 2 := by
  have hreach : Registry.builtin.foldl (fun depth h => depth + h.action.reach) 0 = 0 := rfl
  simp only [Context.depth, Context.payloads_builtin hb, Codec.idsList, hb, hreach]
  simp

/-! ## What progress is made of -/

/-- the definition of an id met holds the translation of the body that it was met with -/
def Settled (ctx : Context) (visit : Text × Text) (entry : Text × Json) : Prop :=
  entry.1 = visit.1 ∧ ∃ c f, Entries.get? ctx.bodies visit.2 = some c ∧
    c.translate ctx.allowAdditional = .ok f ∧ entry.2 = .obj f

/-- `p'` has the definitions of the ids met behind those of `p`, and asked for their bodies -/
structure Extends (ctx : Context) (p p' : Progress) (met : Entries Text) : Prop where
  definitions : ∃ entries, p'.definitions = p.definitions ++ entries ∧ List.Forall₂ (Settled ctx) met entries
  resolved : p'.resolved = p.resolved ++ met.map (·.2)

theorem Settled.unique {ctx : Context} {visit : Text × Text} {entry entry' : Text × Json}
    (h : Settled ctx visit entry) (h' : Settled ctx visit entry') : entry = entry' := by
  obtain ⟨hid, c, f, hc, hf, hv⟩ := h
  obtain ⟨hid', c', f', hc', hf', hv'⟩ := h'
  rw [hc] at hc'
  cases hc'
  rw [hf] at hf'
  cases hf'
  exact Prod.ext (hid.trans hid'.symm) (hv.trans hv'.symm)

theorem names_settled {ctx : Context} {met : Entries Text} {entries : Fields}
    (h : List.Forall₂ (Settled ctx) met entries) : names entries = names met := by
  induction h with
  | nil => rfl
  | cons hfirst _ ih => rw [Entries.names_cons, Entries.names_cons, ih, hfirst.1]

namespace Extends

variable {ctx : Context} {p p' p'' : Progress} {met met' : Entries Text}

theorem refl (ctx : Context) (p : Progress) : Extends ctx p p [] := ⟨⟨[], by simp, .nil⟩, by simp⟩

theorem trans (h : Extends ctx p p' met) (h' : Extends ctx p' p'' met') : Extends ctx p p'' (met ++ met') := by
  obtain ⟨⟨es, hes, hall⟩, hr⟩ := h
  obtain ⟨⟨es', hes', hall'⟩, hr'⟩ := h'
  refine ⟨⟨es ++ es', ?_, List.rel_append hall hall'⟩, ?_⟩
  · rw [hes', hes, List.append_assoc]
  · rw [hr', hr, List.map_append, List.append_assoc]

theorem names_eq (h : Extends ctx p p' met) : names p'.definitions = names p.definitions ++ names met := by
  obtain ⟨es, hes, hall⟩ := h.definitions
  rw [hes, Entries.names_append, names_settled hall]

theorem unique (h : Extends ctx p p' met) (h' : Extends ctx p p'' met) : p' = p'' := by
  obtain ⟨es, hes, hall⟩ := h.definitions
  obtain ⟨es', hes', hall'⟩ := h'.definitions
  have hunique : Relator.RightUnique (Settled ctx) := fun _ _ _ hb hc => hb.unique hc
  have heq : es = es' := List.right_unique_forall₂' hunique hall hall'
  have hd : p'.definitions = p''.definitions := by rw [hes, hes', heq]
  have hr : p'.resolved = p''.resolved := by rw [h.resolved, h'.resolved]
  cases p'
  cases p''
  exact congrArg₂ Progress.mk hd hr

/-- entering the body of a new id: what it leaves behind settles, and then the id does too -/
theorem enter {id body : Text} (hid : id ∉ names p.definitions) {c : Codec} {f : Fields}
    (hc : Entries.get? ctx.bodies body = some c) (hf : c.translate ctx.allowAdditional = .ok f)
    (h : Extends ctx (p.reserve id body) p' met) : Extends ctx p (p'.define id f) ((id, body) :: met) := by
  obtain ⟨⟨es, hes, hall⟩, hr⟩ := h
  refine ⟨⟨(id, .obj f) :: es, ?_, .cons ⟨rfl, c, f, hc, hf, rfl⟩ hall⟩, ?_⟩
  · simp only [Progress.define, hes, Progress.reserve]
    rw [Entries.names_set_of_not_mem hid, List.append_assoc, List.singleton_append]
    exact Entries.set_middle hid es _ _
  · simp only [Progress.define, hr, Progress.reserve, List.map_cons]
    rw [List.append_assoc, List.singleton_append]

end Extends

/-- compiling the codecs of a stack: their ids are met by the discovery walk, and their definitions settle -/
def Settles (ctx : Context) (p : Progress) (stack : List Codec) (p' : Progress) : Prop :=
  ∃ met, Discovers ctx.bodies (names p.definitions) stack met ∧ Extends ctx p p' met

namespace Settles

variable {ctx : Context} {p p' p'' : Progress} {stack stack' : List Codec}

theorem nil (ctx : Context) (p : Progress) : Settles ctx p [] p := ⟨[], .done, .refl ctx p⟩

theorem append (h : Settles ctx p stack p') (h' : Settles ctx p' stack' p'') :
    Settles ctx p (stack ++ stack') p'' := by
  obtain ⟨met, hwalk, hext⟩ := h
  obtain ⟨met', hwalk', hext'⟩ := h'
  rw [hext.names_eq] at hwalk'
  exact ⟨met ++ met', hwalk.append hwalk', hext.trans hext'⟩

theorem inner {c : Codec} (hc : c.isRecursive = false) (h : Settles ctx p c.children p') : Settles ctx p [c] p' := by
  obtain ⟨met, hwalk, hext⟩ := h
  exact ⟨met, .inner hc (by rwa [List.append_nil]), hext⟩

theorem again {m : Marks} {id body : Text} (hid : id ∈ names p.definitions) :
    Settles ctx p [.recursive m id body] p := ⟨[], .again hid .done, .refl ctx p⟩

theorem first {m : Marks} {id body : Text} (hid : id ∉ names p.definitions) {c : Codec} {f : Fields}
    (hc : Entries.get? ctx.bodies body = some c) (hf : c.translate ctx.allowAdditional = .ok f)
    (h : Settles ctx (p.reserve id body) [c] p') : Settles ctx p [.recursive m id body] (p'.define id f) := by
  obtain ⟨met, hwalk, hext⟩ := h
  refine ⟨(id, body) :: met, .first hid hc ?_, hext.enter hid hc hf⟩
  rwa [names_reserve hid body] at hwalk

/-- **Progress is determined** by where it starts and by what is compiled. -/
theorem unique (h : Settles ctx p stack p') (h' : Settles ctx p stack p'') : p' = p'' := by
  obtain ⟨met, hwalk, hext⟩ := h
  obtain ⟨met', hwalk', hext'⟩ := h'
  rw [← hwalk.unique hwalk'] at hext'
  exact hext.unique hext'

theorem names_subset (h : Settles ctx p stack p') : names p.definitions ⊆ names p'.definitions := by
  obtain ⟨met, _, hext⟩ := h
  rw [hext.names_eq]
  exact List.subset_append_left _ _

end Settles

/-! ## Soundness -/

/-- a compiled codec: its fragment is its translation, and what was compiled along the way has settled -/
structure Sound (ctx : Context) (c : Codec) (p : Progress) (f : Fields) (p' : Progress) : Prop where
  fragment : c.translate ctx.allowAdditional = .ok f
  settles : Settles ctx p [c] p'

section

variable {ctx : Context} {enter : Codec → Compile Fields}

theorem fragmentsOf_sound {cs : List Codec}
    (hcs : ∀ c ∈ cs, ∀ p f p', Runs (fragmentOf ctx enter c) p f p' → Sound ctx c p f p') {p : Progress}
    {fs : List Fields} {p' : Progress} (h : Runs (fragmentsOf ctx enter cs) p fs p') :
    Codec.translateList ctx.allowAdditional cs = .ok fs ∧ Settles ctx p cs p' := by
  induction cs generalizing p fs with
  | nil =>
    obtain ⟨rfl, rfl⟩ := runs_pure.1 h
    exact ⟨rfl, .nil ctx p⟩
  | cons c cs ih =>
    simp only [fragmentsOf, runs_bind, runs_pure] at h
    obtain ⟨f, q, hf, gs, q', hgs, rfl, rfl⟩ := h
    have hfirst := hcs c List.mem_cons_self p f q hf
    have hrest := ih (fun d hd => hcs d (List.mem_cons_of_mem c hd)) hgs
    refine ⟨?_, hfirst.settles.append hrest.2⟩
    simp only [Codec.translateList, hfirst.fragment, hrest.1]
    rfl

theorem prescribed_sound (henter : ∀ c p f p', Runs (enter c) p f p' → Sound ctx c p f p') {c : Codec}
    (hbelow : ∀ d ∈ c.children, ∀ p f p', Runs (fragmentOf ctx enter d) p f p' → Sound ctx d p f p') {p : Progress}
    {g : Fields} {p' : Progress} (h : Runs (prescribed ctx enter c) p g p') :
    c.prescription ctx.allowAdditional = .ok g ∧ Settles ctx p [c] p' := by
  cases c with
  | plain m tag =>
    cases hk : tag.kind? with
    | none =>
      rw [prescribed, bareFragment, hk] at h
      exact absurd h not_runs_throw
    | some k =>
      obtain ⟨hg, rfl⟩ := (runs_bareFragment hk).1 h
      exact ⟨hg, .inner rfl (.nil ctx p)⟩
  | literal m value =>
    obtain ⟨rfl, rfl⟩ := runs_pure.1 h
    exact ⟨rfl, .inner rfl (.nil ctx p)⟩
  | enum m values =>
    obtain ⟨rfl, rfl⟩ := runs_pure.1 h
    exact ⟨rfl, .inner rfl (.nil ctx p)⟩
  | object m shape =>
    obtain ⟨fs, q, hfs, h⟩ := runs_bind.1 h
    obtain ⟨rfl, rfl⟩ := runs_pure.1 h
    obtain ⟨gs, hgs, rfl⟩ := runs_fragmentsOfShape.1 hfs
    obtain ⟨ht, hs⟩ := fragmentsOf_sound hbelow hgs
    exact ⟨bind_eq_ok_iff.2 ⟨_, Codec.translateShape_eq_ok.2 ⟨gs, ht, rfl⟩, rfl⟩, .inner rfl hs⟩
  | record m values =>
    obtain ⟨f, q, hf, h⟩ := runs_bind.1 h
    obtain ⟨rfl, rfl⟩ := runs_pure.1 h
    obtain ⟨ht, hs⟩ := hbelow values List.mem_cons_self p f q hf
    exact ⟨bind_eq_ok_iff.2 ⟨f, ht, rfl⟩, .inner rfl hs⟩
  | array m items =>
    obtain ⟨f, q, hf, h⟩ := runs_bind.1 h
    obtain ⟨rfl, rfl⟩ := runs_pure.1 h
    obtain ⟨ht, hs⟩ := hbelow items List.mem_cons_self p f q hf
    exact ⟨bind_eq_ok_iff.2 ⟨f, ht, rfl⟩, .inner rfl hs⟩
  | tuple m items =>
    obtain ⟨fs, q, hfs, h⟩ := runs_bind.1 h
    obtain ⟨rfl, rfl⟩ := runs_pure.1 h
    obtain ⟨ht, hs⟩ := fragmentsOf_sound hbelow hfs
    exact ⟨bind_eq_ok_iff.2 ⟨fs, ht, rfl⟩, .inner rfl hs⟩
  | intersection m members =>
    obtain ⟨fs, q, hfs, h⟩ := runs_bind.1 h
    obtain ⟨hg, rfl⟩ := runs_ofMerge.1 h
    obtain ⟨ht, hs⟩ := fragmentsOf_sound hbelow hfs
    exact ⟨bind_eq_ok_iff.2 ⟨fs, ht, mapError_eq_ok_iff.2 hg⟩, .inner rfl hs⟩
  | union m members =>
    obtain ⟨fs, q, hfs, h⟩ := runs_bind.1 h
    obtain ⟨rfl, rfl⟩ := runs_pure.1 h
    obtain ⟨ht, hs⟩ := fragmentsOf_sound hbelow hfs
    exact ⟨bind_eq_ok_iff.2 ⟨fs, ht, rfl⟩, .inner rfl hs⟩
  | recursive m id body =>
    obtain ⟨rfl, hcases⟩ := runs_definition.1 h
    refine ⟨rfl, ?_⟩
    rcases hcases with ⟨hid, rfl⟩ | ⟨hid, d, g, q, hd, hg, rfl⟩
    · exact .again hid
    · have hbody := henter d _ g q hg
      exact .first hid hd hbody.fragment hbody.settles

theorem fragmentOf_sound (hb : ctx.registry = Registry.builtin)
    (henter : ∀ c p f p', Runs (enter c) p f p' → Sound ctx c p f p') {c : Codec} {p : Progress} {f : Fields}
    {p' : Progress} (h : Runs (fragmentOf ctx enter c) p f p') : Sound ctx c p f p' := by
  induction c using Codec.induction generalizing p f p' with
  | step c ih =>
    obtain ⟨g, hg, rfl⟩ := (runs_fragmentOf hb).1 h
    obtain ⟨hprescription, hsettles⟩ := prescribed_sound henter (fun d hd p f p' hd' => ih d hd hd') hg
    refine ⟨Codec.translate_eq_ok.2 ⟨g, hprescription, ?_⟩, hsettles⟩
    exact (described_eq (Codec.prescription_undescribed hprescription) _).symm

end

/-- **Compiling is sound**: the fragment of a codec is its translation and progress settles, however deep bodies are
entered and whatever was compiled, or is being compiled, before. -/
theorem fragmentAt_sound {ctx : Context} (hb : ctx.registry = Registry.builtin) {depth : Nat} {c : Codec}
    {p : Progress} {f : Fields} {p' : Progress} (h : Runs (fragmentAt ctx depth c) p f p') : Sound ctx c p f p' := by
  induction depth generalizing c p f p' with
  | zero => exact absurd h not_runs_throw
  | succ depth ih => exact fragmentOf_sound hb (fun c p f p' hc => ih hc) h

/-! ## Completeness -/

/-- the node can be entered: a recursive node has one of the ids and names a body that is there -/
def Codec.Entered (ctx : Context) (ids : List Text) : Codec → Prop
  | .recursive _ id body => id ∈ ids ∧ ∃ c, Entries.get? ctx.bodies body = some c
  | _ => True

/-- in the bodies every node can be entered, and every body has a translation -/
structure Complete (ctx : Context) (ids : List Text) : Prop where
  entered : ∀ body c, Entries.get? ctx.bodies body = some c → c.All (Codec.Entered ctx ids)
  translated : ∀ body c, Entries.get? ctx.bodies body = some c → ∃ f, c.translate ctx.allowAdditional = .ok f

/-- how many of the ids are not known -/
def unseen (ids known : List Text) : Nat := (ids.toFinset \ known.toFinset).card

theorem unseen_le {ids known known' : List Text} (h : known ⊆ known') : unseen ids known' ≤ unseen ids known := by
  refine Finset.card_le_card (Finset.sdiff_subset_sdiff (Finset.Subset.refl _) ?_)
  exact fun id hid => List.mem_toFinset.2 (h (List.mem_toFinset.1 hid))

theorem unseen_lt {ids known : List Text} {id : Text} (hid : id ∈ ids) (hnew : id ∉ known) :
    unseen ids (known ++ [id]) < unseen ids known := by
  refine Finset.card_lt_card (Finset.ssubset_iff_subset_ne.2 ⟨?_, fun heq => ?_⟩)
  · intro other hother
    simp only [Finset.mem_sdiff, List.mem_toFinset, List.mem_append, not_or] at hother ⊢
    exact ⟨hother.1, hother.2.1⟩
  · have hmem : id ∈ ids.toFinset \ known.toFinset := by simp [hid, hnew]
    rw [← heq] at hmem
    simp at hmem

theorem unseen_le_length (ids known : List Text) : unseen ids known ≤ ids.length :=
  (Finset.card_le_card Finset.sdiff_subset).trans ids.toFinset_card_le

section

variable {ctx : Context} {enter : Codec → Compile Fields} {ids : List Text} {bound : Nat}

/-- a codec with a translation compiles, from all progress that leaves fewer ids unseen than the bound -/
def Completes (ctx : Context) (ids : List Text) (bound : Nat) (step : Codec → Compile Fields) (c : Codec) : Prop :=
  c.All (Codec.Entered ctx ids) → ∀ p f, unseen ids (names p.definitions) < bound →
    c.translate ctx.allowAdditional = .ok f → ∃ p', Runs (step c) p f p'

theorem fragmentsOf_runs (hb : ctx.registry = Registry.builtin)
    (henter : ∀ c p f p', Runs (enter c) p f p' → Sound ctx c p f p') {cs : List Codec}
    (hcs : ∀ c ∈ cs, Completes ctx ids bound (fragmentOf ctx enter) c)
    (hentered : ∀ c ∈ cs, c.All (Codec.Entered ctx ids)) {p : Progress}
    (hp : unseen ids (names p.definitions) < bound) {fs : List Fields}
    (hfs : Codec.translateList ctx.allowAdditional cs = .ok fs) : ∃ p', Runs (fragmentsOf ctx enter cs) p fs p' := by
  induction cs generalizing p fs with
  | nil =>
    cases pure_eq_ok_iff.1 hfs
    exact ⟨p, runs_pure.2 ⟨rfl, rfl⟩⟩
  | cons c cs ih =>
    rw [Codec.translateList] at hfs
    obtain ⟨f, hf, hfs⟩ := bind_eq_ok_iff.1 hfs
    obtain ⟨gs, hgs, hfs⟩ := bind_eq_ok_iff.1 hfs
    cases pure_eq_ok_iff.1 hfs
    obtain ⟨q, hq⟩ := hcs c List.mem_cons_self (hentered c List.mem_cons_self) p f hp hf
    have hgrows := (fragmentOf_sound hb henter hq).settles.names_subset
    obtain ⟨p', hp'⟩ := ih (fun d hd => hcs d (List.mem_cons_of_mem c hd))
      (fun d hd => hentered d (List.mem_cons_of_mem c hd)) ((unseen_le hgrows).trans_lt hp) hgs
    refine ⟨p', ?_⟩
    rw [fragmentsOf]
    exact runs_bind.2 ⟨f, q, hq, runs_bind.2 ⟨gs, p', hp', runs_pure.2 ⟨rfl, rfl⟩⟩⟩

theorem prescribed_runs (hb : ctx.registry = Registry.builtin) (hcomplete : Complete ctx ids)
    (henter : ∀ c p f p', Runs (enter c) p f p' → Sound ctx c p f p')
    (hbodies : ∀ c, Completes ctx ids bound enter c) {c : Codec}
    (hbelow : ∀ d ∈ c.children, Completes ctx ids (bound + 1) (fragmentOf ctx enter) d)
    (hentered : c.All (Codec.Entered ctx ids)) {p : Progress} (hp : unseen ids (names p.definitions) < bound + 1)
    {g : Fields} (hg : c.prescription ctx.allowAdditional = .ok g) : ∃ p', Runs (prescribed ctx enter c) p g p' := by
  have hchildren : ∀ d ∈ c.children, d.All (Codec.Entered ctx ids) := fun d hd => hentered.child hd
  cases c with
  | plain m tag =>
    cases hk : tag.kind? with
    | none => simp [Codec.prescription, Codec.bareTranslation, hk] at hg
    | some k => exact ⟨p, (runs_bareFragment hk).2 ⟨hg, rfl⟩⟩
  | literal m value =>
    cases pure_eq_ok_iff.1 hg
    exact ⟨p, runs_pure.2 ⟨rfl, rfl⟩⟩
  | enum m values =>
    cases pure_eq_ok_iff.1 hg
    exact ⟨p, runs_pure.2 ⟨rfl, rfl⟩⟩
  | object m shape =>
    obtain ⟨fs, hfs, hg⟩ := bind_eq_ok_iff.1 hg
    cases pure_eq_ok_iff.1 hg
    obtain ⟨gs, hgs, rfl⟩ := Codec.translateShape_eq_ok.1 hfs
    obtain ⟨p', hp'⟩ := fragmentsOf_runs hb henter hbelow hchildren hp hgs
    exact ⟨p', runs_bind.2 ⟨_, p', runs_fragmentsOfShape.2 ⟨gs, hp', rfl⟩, runs_pure.2 ⟨rfl, rfl⟩⟩⟩
  | record m values =>
    obtain ⟨f, hf, hg⟩ := bind_eq_ok_iff.1 hg
    cases pure_eq_ok_iff.1 hg
    obtain ⟨p', hp'⟩ := hbelow values List.mem_cons_self (hchildren values List.mem_cons_self) p f hp hf
    exact ⟨p', runs_bind.2 ⟨f, p', hp', runs_pure.2 ⟨rfl, rfl⟩⟩⟩
  | array m items =>
    obtain ⟨f, hf, hg⟩ := bind_eq_ok_iff.1 hg
    cases pure_eq_ok_iff.1 hg
    obtain ⟨p', hp'⟩ := hbelow items List.mem_cons_self (hchildren items List.mem_cons_self) p f hp hf
    exact ⟨p', runs_bind.2 ⟨f, p', hp', runs_pure.2 ⟨rfl, rfl⟩⟩⟩
  | tuple m items =>
    obtain ⟨fs, hfs, hg⟩ := bind_eq_ok_iff.1 hg
    cases pure_eq_ok_iff.1 hg
    obtain ⟨p', hp'⟩ := fragmentsOf_runs hb henter hbelow hchildren hp hfs
    exact ⟨p', runs_bind.2 ⟨fs, p', hp', runs_pure.2 ⟨rfl, rfl⟩⟩⟩
  | intersection m members =>
    obtain ⟨fs, hfs, hg⟩ := bind_eq_ok_iff.1 hg
    obtain ⟨p', hp'⟩ := fragmentsOf_runs hb henter hbelow hchildren hp hfs
    exact ⟨p', runs_bind.2 ⟨fs, p', hp', runs_ofMerge.2 ⟨mapError_eq_ok_iff.1 hg, rfl⟩⟩⟩
  | union m members =>
    obtain ⟨fs, hfs, hg⟩ := bind_eq_ok_iff.1 hg
    cases pure_eq_ok_iff.1 hg
    obtain ⟨p', hp'⟩ := fragmentsOf_runs hb henter hbelow hchildren hp hfs
    exact ⟨p', runs_bind.2 ⟨fs, p', hp', runs_pure.2 ⟨rfl, rfl⟩⟩⟩
  | recursive m id body =>
    cases pure_eq_ok_iff.1 hg
    obtain ⟨hid, d, hd⟩ := hentered.here
    by_cases hnew : id ∈ names p.definitions
    · exact ⟨p, runs_definition.2 ⟨rfl, .inl ⟨hnew, rfl⟩⟩⟩
    · -- the body starts with one id less to see, so the bound below suffices for it
      obtain ⟨f, hf⟩ := hcomplete.translated body d hd
      have hless := unseen_lt hid hnew
      rw [← names_reserve hnew body] at hless
      obtain ⟨q, hq⟩ := hbodies d (hcomplete.entered body d hd) (p.reserve id body) f (by omega) hf
      exact ⟨q.define id f, runs_definition.2 ⟨rfl, .inr ⟨hnew, d, f, q, hd, hq, rfl⟩⟩⟩

theorem fragmentOf_runs (hb : ctx.registry = Registry.builtin) (hcomplete : Complete ctx ids)
    (henter : ∀ c p f p', Runs (enter c) p f p' → Sound ctx c p f p')
    (hbodies : ∀ c, Completes ctx ids bound enter c) (c : Codec) :
    Completes ctx ids (bound + 1) (fragmentOf ctx enter) c := by
  induction c using Codec.induction with
  | step c ih =>
    intro hentered p f hp hf
    obtain ⟨g, hg, rfl⟩ := Codec.translate_eq_ok.1 hf
    obtain ⟨p', hp'⟩ := prescribed_runs hb hcomplete henter hbodies ih hentered hp hg
    refine ⟨p', (runs_fragmentOf hb).2 ⟨g, hp', ?_⟩⟩
    exact (described_eq (Codec.prescription_undescribed hg) _).symm

end

/-- **Compiling is complete**: a codec with a translation compiles when the bound exceeds the number of ids that are
not defined, and its fragment is the translation. -/
theorem fragmentAt_runs {ctx : Context} (hb : ctx.registry = Registry.builtin) {ids : List Text}
    (hcomplete : Complete ctx ids) {depth : Nat} (c : Codec) : Completes ctx ids depth (fragmentAt ctx depth) c := by
  induction depth generalizing c with
  | zero => exact fun _ p f hp => absurd hp (Nat.not_lt_zero _)
  | succ depth ih =>
    exact fragmentOf_runs hb hcomplete (fun c p f p' hc => fragmentAt_sound hb hc) (fun d => ih d) c

end CodecCompiler
