/-
How deep a compilation goes. The compiler enters bodies and the codecs of handlers up to a bound; the bound of `compile`
stands for no bound at all, as long as handlers run no programs of their own.

- `Compile.Ends`: a step does not run into the bound.
- `Onward`: the progress that can be reached, and the ids that are new in it.
- `Mirrors`: a step goes on as another does wherever that one ends. `mirrors_fragmentOf`: the compiler goes on as it
  does with other bounds, when it does so on what it enters.
- `fragmentAt_unique`: all bounds at which a call of the compiler ends give the same.
- `Held` are codecs of handlers under way since the last new id: where a call ends, none of them is entered again
  without one. `affordable`: so ids and handlers together bound how deep the call goes.
- `compile_of_ends`: what ends at any bound is what `compile` does.
-/
import CodecCompiler.Proofs.Steps

namespace CodecCompiler

open Entries (names get?)
open Compile

namespace Compile

variable {α : Type} {step : Compile α} {p q : Progress}

/-- the step does not run into the bound -/
def Ends (step : Compile α) (p : Progress) : Prop := (step.runFrom p).1 ≠ .error .endless

theorem ends_of_runs {a : α} (h : Runs step p a q) : step.Ends p := by
  unfold Ends
  rw [show step.runFrom p = _ from h]
  simp

theorem ends_of_error {e : CompileError} (h : step.runFrom p = (.error e, q)) : step.Ends p ↔ e ≠ .endless := by
  unfold Ends
  rw [h]
  simp

end Compile

/-! ## Progress that can be reached -/

/-- progress goes on: definitions of new ids come behind those that are there, one body is asked for with each, and all
these ids are of a given sort -/
def Onward (sort : Text → Prop) (p p' : Progress) : Prop :=
  ∃ added asked, p'.definitions = p.definitions ++ added ∧ p'.resolved = p.resolved ++ asked ∧
    asked.length = added.length ∧ ∀ id ∈ names added, sort id ∧ id ∉ names p.definitions

namespace Onward

variable {sort : Text → Prop} {p q r : Progress}

theorem refl (sort : Text → Prop) (p : Progress) : Onward sort p p := ⟨[], [], by simp, by simp, rfl, by simp⟩

theorem trans (h : Onward sort p q) (h' : Onward sort q r) : Onward sort p r := by
  obtain ⟨added, asked, hdefinitions, hresolved, hlength, hnew⟩ := h
  obtain ⟨added', asked', hdefinitions', hresolved', hlength', hnew'⟩ := h'
  refine ⟨added ++ added', asked ++ asked', ?_, ?_, ?_, ?_⟩
  · rw [hdefinitions', hdefinitions, List.append_assoc]
  · rw [hresolved', hresolved, List.append_assoc]
  · rw [List.length_append, List.length_append, hlength, hlength']
  · intro id hid
    rw [Entries.names_append, List.mem_append] at hid
    rcases hid with hid | hid
    · exact hnew id hid
    · obtain ⟨hsort, hout⟩ := hnew' id hid
      rw [hdefinitions, Entries.names_append, List.mem_append, not_or] at hout
      exact ⟨hsort, hout.1⟩

theorem reserve {id : Text} (hsort : sort id) (hid : id ∉ names p.definitions) (body : Text) :
    Onward sort p (p.reserve id body) := by
  refine ⟨[(id, .obj [])], [body], Entries.names_set_of_not_mem hid _, rfl, rfl, ?_⟩
  intro other hother
  rw [List.mem_singleton.1 hother]
  exact ⟨hsort, hid⟩

/-- the definition of an id that was new stands where it was reserved -/
theorem define {id body : Text} (hsort : sort id) (hid : id ∉ names p.definitions)
    (h : Onward sort (p.reserve id body) q) (f : Fields) : Onward sort p (q.define id f) := by
  obtain ⟨added, asked, hdefinitions, hresolved, hlength, hnew⟩ := h
  have hreserved : (p.reserve id body).definitions = p.definitions ++ [(id, .obj [])] :=
    Entries.names_set_of_not_mem hid _
  refine ⟨(id, .obj f) :: added, body :: asked, ?_, ?_, ?_, ?_⟩
  · rw [Progress.define, hdefinitions, hreserved, List.append_assoc, List.singleton_append]
    exact Entries.set_middle hid added _ _
  · rw [Progress.define, hresolved, Progress.reserve, List.append_assoc, List.singleton_append]
  · rw [List.length_cons, List.length_cons, hlength]
  · intro other hother
    rw [Entries.names_cons] at hother
    rcases List.mem_cons.1 hother with rfl | hother
    · exact ⟨hsort, hid⟩
    · obtain ⟨hother, hout⟩ := hnew other hother
      rw [names_reserve hid body, List.mem_append, not_or] at hout
      exact ⟨hother, hout.1⟩

theorem length_le (h : Onward sort p q) : p.definitions.length ≤ q.definitions.length := by
  obtain ⟨added, asked, hdefinitions, -⟩ := h
  rw [hdefinitions, List.length_append]
  exact Nat.le_add_right _ _

/-- without a new id progress has not gone on at all -/
theorem eq_or_lt (h : Onward sort p q) : q = p ∨ p.definitions.length < q.definitions.length := by
  obtain ⟨added, asked, hdefinitions, hresolved, hlength, -⟩ := h
  cases added with
  | nil =>
    rw [List.length_nil, List.length_eq_zero_iff] at hlength
    rw [List.append_nil] at hdefinitions
    rw [hlength, List.append_nil] at hresolved
    obtain ⟨definitions, resolved⟩ := q
    exact Or.inl (congrArg₂ Progress.mk hdefinitions hresolved)
  | cons e added =>
    rw [hdefinitions, List.length_append, List.length_cons]
    exact Or.inr (by omega)

theorem unseen_lt {ids : List Text} (h : Onward (· ∈ ids) p q) (hlt : p.definitions.length < q.definitions.length) :
    unseen ids (names q.definitions) < unseen ids (names p.definitions) := by
  obtain ⟨added, asked, hdefinitions, -, -, hnew⟩ := h
  cases added with
  | nil =>
    rw [hdefinitions, List.append_nil] at hlt
    exact absurd hlt (lt_irrefl _)
  | cons e added =>
    obtain ⟨hid, hout⟩ := hnew e.1 List.mem_cons_self
    have hsubset : names p.definitions ++ [e.1] ⊆ names q.definitions := by
      rw [hdefinitions, Entries.names_append, Entries.names_cons]
      exact List.append_subset.2 ⟨List.subset_append_left _ _, by simp⟩
    exact (unseen_le hsubset).trans_lt (CodecCompiler.unseen_lt hid hout)

end Onward

theorem sequential_onward (sort : Text → Prop) : Sequential fun _ => Onward sort :=
  ⟨fun _ => Onward.refl sort, Onward.trans⟩

/-! ## Steps that mirror each other -/

/-- the first step leads onward, and where it ends the second one does the same -/
structure Mirrors {α : Type} (sort : Text → Prop) (x y : Compile α) (p : Progress) : Prop where
  leads : Onward sort p (x.runFrom p).2
  same : x.Ends p → y.runFrom p = x.runFrom p

namespace Mirrors

variable {α β : Type} {sort : Text → Prop} {p : Progress}

theorem self {x : Compile α} (h : Follows (fun _ => Onward sort) x) (p : Progress) : Mirrors sort x x p :=
  ⟨h p, fun _ => rfl⟩

theorem bind {x y : Compile α} {f g : α → Compile β} (h : Mirrors sort x y p)
    (hnext : ∀ a q, Runs x p a q → Mirrors sort (f a) (g a) q) : Mirrors sort (x >>= f) (y >>= g) p := by
  obtain ⟨hleads, hsame⟩ := h
  rcases hx : x.runFrom p with ⟨e | a, q⟩
  · rw [hx] at hleads
    have hrun : (x >>= f).runFrom p = (.error e, q) := by rw [runFrom_bind, hx]
    refine ⟨by rwa [hrun], fun hends => ?_⟩
    have hfirst : x.Ends p := (ends_of_error hx).2 ((ends_of_error hrun).1 hends)
    rw [hrun, runFrom_bind, hsame hfirst, hx]
  · rw [hx] at hleads
    have hrun : (x >>= f).runFrom p = (f a).runFrom q := by rw [runFrom_bind, hx]
    obtain ⟨hrest, hagree⟩ := hnext a q hx
    refine ⟨by rw [hrun]; exact hleads.trans hrest, fun hends => ?_⟩
    unfold Ends at hends
    rw [hrun] at hends
    rw [hrun, runFrom_bind, hsame (ends_of_runs hx), hx]
    exact hagree hends

theorem map {x y : Compile α} {f : α → β} (h : Mirrors sort x y p) :
    Mirrors sort (do return f (← x)) (do return f (← y)) p :=
  h.bind fun a q _ => self (follows_pure (sequential_onward sort) (f a)) q

end Mirrors

/-! ## The compiler -/

/-- some handler runs a program of its own -/
def Registry.Scripted (registry : Registry) : Prop := ∃ h ∈ registry, ∃ script, h.action = .custom script

/-- what the compiler enters from progress `p` on is mirrored: bodies once there is a new id, the codecs of handlers
any time, and all codecs where programs run -/
structure Mirrored (ctx : Context) (sort : Text → Prop) (p : Progress) (enter enter' : Codec → Compile Fields) :
    Prop where
  bodies : ∀ name c q, get? ctx.bodies name = some c → Onward sort p q →
    p.definitions.length < q.definitions.length → Mirrors sort (enter c) (enter' c) q
  payloads : ∀ c q, c ∈ ctx.payloads → Onward sort p q → Mirrors sort (enter c) (enter' c) q
  scripts : ctx.registry.Scripted → ∀ c q, Onward sort p q → Mirrors sort (enter c) (enter' c) q

theorem mem_payloads {ctx : Context} {h : Handler} (hh : h ∈ ctx.registry) {c : Codec}
    (hc : h.action.payload? = some c) : c ∈ ctx.payloads := List.mem_filterMap.2 ⟨h, hh, hc⟩

section

variable {ctx : Context} {sort : Text → Prop} {p q : Progress} {enter enter' : Codec → Compile Fields}
  {builtin builtin' : Compile Fields}

theorem mirrors_program (h : ∀ c q, Onward sort p q → Mirrors sort (enter c) (enter' c) q)
    (hbuiltin : ∀ q, Onward sort p q → Mirrors sort builtin builtin' q) (program : Program) (hq : Onward sort p q) :
    Mirrors sort (program.run enter builtin) (program.run enter' builtin') q := by
  induction program generalizing q with
  | give f => exact .self (follows_pure (sequential_onward sort) f) q
  | fail e => exact .self (follows_throw (sequential_onward sort) e) q
  | compile c next ih =>
    have hfirst := h c q hq
    refine hfirst.bind fun f r hr => ih f (hq.trans ?_)
    have hleads := hfirst.leads
    rwa [show (enter c).runFrom q = _ from hr] at hleads
  | prescribed next ih =>
    have hfirst := hbuiltin q hq
    refine hfirst.bind fun f r hr => ih f (hq.trans ?_)
    have hleads := hfirst.leads
    rwa [show builtin.runFrom q = _ from hr] at hleads

theorem mirrors_handled (h : Mirrored ctx sort p enter enter')
    (hbuiltin : ∀ q, Onward sort p q → Mirrors sort builtin builtin' q) (c : Codec) (hq : Onward sort p q) :
    Mirrors sort (handled ctx enter c builtin) (handled ctx enter' c builtin') q := by
  have hR := sequential_onward sort
  unfold handled
  cases hfind : ctx.registry.find? c.tag with
  | none => exact .self (follows_throw hR _) q
  | some handler =>
    have hmem : handler ∈ ctx.registry := List.mem_of_find?_eq_some hfind
    apply Mirrors.map
    cases haction : handler.action with
    | builtin => exact hbuiltin q hq
    | constant f => exact .self (follows_pure hR f) q
    | reportCache => exact .self (follows_bind hR (follows_get hR) fun _ => follows_pure hR _) q
    | reportContext => exact .self (follows_pure hR _) q
    | delegate key other => exact (h.payloads other q (mem_payloads hmem (by rw [haction]; rfl)) hq).map
    | replace other => exact h.payloads other q (mem_payloads hmem (by rw [haction]; rfl)) hq
    | extend extra => exact (hbuiltin q hq).map
    | custom script => exact mirrors_program (h.scripts ⟨handler, hmem, script, haction⟩) hbuiltin _ hq

theorem mirrors_definition (h : Mirrored ctx sort p enter enter') {id : Text} (hid : sort id) (body : Text)
    (hq : Onward sort p q) :
    Mirrors sort (definition ctx enter id body) (definition ctx enter' id body) q := by
  by_cases hknown : id ∈ names q.definitions
  · have hrun : ∀ enter, (definition ctx enter id body).runFrom q = (.ok (reference id), q) := fun enter => by
      rw [runFrom_definition, if_pos hknown]
    refine ⟨?_, fun _ => by rw [hrun, hrun]⟩
    rw [hrun]
    exact .refl sort q
  have hreserved : Onward sort q (q.reserve id body) := .reserve hid hknown body
  have hlength : q.definitions.length < (q.reserve id body).definitions.length := by
    have hnames := congrArg List.length (names_reserve hknown body)
    simp only [names, List.length_map, List.length_append, List.length_singleton] at hnames
    omega
  cases hc : get? ctx.bodies body with
  | none =>
    have hrun : ∀ enter, (definition ctx enter id body).runFrom q = (.error (.noBody body), q.reserve id body) :=
      fun enter => by rw [runFrom_definition, if_neg hknown, hc]
    refine ⟨?_, fun _ => by rw [hrun, hrun]⟩
    rw [hrun]
    exact hreserved
  | some c =>
    obtain ⟨hleads, hsame⟩ := h.bodies body c (q.reserve id body) hc (hq.trans hreserved)
      (hq.length_le.trans_lt hlength)
    rcases hbody : (enter c).runFrom (q.reserve id body) with ⟨e | f, r⟩
    · rw [hbody] at hleads
      have hrun : (definition ctx enter id body).runFrom q = (.error e, r) := by
        simp only [runFrom_definition, if_neg hknown, hc, hbody]
      refine ⟨by rw [hrun]; exact hreserved.trans hleads, fun hends => ?_⟩
      have hbelow := hsame ((ends_of_error hbody).2 ((ends_of_error hrun).1 hends))
      rw [hrun]
      simp only [runFrom_definition, if_neg hknown, hc, hbelow, hbody]
    · rw [hbody] at hleads
      have hrun : (definition ctx enter id body).runFrom q = (.ok (reference id), r.define id f) := by
        simp only [runFrom_definition, if_neg hknown, hc, hbody]
      refine ⟨by rw [hrun]; exact Onward.define hid hknown hleads f, fun _ => ?_⟩
      have hbelow := hsame (ends_of_runs hbody)
      rw [hrun]
      simp only [runFrom_definition, if_neg hknown, hc, hbelow, hbody]

theorem mirrors_fragmentsOf {cs : List Codec}
    (hcs : ∀ c ∈ cs, ∀ q, Onward sort p q → Mirrors sort (fragmentOf ctx enter c) (fragmentOf ctx enter' c) q)
    (hq : Onward sort p q) : Mirrors sort (fragmentsOf ctx enter cs) (fragmentsOf ctx enter' cs) q := by
  induction cs generalizing q with
  | nil => exact .self (follows_pure (sequential_onward sort) []) q
  | cons c cs ih =>
    have hfirst := hcs c List.mem_cons_self q hq
    rw [fragmentsOf, fragmentsOf]
    refine hfirst.bind fun f r hr => (ih (fun d hd => hcs d (List.mem_cons_of_mem c hd)) (hq.trans ?_)).map
    have hleads := hfirst.leads
    rwa [show (fragmentOf ctx enter c).runFrom q = _ from hr] at hleads

theorem follows_assembled {R : Bool → Progress → Progress → Prop} (hR : Sequential R) (c : Codec) (fs : List Fields) :
    Follows R (assembled ctx c fs) := by
  cases c with
  | plain m tag => exact follows_bareFragment hR tag
  | intersection m members => exact follows_ofMerge hR _
  | _ => exact follows_pure hR _

/-- **The compiler goes on alike** with other ways to enter codecs, when these go on alike on what it enters. -/
theorem mirrors_fragmentOf (h : Mirrored ctx sort p enter enter') {c : Codec} (hc : ∀ id ∈ c.ids, sort id)
    (hq : Onward sort p q) : Mirrors sort (fragmentOf ctx enter c) (fragmentOf ctx enter' c) q := by
  induction c using Codec.induction generalizing q with
  | step c ih =>
    rw [fragmentOf_eq, fragmentOf_eq]
    refine mirrors_handled h (fun r hr => ?_) c hq
    rcases c.recursive_or with ⟨m, id, body, rfl⟩ | hkind
    · exact mirrors_definition h (hc id List.mem_cons_self) body hr
    · rw [prescribed_eq hkind, prescribed_eq hkind]
      have hbelow := mirrors_fragmentsOf
        (fun d hd q hq => ih d hd (fun id hid => hc id (Codec.ids_child hd hid)) hq) hr
      exact hbelow.bind fun fs s _ => .self (follows_assembled (sequential_onward sort) c fs) s

end

/-! ## Any bound at which a call ends -/

section

variable {ctx : Context} {p : Progress} {c : Codec} {depth depth' : Nat}

theorem not_ends_zero : ¬ (fragmentAt ctx 0 c).Ends p := fun h => h rfl

theorem exists_first_end (h : (fragmentAt ctx depth c).Ends p) :
    ∃ first ≤ depth, (fragmentAt ctx first c).Ends p ∧ ∀ n < first, ¬ (fragmentAt ctx n c).Ends p := by
  classical
  have hex : ∃ n, (fragmentAt ctx n c).Ends p := ⟨depth, h⟩
  exact ⟨Nat.find hex, Nat.find_le h, Nat.find_spec hex, fun n hn => Nat.find_min hex hn⟩

theorem fragmentAt_succ (depth : Nat) (c : Codec) (p : Progress) :
    Mirrors (fun _ => True) (fragmentAt ctx depth c) (fragmentAt ctx (depth + 1) c) p := by
  induction depth generalizing c p with
  | zero => exact ⟨.refl _ p, fun h => absurd h not_ends_zero⟩
  | succ depth ih =>
    have hmirrored : Mirrored ctx (fun _ => True) p (fragmentAt ctx depth) (fragmentAt ctx (depth + 1)) :=
      ⟨fun _ d q _ _ _ => ih d q, fun d q _ _ => ih d q, fun _ d q _ => ih d q⟩
    exact mirrors_fragmentOf hmirrored (fun _ _ => trivial) (.refl _ p)

/-- a call that ends gives the same at every greater bound -/
theorem fragmentAt_mono (hle : depth ≤ depth') (h : (fragmentAt ctx depth c).Ends p) :
    (fragmentAt ctx depth' c).runFrom p = (fragmentAt ctx depth c).runFrom p := by
  induction depth', hle using Nat.le_induction with
  | base => rfl
  | succ n _ ih =>
    have hends : (fragmentAt ctx n c).Ends p := by
      unfold Ends
      rwa [ih]
    exact ((fragmentAt_succ n c p).same hends).trans ih

/-- **Bounds do not matter**: a call of the compiler gives the same at all bounds at which it ends. -/
theorem fragmentAt_unique (h : (fragmentAt ctx depth c).Ends p) (h' : (fragmentAt ctx depth' c).Ends p) :
    (fragmentAt ctx depth' c).runFrom p = (fragmentAt ctx depth c).runFrom p := by
  rcases Nat.le_total depth depth' with hle | hle
  · exact fragmentAt_mono hle h
  · exact (fragmentAt_mono hle h').symm

end

/-! ## A bound that suffices -/

section

variable {ctx : Context} {ids : List Text} {p : Progress} {c : Codec} {depth level : Nat} {held : List Codec}

/-- no handler runs a program, and all recursive nodes that can be entered have one of the ids -/
structure Context.Within (ctx : Context) (ids : List Text) : Prop where
  unscripted : ¬ ctx.registry.Scripted
  bodies : ∀ name c, get? ctx.bodies name = some c → c.ids ⊆ ids
  payloads : ∀ c ∈ ctx.payloads, c.ids ⊆ ids

theorem onward_fragmentAt (hctx : ctx.Within ids) (depth : Nat) (hc : c.ids ⊆ ids) (p : Progress) :
    Onward (· ∈ ids) p ((fragmentAt ctx depth c).runFrom p).2 := by
  induction depth generalizing c p with
  | zero => exact .refl _ p
  | succ depth ih =>
    have hmirrored : Mirrored ctx (· ∈ ids) p (fragmentAt ctx depth) (fragmentAt ctx depth) :=
      ⟨fun name d q hd _ _ => ⟨ih (hctx.bodies name d hd) q, fun _ => rfl⟩,
        fun d q hd _ => ⟨ih (hctx.payloads d hd) q, fun _ => rfl⟩, fun h => absurd h hctx.unscripted⟩
    exact (mirrors_fragmentOf hmirrored (fun id hid => hc hid) (.refl _ p)).leads

/-- codecs of handlers that do not end below a level, from progress at which they are under way -/
structure Held (ctx : Context) (level : Nat) (p : Progress) (held : List Codec) : Prop where
  distinct : held.Nodup
  payloads : held ⊆ ctx.payloads
  unended : ∀ c ∈ held, ∀ depth < level, ¬ (fragmentAt ctx depth c).Ends p

/-- a bound for what is entered behind held codecs: each id that is not known may let every codec of a handler in once
more -/
def Context.price (ctx : Context) (ids : List Text) (p : Progress) (held : List Codec) : Nat :=
  unseen ids (names p.definitions) * (ctx.payloads.length + 1) + (ctx.payloads.length - held.length) + 1

theorem Held.nil (ctx : Context) (level : Nat) (p : Progress) : Held ctx level p [] :=
  ⟨List.nodup_nil, List.nil_subset _, by simp⟩

theorem Held.length_le (h : Held ctx level p held) : held.length ≤ ctx.payloads.length :=
  (h.distinct.subperm h.payloads).length_le

/-- entering one more codec of a handler, at the first level at which it ends -/
theorem Held.cons (h : Held ctx level p held) (hc : c ∈ ctx.payloads) (hlevel : depth < level)
    (hends : (fragmentAt ctx depth c).Ends p) (hfirst : ∀ n < depth, ¬ (fragmentAt ctx n c).Ends p) :
    Held ctx depth p (c :: held) := by
  have hnew : c ∉ held := fun hmem => h.unended c hmem depth hlevel hends
  refine ⟨List.nodup_cons.2 ⟨hnew, h.distinct⟩, List.cons_subset.2 ⟨hc, h.payloads⟩, ?_⟩
  intro d hd n hn
  rcases List.mem_cons.1 hd with rfl | hd
  · exact hfirst n hn
  · exact h.unended d hd n (hn.trans hlevel)

theorem price_cons (h : Held ctx level p (c :: held)) : ctx.price ids p (c :: held) < ctx.price ids p held := by
  have hlength := h.length_le
  rw [List.length_cons] at hlength
  unfold Context.price
  rw [List.length_cons]
  omega

theorem price_onward {q : Progress} (h : Onward (· ∈ ids) p q)
    (hlt : p.definitions.length < q.definitions.length) (held : List Codec) :
    ctx.price ids q [] < ctx.price ids p held := by
  have hless := h.unseen_lt hlt
  have hmul := Nat.mul_le_mul_right (ctx.payloads.length + 1) hless
  rw [Nat.succ_mul] at hmul
  unfold Context.price
  rw [List.length_nil]
  omega

/-- calls that end at the level end at their price -/
def Affordable (ctx : Context) (ids : List Text) (level : Nat) : Prop :=
  ∀ {c p held depth}, c.ids ⊆ ids → Held ctx level p held → (fragmentAt ctx level c).Ends p →
    ctx.price ids p held ≤ depth → (fragmentAt ctx depth c).Ends p

/-- what a call enters has a lower price: it is entered with a new id, or behind one more codec of a handler -/
theorem mirrored_of_affordable (hctx : ctx.Within ids) (hbelow : ∀ n ≤ level, Affordable ctx ids n)
    (hheld : Held ctx (level + 1) p held) (hprice : ctx.price ids p held ≤ depth + 1) :
    Mirrored ctx (· ∈ ids) p (fragmentAt ctx level) (fragmentAt ctx depth) := by
  have mirrors : ∀ c q, c.ids ⊆ ids → ((fragmentAt ctx level c).Ends q → (fragmentAt ctx depth c).Ends q) →
      Mirrors (· ∈ ids) (fragmentAt ctx level c) (fragmentAt ctx depth c) q :=
    fun c q hc h => ⟨onward_fragmentAt hctx level hc q, fun hends => fragmentAt_unique hends (h hends)⟩
  have hnew : ∀ c q, c.ids ⊆ ids → Onward (· ∈ ids) p q → p.definitions.length < q.definitions.length →
      (fragmentAt ctx level c).Ends q → (fragmentAt ctx depth c).Ends q := by
    intro c q hc hq hlt hends
    have hless : ctx.price ids q [] < ctx.price ids p held := price_onward hq hlt held
    exact hbelow level le_rfl hc (.nil ctx level q) hends (by omega)
  refine ⟨fun name c q hbody hq hlt => ?_, fun c q hpayload hq => ?_, fun h => absurd h hctx.unscripted⟩
  · have hc := hctx.bodies name c hbody
    exact mirrors c q hc (hnew c q hc hq hlt)
  · have hc := hctx.payloads c hpayload
    refine mirrors c q hc fun hends => ?_
    rcases hq.eq_or_lt with rfl | hlt
    · -- no new id: the codec is not held yet, and held from the first level at which it ends
      obtain ⟨first, hle, hfirst, hbefore⟩ := exists_first_end hends
      have hcons := hheld.cons hpayload (Nat.lt_succ_of_le hle) hfirst hbefore
      have hless : ctx.price ids q (c :: held) < ctx.price ids q held := price_cons hcons
      exact hbelow first hle hc hcons hfirst (by omega)
    · exact hnew c q hc hq hlt hends

/-- **A call that ends at some level ends at its price.** -/
theorem affordable (hctx : ctx.Within ids) (level : Nat) : Affordable ctx ids level := by
  induction level using Nat.strong_induction_on with
  | _ level ih =>
    intro c p held depth hc hheld hends hprice
    cases level with
    | zero => exact absurd hends not_ends_zero
    | succ level =>
      have hpos : depth ≠ 0 := by
        unfold Context.price at hprice
        omega
      obtain ⟨depth, rfl⟩ := Nat.exists_eq_add_one_of_ne_zero hpos
      have hmirrored := mirrored_of_affordable hctx (fun n hn => ih n (Nat.lt_succ_of_le hn)) hheld hprice
      have hsame := (mirrors_fragmentOf hmirrored (fun id hid => hc hid) (.refl _ p)).same hends
      unfold Ends
      rw [fragmentAt, hsame]
      exact hends

end

/-- the ids of a context's bodies and handlers, and of a codec -/
def Context.ids (ctx : Context) (c : Codec) : List Text :=
  c.ids ++ Codec.idsEntries ctx.bodies ++ Codec.idsList ctx.payloads

theorem within_ids {ctx : Context} (h : ¬ ctx.registry.Scripted) (c : Codec) : ctx.Within (ctx.ids c) := by
  refine ⟨h, fun name d hd id hid => ?_, fun d hd id hid => ?_⟩
  · exact List.mem_append_left _ (List.mem_append_right _ (Codec.ids_of_body hd hid))
  · refine List.mem_append_right _ ?_
    rw [Codec.idsList_eq]
    exact List.mem_flatMap.2 ⟨d, hd, hid⟩

/-- **The bound of `compile` is no bound**: where no handler runs a program, what ends at any bound is what `compile`
does. -/
theorem compile_of_ends {ctx : Context} (hscripts : ¬ ctx.registry.Scripted) {depth : Nat} {c : Codec} {p : Progress}
    (h : (fragmentAt ctx depth c).Ends p) : (compile ctx c).runFrom p = (fragmentAt ctx depth c).runFrom p := by
  refine fragmentAt_unique h (affordable (within_ids hscripts c) depth ?_ (.nil ctx depth p) h ?_)
  · exact fun id hid => List.mem_append_left _ (List.mem_append_left _ hid)
  · have hunseen := unseen_le_length (ctx.ids c) (names p.definitions)
    have hmul := Nat.mul_le_mul_right (ctx.payloads.length + 1) hunseen
    unfold Context.price Context.depth
    rw [List.length_nil]
    change _ ≤ ((ctx.ids c).length + 1) * (ctx.payloads.length + 1) + 1 + _
    rw [Nat.succ_mul]
    omega

end CodecCompiler
