/-
Codecs without a handler. Where custom handlers are of custom tags and give fragments that no merge reads from, a tag
that nobody handles is all that can go wrong in a compilation, and it stops at the first one.

- `Fragment.Joinable`: a fragment that merges with all others like it; `Fragment.Apart` is one with nothing to merge.
- `Context.Calm`: the first handlers of tags are the built-in ones or of fragments to which nothing is merged.
- `assembled_joinable`: kinds make fragments that merge of such fragments.
- `Opens`: progress goes on by the ids that are opened on the way, whose bodies were asked for.
- `Passes`: a step passes all nodes of a trace, or stops at the first one that has no handler.
- `fragmentAt_passes`: a call of the compiler passes the nodes that the traversal of its codec meets.
- `generate_stops_iff`: so it is with the compilation of a system, which ends in a complete document otherwise.
-/
import CodecCompiler.Proofs.Meetings
import CodecCompiler.Proofs.Meaning
import CodecCompiler.Proofs.Traversal

namespace CodecCompiler

open Entries (names get?)
open Compile

/-! ## Fragments that merge -/

namespace Fragment

/-- a fragment that merges with all others like it -/
def Joinable (f : Fields) : Prop := Ready (fun _ => True) f

/-- a fragment without the fields that merges read -/
def Apart (f : Fields) : Prop := ∀ name ∈ (["anyOf", "properties", "required"] : List Text), name ∉ names f

variable {f : Fields} {d : Option Text}

theorem joinable_of_single (hmergeable : Mergeable f) (hnone : alternatives? f = none) : Joinable f :=
  .of_single hmergeable trivial hnone

theorem joinable_described (hund : Undescribed f) (h : Joinable f) : Joinable (described d f) := by
  rw [described_eq hund]
  exact h.noted trivial

theorem names_described {name : Text} (h : name ∈ names (described d f)) : name = "description" ∨ name ∈ names f := by
  unfold described at h
  cases d with
  | none => exact Or.inr h
  | some d =>
    simp only at h
    split_ifs at h
    · exact Or.inr h
    · simpa [Entries.mem_names_merge] using h

theorem joinable_of_apart (h : Apart f) : Joinable (described d f) := by
  have hnone : ∀ name ∈ (["anyOf", "properties", "required"] : List Text), get? (described d f) name = none := by
    intro name hname
    rw [Entries.get?_eq_none_iff]
    intro hmem
    rcases names_described hmem with rfl | hmem
    · simp at hname
    · exact h name hname hmem
  have hmergeable : Mergeable (described d f) := by
    rw [mergeable_iff]
    constructor
    · intro v hv
      rw [hnone "properties" (by simp)] at hv
      exact nomatch hv
    · intro v hv
      rw [hnone "required" (by simp)] at hv
      exact nomatch hv
  apply joinable_of_single hmergeable
  unfold alternatives?
  rw [hnone "anyOf" (by simp)]

end Fragment

open Fragment

/-! ## Handlers that stay calm -/

/-- does the registry of a context have a handler of a tag -/
def Context.handles (ctx : Context) (tag : Tag) : Bool := (ctx.registry.find? tag).isSome

/-- the first handler of a kind does what the kind prescribes, and that of another tag gives a fragment that merges read
nothing from -/
structure Context.Calm (ctx : Context) : Prop where
  kinds : ∀ tag k, tag.kind? = some k → ∃ h, ctx.registry.find? tag = some h ∧ h.action = .builtin
  others : ∀ tag h, tag.kind? = none → ctx.registry.find? tag = some h → ∃ f, h.action = .constant f ∧ Apart f

namespace Codec

/-- a recursive node names a body that is there, and a codec that is only a tag has no tag of a structure -/
def Furnished (bodies : Bodies) : Codec → Prop
  | .plain _ tag => ∀ k, tag.kind? = some k → ∃ p, k = .primitive p
  | .recursive _ _ body => ∃ c, get? bodies body = some c
  | _ => True

end Codec

section

variable {ctx : Context} {enter : Codec → Compile Fields}

/-- kinds make fragments that merge of such fragments, whatever their description -/
theorem assembled_joinable {c : Codec} (hc : c.Furnished ctx.bodies) {k : Kind} (hk : c.tag.kind? = some k)
    {fs : List Fields} (hfs : ∀ f ∈ fs, Joinable f) :
    ∃ g, assembled ctx c fs = pure g ∧ ∀ d, Joinable (described d g) := by
  have single : ∀ {g : Fields}, Undescribed g → Mergeable g → alternatives? g = none → ∀ d, Joinable (described d g) :=
    fun hund hmergeable hnone d => joinable_described hund (joinable_of_single hmergeable hnone)
  cases c with
  | plain m tag =>
    obtain ⟨p, rfl⟩ := hc k hk
    change ∃ g, bareFragment tag = pure g ∧ _
    unfold bareFragment
    rw [show tag.kind? = some (.primitive p) from hk]
    cases p with
    | any => exact ⟨_, rfl, single (by simp) ⟨rfl, rfl⟩ rfl⟩
    | _ => exact ⟨_, rfl, single (by simp) ⟨rfl, rfl⟩ rfl⟩
  | literal | enum => exact ⟨_, rfl, single (by simp) ⟨rfl, rfl⟩ rfl⟩
  | object => exact ⟨_, rfl, single (by simp [objectFragment, Fragment.object]) ⟨rfl, rfl⟩ rfl⟩
  | record => exact ⟨_, rfl, single (by simp [recordFragment]) ⟨rfl, rfl⟩ rfl⟩
  | array => exact ⟨_, rfl, single (by simp [arrayFragment]) ⟨rfl, rfl⟩ rfl⟩
  | tuple => exact ⟨_, rfl, single (by simp [tupleFragment]) ⟨rfl, rfl⟩ rfl⟩
  | recursive => exact ⟨_, rfl, single (by simp [reference]) ⟨rfl, rfl⟩ rfl⟩
  | intersection m members =>
    obtain ⟨g, hg, hund, hready⟩ : ∃ g, intersect fs ctx.allowAdditional = .ok g ∧ Undescribed g ∧ Joinable g :=
      Ready.intersect (fun _ _ => trivial) (fun _ _ => trivial) hfs
    refine ⟨g, ?_, fun d => joinable_described hund hready⟩
    rw [assembled, hg]
    rfl
  | union m members =>
    refine ⟨_, rfl, fun d => joinable_described (by simp) (.of_branches trivial fun b hb => ?_)⟩
    exact ⟨(hfs b hb).mergeable, trivial⟩

end

/-! ## Steps that pass the nodes of a trace -/

/-- progress goes on by the ids that the nodes open, and their bodies were asked for -/
structure Opens (p p' : Progress) (nodes : List Codec) : Prop where
  ids : names p'.definitions = names p.definitions ++ names (opened (names p.definitions) nodes)
  resolved : p'.resolved = p.resolved ++ (opened (names p.definitions) nodes).map (·.2)

namespace Opens

variable {p q r : Progress} {nodes nodes' : List Codec}

theorem refl (p : Progress) : Opens p p [] := ⟨by simp [opened], by simp [opened]⟩

theorem trans (h : Opens p q nodes) (h' : Opens q r nodes') : Opens p r (nodes ++ nodes') := by
  constructor
  · rw [h'.ids, h.ids, opened_append, Entries.names_append, List.append_assoc]
  · rw [h'.resolved, h.resolved, opened_append, h.ids, List.map_append, List.append_assoc]

theorem inner {c : Codec} (hc : c.isRecursive = false) (h : Opens p q nodes) : Opens p q (c :: nodes) := by
  constructor
  · rw [h.ids, opened_inner hc]
  · rw [h.resolved, opened_inner hc]

theorem again {m : Marks} {id body : Text} (hid : id ∈ names p.definitions) :
    Opens p p [.recursive m id body] := by
  constructor
  · rw [opened_again hid]
    simp [opened]
  · rw [opened_again hid]
    simp [opened]

/-- what the body of a new id opens comes behind the id itself -/
theorem first {m : Marks} {id body : Text} (hid : id ∉ names p.definitions) (h : Opens (p.reserve id body) q nodes) :
    Opens p q (.recursive m id body :: nodes) := by
  have hnames := names_reserve hid body
  constructor
  · rw [h.ids, hnames, opened_first hid, Entries.names_cons, List.append_assoc, List.singleton_append]
  · rw [h.resolved, hnames, opened_first hid, Progress.reserve, List.map_cons, List.append_assoc,
      List.singleton_append]

/-- defining an id that was reserved opens nothing -/
theorem define (h : Opens p q nodes) {id : Text} (hid : id ∈ names q.definitions) (f : Fields) :
    Opens p (q.define id f) nodes := by
  constructor
  · rw [Progress.define, Entries.names_set_of_mem hid, h.ids]
  · exact h.resolved

end Opens

/-- either a step passes the nodes of a trace, all of which have handlers, and ends with something good, or it stops at
the first node that has none; the ids met up to there are opened -/
inductive Passes {α : Type} (ctx : Context) (good : α → Prop) (step : Compile α) (p : Progress) (trace : List Codec) :
    Prop
  | ends {a : α} {p' : Progress} : (∀ c ∈ trace, ctx.handles c.tag = true) → Runs step p a p' → good a →
      Opens p p' trace → Passes ctx good step p trace
  | stops {before after : List Codec} {c : Codec} {p' : Progress} : trace = before ++ c :: after →
      (∀ d ∈ before, ctx.handles d.tag = true) → ctx.handles c.tag = false →
      step.runFrom p = (.error (.unsupported c.tag.name), p') → Opens p p' before → Passes ctx good step p trace

namespace Passes

variable {α β : Type} {ctx : Context} {good : α → Prop} {good' : β → Prop} {step : Compile α} {p : Progress}
  {trace trace' : List Codec}

theorem pure {a : α} (ha : good a) : Passes ctx good (Pure.pure a) p [] :=
  .ends (by simp) (runs_pure.2 ⟨rfl, rfl⟩) ha (.refl p)

/-- steps one after the other pass traces one behind the other -/
theorem bind {next : α → Compile β} (h : Passes ctx good step p trace)
    (hnext : ∀ a p', good a → Opens p p' trace → Passes ctx good' (next a) p' trace') :
    Passes ctx good' (step >>= next) p (trace ++ trace') := by
  cases h with
  | @ends a p' hhandled hrun ha hopens =>
    cases hnext a p' ha hopens with
    | ends hhandled' hrun' hb hopens' =>
      refine .ends ?_ (runs_bind.2 ⟨a, p', hrun, hrun'⟩) hb (hopens.trans hopens')
      intro c hc
      rcases List.mem_append.1 hc with hc | hc
      · exact hhandled c hc
      · exact hhandled' c hc
    | @stops before after c q htrace hbefore hc hrun' hopens' =>
      have hsplit : trace ++ trace' = (trace ++ before) ++ c :: after := by rw [htrace, List.append_assoc]
      refine .stops hsplit ?_ hc ?_ (hopens.trans hopens')
      · intro d hd
        rcases List.mem_append.1 hd with hd | hd
        · exact hhandled d hd
        · exact hbefore d hd
      · rw [runFrom_bind, show step.runFrom p = (.ok a, p') from hrun]
        exact hrun'
  | @stops before after c q htrace hbefore hc hrun hopens =>
    have hsplit : trace ++ trace' = before ++ c :: (after ++ trace') := by
      rw [htrace, List.append_assoc, List.cons_append]
    refine .stops hsplit hbefore hc ?_ hopens
    rw [runFrom_bind, hrun]

/-- a value made of what a step ends with -/
theorem map {f : α → β} (h : Passes ctx good step p trace) (hf : ∀ a, good a → good' (f a)) :
    Passes ctx good' (do return f (← step)) p trace := by
  rw [← List.append_nil trace]
  exact h.bind fun a p' ha _ => pure (hf a ha)

/-- a node with a handler in front -/
theorem inner {c : Codec} (hc : c.isRecursive = false) (hhandled : ctx.handles c.tag = true)
    (h : Passes ctx good step p trace) : Passes ctx good step p (c :: trace) := by
  cases h with
  | ends hall hrun ha hopens => exact .ends (List.forall_mem_cons.2 ⟨hhandled, hall⟩) hrun ha (hopens.inner hc)
  | @stops before after d q htrace hbefore hd hrun hopens =>
    have hsplit : c :: trace = (c :: before) ++ d :: after := by rw [htrace, List.cons_append]
    exact .stops hsplit (List.forall_mem_cons.2 ⟨hhandled, hbefore⟩) hd hrun (hopens.inner hc)

end Passes

/-! ## The compiler -/

section

variable {ctx : Context} {enter : Codec → Compile Fields} {ids : List Text} {bound : Nat}

/-- a codec below the bound passes the nodes that its traversal meets -/
def PassesBelow (ctx : Context) (ids : List Text) (bound : Nat) (step : Codec → Compile Fields) (c : Codec) : Prop :=
  c.All (fun d => d.Entered ctx ids ∧ d.Furnished ctx.bodies) → ∀ p trace, unseen ids (names p.definitions) < bound →
    Traverses ctx.bodies (names p.definitions) [c] trace → Passes ctx Joinable (step c) p trace

theorem fragmentsOf_passes {cs : List Codec} (hcs : ∀ c ∈ cs, PassesBelow ctx ids bound (fragmentOf ctx enter) c)
    (hall : ∀ c ∈ cs, c.All fun d => d.Entered ctx ids ∧ d.Furnished ctx.bodies) {p : Progress} {trace : List Codec}
    (hp : unseen ids (names p.definitions) < bound) (h : Traverses ctx.bodies (names p.definitions) cs trace) :
    Passes ctx (fun fs => ∀ f ∈ fs, Joinable f) (fragmentsOf ctx enter cs) p trace := by
  induction cs generalizing p trace with
  | nil =>
    cases h
    apply Passes.pure
    simp
  | cons c cs ih =>
    rw [← List.singleton_append] at h
    obtain ⟨front, back, rfl, hfront, hback⟩ := h.split
    rw [fragmentsOf]
    apply (hcs c List.mem_cons_self (hall c List.mem_cons_self) p front hp hfront).bind
    intro f q hf hopens
    rw [← hopens.ids] at hback
    have hq : unseen ids (names q.definitions) < bound := by
      rw [hopens.ids]
      exact (unseen_le (List.subset_append_left _ _)).trans_lt hp
    apply (ih (fun d hd => hcs d (List.mem_cons_of_mem c hd)) (fun d hd => hall d (List.mem_cons_of_mem c hd)) hq
      hback).map
    intro fs hfs
    exact List.forall_mem_cons.2 ⟨hf, hfs⟩

theorem definition_passes (hbodies : ∀ c, PassesBelow ctx ids bound enter c)
    (hall : ∀ name c, get? ctx.bodies name = some c → c.All fun d => d.Entered ctx ids ∧ d.Furnished ctx.bodies)
    (hhandled : ctx.handles (.kind .recursive) = true) {m : Marks} {id body : Text} (hid : id ∈ ids) {p : Progress}
    {trace : List Codec} (hp : unseen ids (names p.definitions) < bound + 1)
    (h : Traverses ctx.bodies (names p.definitions) [.recursive m id body] trace) :
    Passes ctx (fun g => ∀ d, Joinable (described d g)) (definition ctx enter id body) p trace := by
  have hreference : ∀ d, Joinable (described d (reference id)) := fun d =>
    joinable_described (by simp [reference]) (joinable_of_single ⟨rfl, rfl⟩ rfl)
  cases h with
  | inner hc _ => cases hc
  | again hknown hrest =>
    cases hrest
    have hrun : Runs (definition ctx enter id body) p (reference id) p := runs_definition.2 ⟨rfl, Or.inl ⟨hknown, rfl⟩⟩
    exact .ends (by simpa [Codec.tag] using hhandled) hrun hreference (.again hknown)
  | @first _ _ _ _ c _ trace hnew hc hrest =>
    -- the body starts with one id less to see, so the bound below suffices for it
    have hless := unseen_lt hid hnew
    rw [← names_reserve hnew body] at hless hrest
    cases hbodies c (hall body c hc) (p.reserve id body) trace (by omega) hrest with
    | @ends f q hbelow hrun _ hopens =>
      have hmem : id ∈ names q.definitions := by
        rw [hopens.ids, names_reserve hnew body]
        simp
      refine .ends ?_ (runs_definition.2 ⟨rfl, Or.inr ⟨hnew, c, f, q, hc, hrun, rfl⟩⟩) hreference
        ((hopens.first hnew).define hmem f)
      exact List.forall_mem_cons.2 ⟨hhandled, hbelow⟩
    | @stops before after d q htrace hbefore hd hrun hopens =>
      have hsplit : Codec.recursive m id body :: trace = (.recursive m id body :: before) ++ d :: after := by
        rw [htrace, List.cons_append]
      refine .stops hsplit (List.forall_mem_cons.2 ⟨hhandled, hbefore⟩) hd ?_ (hopens.first hnew)
      rw [runFrom_definition, if_neg hnew, hc]
      simp only [hrun]

/-- a codec of a kind passes the nodes of its trace when the codecs below it do -/
theorem prescribed_passes (hcalm : ctx.Calm) (hbodies : ∀ c, PassesBelow ctx ids bound enter c)
    (hall : ∀ name c, get? ctx.bodies name = some c → c.All fun d => d.Entered ctx ids ∧ d.Furnished ctx.bodies)
    {c : Codec} (hbelow : ∀ d ∈ c.children, PassesBelow ctx ids (bound + 1) (fragmentOf ctx enter) d)
    (hc : c.All fun d => d.Entered ctx ids ∧ d.Furnished ctx.bodies) {k : Kind} (hk : c.tag.kind? = some k)
    {p : Progress} {trace : List Codec} (hp : unseen ids (names p.definitions) < bound + 1)
    (h : Traverses ctx.bodies (names p.definitions) [c] trace) :
    Passes ctx (fun g => ∀ d, Joinable (described d g)) (prescribed ctx enter c) p trace := by
  have hhandled : ctx.handles c.tag = true := by
    obtain ⟨handler, hfind, -⟩ := hcalm.kinds c.tag k hk
    simp [Context.handles, hfind]
  rcases c.recursive_or with ⟨m, id, body, rfl⟩ | hkind
  · exact definition_passes hbodies hall hhandled hc.here.1.1 hp h
  · cases h with
    | again | first => cases hkind
    | @inner _ _ _ below _ hrest =>
      rw [List.append_nil] at hrest
      apply Passes.inner hkind hhandled
      rw [prescribed_eq hkind, ← List.append_nil below]
      apply (fragmentsOf_passes hbelow (fun d hd => hc.child hd) hp hrest).bind
      intro fs q hfs _
      obtain ⟨g, hg, hgood⟩ := assembled_joinable hc.here.2 hk hfs
      rw [hg]
      exact .pure hgood

theorem fragmentOf_passes (hcalm : ctx.Calm) (hbodies : ∀ c, PassesBelow ctx ids bound enter c)
    (hall : ∀ name c, get? ctx.bodies name = some c → c.All fun d => d.Entered ctx ids ∧ d.Furnished ctx.bodies)
    (c : Codec) : PassesBelow ctx ids (bound + 1) (fragmentOf ctx enter) c := by
  induction c using Codec.induction with
  | step c ih =>
    intro hc p trace hp h
    rw [fragmentOf_eq, handled]
    cases hk : c.tag.kind? with
    | some k =>
      obtain ⟨handler, hfind, haction⟩ := hcalm.kinds c.tag k hk
      simp only [hfind, haction, act]
      exact (prescribed_passes hcalm hbodies hall ih hc hk hp h).map fun g hg => hg c.description
    | none =>
      obtain ⟨m, tag, rfl⟩ : ∃ m tag, c = .plain m tag := by
        cases c with
        | plain m tag => exact ⟨m, tag, rfl⟩
        | _ => exact absurd ((Tag.kind?_kind _).symm.trans hk) (Option.some_ne_none _)
      cases h with
      | inner _ hrest =>
        cases hrest
        cases hfind : ctx.registry.find? tag with
        | none =>
          have hnone : ctx.handles (Codec.plain m tag).tag = false := by simp [Context.handles, Codec.tag, hfind]
          simp only [Codec.tag, hfind]
          exact .stops (List.nil_append _).symm (by simp) hnone rfl (.refl p)
        | some handler =>
          have hsome : ctx.handles (Codec.plain m tag).tag = true := by simp [Context.handles, Codec.tag, hfind]
          obtain ⟨f, haction, hapart⟩ := hcalm.others tag handler hk hfind
          simp only [Codec.tag, hfind, haction, act]
          apply Passes.inner rfl hsome
          exact .pure (joinable_of_apart hapart)

end

/-- **A call of the compiler passes the nodes that it meets**, or stops at the first one that has no handler, where the
bound exceeds the number of ids that are not known. -/
theorem fragmentAt_passes {ctx : Context} (hcalm : ctx.Calm) {ids : List Text}
    (hall : ∀ name c, get? ctx.bodies name = some c → c.All fun d => d.Entered ctx ids ∧ d.Furnished ctx.bodies)
    (depth : Nat) (c : Codec) : PassesBelow ctx ids depth (fragmentAt ctx depth) c := by
  induction depth generalizing c with
  | zero =>
    intro _ p trace hp
    exact absurd hp (Nat.not_lt_zero _)
  | succ depth ih => exact fragmentOf_passes hcalm ih hall c

/-! ## Systems -/

/-- does a custom handler or a built-in one handle a tag -/
def Options.handles (options : Options) (tag : Tag) : Bool :=
  options.handlers.any (·.handles tag) || tag.kind?.isSome

/-- a custom handler of a tag of its own, which gives a fragment that merges read nothing from -/
structure Handler.Inert (h : Handler) : Prop where
  custom : h.tag.kind? = none
  constant : ∃ f, h.action = .constant f ∧ Apart f

/-- all recursive nodes name bodies that are there, and no codec that is only a tag has the tag of a structure -/
structure CodecSystem.Furnished (system : CodecSystem) : Prop where
  root : system.root.All (Codec.Furnished system.bodies)
  bodies : ∀ name c, get? system.bodies name = some c → c.All (Codec.Furnished system.bodies)

section

variable {system : CodecSystem} {options : Options}

theorem find?_context (options : Options) (bodies : Bodies) (tag : Tag) :
    (options.context bodies).registry.find? tag =
      (options.handlers.find? tag).or (tag.kind?.map fun k => ⟨.kind k, .builtin⟩) := by
  rw [← find?_builtin]
  exact List.find?_append

theorem handles_context (options : Options) (bodies : Bodies) (tag : Tag) :
    (options.context bodies).handles tag = options.handles tag := by
  unfold Context.handles Options.handles
  rw [find?_context, Option.isSome_or, Option.isSome_map, Registry.find?, List.isSome_find?]

theorem calm_context (h : ∀ handler ∈ options.handlers, handler.Inert) (bodies : Bodies) :
    (options.context bodies).Calm := by
  constructor
  · intro tag k hk
    refine ⟨⟨.kind k, .builtin⟩, ?_, rfl⟩
    have hnone : options.handlers.find? tag = none := by
      rw [Registry.find?, List.find?_eq_none]
      intro handler hmem hhandles
      have hname : handler.tag.name = tag.name := by simpa [Handler.handles] using hhandles
      have hcustom := (h handler hmem).custom
      unfold Tag.kind? at hcustom hk
      rw [hname, hk] at hcustom
      exact nomatch hcustom
    rw [find?_context, hnone, hk]
    rfl
  · intro tag handler hk hfind
    rw [find?_context, hk, Option.map_none, Option.or_none] at hfind
    exact (h handler (List.mem_of_find?_eq_some hfind)).constant

/-- codecs are entered deeper than there are ids -/
theorem lt_depth (ctx : Context) (c : Codec) : (c.ids ++ Codec.idsEntries ctx.bodies).length < ctx.depth c := by
  simp only [Context.depth, List.length_append]
  set more := (Codec.idsList ctx.payloads).length
  have hle : (c.ids.length + (Codec.idsEntries ctx.bodies).length + more + 1) * 1 ≤
      (c.ids.length + (Codec.idsEntries ctx.bodies).length + more + 1) * (ctx.payloads.length + 1) :=
    Nat.mul_le_mul_left _ (Nat.le_add_left 1 _)
  omega

/-- the nodes of a furnished codec can be entered -/
theorem entered_of_furnished {ctx : Context} {ids : List Text} {c : Codec} (hc : c.All (Codec.Furnished ctx.bodies))
    (hids : ∀ id ∈ c.ids, id ∈ ids) : c.All fun d => d.Entered ctx ids ∧ d.Furnished ctx.bodies := by
  refine (hc.and c.all_ids).mono ?_
  rintro d ⟨hd, hown⟩
  refine ⟨?_, hd⟩
  cases d with
  | recursive m id body => exact ⟨hids id (hown id List.mem_cons_self), hd⟩
  | _ => trivial

/-- a merge makes no field for definitions -/
theorem no_definitions_intersect {fs : List Fields} {allow : Bool} {g : Fields} (h : intersect fs allow = .ok g) :
    ("definitions" : Text) ∉ names g := by
  unfold intersect at h
  split at h
  · obtain ⟨merged, -, h⟩ := bind_eq_ok_iff.1 h
    cases pure_eq_ok_iff.1 h
    simp [Fragment.object]
  · obtain ⟨branches, -, h⟩ := bind_eq_ok_iff.1 h
    cases pure_eq_ok_iff.1 h
    simp

/-- kinds make no field for definitions -/
theorem no_definitions_prescribed {ctx : Context} {enter : Codec → Compile Fields} {c : Codec} {p p' : Progress}
    {g : Fields} (h : Runs (prescribed ctx enter c) p g p') : ("definitions" : Text) ∉ names g := by
  rcases c.recursive_or with ⟨m, id, body, rfl⟩ | hkind
  · rw [(runs_definition.1 h).1]
    simp [reference]
  · rw [prescribed_eq hkind] at h
    obtain ⟨fs, q, -, h⟩ := runs_bind.1 h
    cases c with
    | recursive => cases hkind
    | plain m tag =>
      cases hk : tag.kind? with
      | none =>
        rw [assembled, bareFragment, hk] at h
        exact absurd h not_runs_throw
      | some k =>
        rcases Codec.bareTranslation_form ((runs_bareFragment hk).1 h).1 with rfl | ⟨p, rfl⟩
        · simp
        · simp
    | intersection m members => exact no_definitions_intersect (runs_ofMerge.1 h).1
    | object =>
      rw [← (runs_pure.1 h).1]
      simp [objectFragment, Fragment.object]
    | literal | enum | record | array | tuple | union =>
      rw [← (runs_pure.1 h).1]
      simp [recordFragment, arrayFragment, tupleFragment]

/-- what is new since the start of a compilation is what the nodes open -/
theorem Grown.of_opens {ctx : Context} {ended : Bool} {p : Progress} {met : Entries Text} {added : Fields}
    {nodes : List Codec} (h : Grown ctx ended {} p met added) (hopens : Opens {} p nodes) :
    Grown ctx ended {} p (opened [] nodes) p.definitions := by
  have hadded : p.definitions = added := h.definitions
  have hnames : names met = names (opened [] nodes) := by
    rw [← h.ids, ← hadded]
    exact hopens.ids
  have hbodies : met.map (·.2) = (opened [] nodes).map (·.2) := h.resolved.symm.trans hopens.resolved
  have hmet : met = opened [] nodes :=
    calc met = (names met).zip (met.map (·.2)) := List.zip_of_prod rfl rfl
      _ = (names (opened [] nodes)).zip ((opened [] nodes).map (·.2)) := by rw [hnames, hbodies]
      _ = opened [] nodes := (List.zip_of_prod rfl rfl).symm
  rw [hadded, ← hmet]
  exact h

/-- the compilation of a system stops at a node that has no handler: the definitions are those of the ids that the nodes
before it open, whose bodies were asked for -/
structure StopsAt (system : CodecSystem) (options : Options) (before : List Codec) (c : Codec) : Prop where
  error : (generate system options).1 = .error (.unsupported c.tag.name)
  resolved : (generate system options).2.resolved = (opened [] before).map (·.2)
  definitions : Grown (options.context system.bodies) false {} (generate system options).2 (opened [] before)
    (generate system options).2.definitions

/-- the compilation of a system ends in a document: the definitions are those of the ids that the nodes open, each of
them the fragment of the body that was asked for, and they are in the document in front of the fragment of the root -/
structure EndsAfter (system : CodecSystem) (options : Options) (nodes : List Codec) (top : Fields) : Prop where
  document : (generate system options).1 = .ok (withDefinitions (generate system options).2.definitions top)
  root : Runs (compile (options.context system.bodies) system.root) {} top (generate system options).2
  resolved : (generate system options).2.resolved = (opened [] nodes).map (·.2)
  definitions : Grown (options.context system.bodies) true {} (generate system options).2 (opened [] nodes)
    (generate system options).2.definitions
  place : system.root.tag.kind? ≠ none →
    get? (withDefinitions (generate system options).2.definitions top) "definitions" =
      some (.obj (generate system options).2.definitions)

theorem stopsAt {p : Progress} {before : List Codec} {c : Codec}
    (hrun : (compile (options.context system.bodies) system.root).runFrom {} = (.error (.unsupported c.tag.name), p))
    (hopens : Opens {} p before) : StopsAt system options before c := by
  have hgenerate : generate system options = (.error (.unsupported c.tag.name), p) := by
    unfold generate
    rw [hrun]
    rfl
  obtain ⟨met, added, hgrown⟩ := tracks_fragmentAt (options.context system.bodies) _ system.root {}
  rw [show (fragmentAt _ _ system.root).runFrom {} = _ from hrun] at hgrown
  constructor
  · rw [hgenerate]
  · rw [hgenerate]
    exact hopens.resolved
  · rw [hgenerate]
    exact hgrown.of_opens hopens

theorem endsAfter (hcalm : (options.context system.bodies).Calm) {top : Fields} {p : Progress} {nodes : List Codec}
    (hrun : Runs (compile (options.context system.bodies) system.root) {} top p) (hopens : Opens {} p nodes) :
    EndsAfter system options nodes top := by
  have hgenerate : generate system options = (.ok (withDefinitions p.definitions top), p) := by
    unfold generate
    rw [show (compile _ system.root).runFrom {} = _ from hrun]
    rfl
  obtain ⟨met, added, hgrown⟩ := tracks_fragmentAt (options.context system.bodies) _ system.root {}
  rw [show (fragmentAt _ _ system.root).runFrom {} = _ from hrun] at hgrown
  constructor
  · rw [hgenerate]
  · rw [hgenerate]
    exact hrun
  · rw [hgenerate]
    exact hopens.resolved
  · rw [hgenerate]
    exact hgrown.of_opens hopens
  · intro hkind
    rw [hgenerate]
    apply get?_withDefinitions
    obtain ⟨k, hk⟩ := Option.ne_none_iff_exists'.1 hkind
    obtain ⟨handler, hfind, haction⟩ := hcalm.kinds _ k hk
    obtain ⟨depth, hdepth⟩ := Nat.exists_eq_add_one_of_ne_zero
      (Nat.ne_zero_of_lt (lt_depth (options.context system.bodies) system.root))
    rw [compile, hdepth, fragmentAt, fragmentOf_eq] at hrun
    obtain ⟨g, hg, rfl⟩ := (runs_found hfind haction).1 hrun
    intro hmem
    rcases names_described hmem with heq | hmem
    · simp at heq
    · exact no_definitions_prescribed hg hmem

/-- **An unhandled tag is all that can go wrong.** Of a system whose recursive nodes name bodies that are there and whose
codecs that are only a tag are of no structure, with custom handlers of tags of their own that give fragments from which
merges read nothing: its root has exactly one traversal, and the compilation fails exactly when some node of it has a
tag that no handler has. It stops at the first such node, with its tag, and the bodies asked for are those of the ids
that the nodes before it open; otherwise it ends in a document with the definitions of all ids of the traversal. -/
theorem generate_stops_iff (hsystem : system.Furnished) (hhandlers : ∀ h ∈ options.handlers, h.Inert) :
    ∃ trace, (∀ other, Traverses system.bodies [] [system.root] other ↔ other = trace) ∧
      ((∃ e, (generate system options).1 = .error e) ↔ ∃ c ∈ trace, options.handles c.tag = false) ∧
      (∀ c, trace.find? (fun d => !options.handles d.tag) = some c →
        StopsAt system options (trace.takeWhile fun d => options.handles d.tag) c) ∧
      ((∀ c ∈ trace, options.handles c.tag = true) → ∃ top, EndsAfter system options trace top) := by
  have hcalm := calm_context hhandlers system.bodies
  have hroot : system.root.All fun d => d.Entered (options.context system.bodies) system.ids ∧
      d.Furnished system.bodies :=
    entered_of_furnished hsystem.root fun id hid => List.mem_append_left _ hid
  have hbodies : ∀ name c, get? (options.context system.bodies).bodies name = some c →
      c.All fun d => d.Entered (options.context system.bodies) system.ids ∧ d.Furnished system.bodies := by
    intro name c hc
    apply entered_of_furnished (hsystem.bodies name c hc)
    intro id hid
    exact List.mem_append_right _ (Codec.ids_of_body hc hid)
  obtain ⟨trace, htrace⟩ := Traverses.total (fun name c hc => (hbodies name c hc).mono fun d hd => hd.1)
    (hroot.mono fun d hd => hd.1) []
  have hbound : unseen system.ids (names ({} : Progress).definitions) <
      (options.context system.bodies).depth system.root :=
    (unseen_le_length _ _).trans_lt (lt_depth (options.context system.bodies) system.root)
  have hpasses := fragmentAt_passes hcalm hbodies _ system.root hroot {} trace hbound htrace
  refine ⟨trace, fun other => ⟨fun hother => hother.unique htrace, fun hother => hother ▸ htrace⟩, ?_⟩
  cases hpasses with
  | @ends top p hhandled hrun _ hopens =>
    simp only [handles_context] at hhandled
    have hends := endsAfter hcalm hrun hopens
    refine ⟨?_, ?_, fun _ => ⟨top, hends⟩⟩
    · rw [hends.document]
      simpa using hhandled
    · intro c hc
      have hnone := List.find?_some hc
      have hsome := hhandled c (List.mem_of_find?_eq_some hc)
      simp [hsome] at hnone
  | @stops before after c p heq hbefore hc hrun hopens =>
    simp only [handles_context] at hbefore hc
    have hstops := stopsAt hrun hopens
    have hfirst : trace.takeWhile (fun d => options.handles d.tag) = before := by
      rw [heq, List.takeWhile_append_of_pos hbefore, List.takeWhile_cons, hc]
      simp
    have hfound : trace.find? (fun d => !options.handles d.tag) = some c := by
      have hnone : before.find? (fun d => !options.handles d.tag) = none := by simpa using hbefore
      rw [heq, List.find?_append, hnone, Option.none_or, List.find?_cons, hc]
      simp
    have hmem : c ∈ trace := List.mem_of_find?_eq_some hfound
    refine ⟨?_, ?_, fun hall => ?_⟩
    · rw [hstops.error]
      exact iff_of_true ⟨_, rfl⟩ ⟨c, hmem, hc⟩
    · intro d hd
      rw [hfound, Option.some.injEq] at hd
      rw [hfirst, ← hd]
      exact hstops
    · rw [hall c hmem] at hc
      exact nomatch hc

end

/-! ### A compilation that stops -/

/-- an id in a cycle whose second body is never entered, a custom codec, an intersection that merges nothing of its
first member and has a member without a handler behind an object, and another codec without a handler -/
def strayed : CodecSystem where
  root := .tuple {} [.recursive {} "x" "first", .plain ⟨true, some "when"⟩ (.text "stamp"),
    .intersection {} [.recursive {} "x" "second", .object {} [("y", .recursive {} "y" "third")],
      .plain {} (.text "date")], .plain {} (.text "other")]
  bodies := [("first", .array {} (.recursive {} "x" "first")), ("second", .plain {} (.text "unheard")),
    ("third", .plain {} (.text "string"))]

/-- a handler of stamps -/
def stamping : Options := { handlers := [⟨.text "stamp", .constant [("type", .str "object"), ("definitions", .null)]⟩] }

/-- the nodes before the first one without a handler -/
def beforeDate : List Codec :=
  [strayed.root, .recursive {} "x" "first", .array {} (.recursive {} "x" "first"), .recursive {} "x" "first",
    .plain ⟨true, some "when"⟩ (.text "stamp"),
    .intersection {} [.recursive {} "x" "second", .object {} [("y", .recursive {} "y" "third")],
      .plain {} (.text "date")],
    .recursive {} "x" "second", .object {} [("y", .recursive {} "y" "third")], .recursive {} "y" "third",
    .plain {} (.text "string")]

theorem strayed_traversal : Traverses strayed.bodies [] [strayed.root]
    (beforeDate ++ [.plain {} (.text "date"), .plain {} (.text "other")]) := by
  refine .inner rfl (.first (by simp) rfl (.inner rfl (.again (by simp) ?_)))
  refine .inner rfl (.inner rfl (.again (by simp) (.inner rfl (.first (by simp) rfl ?_))))
  exact .inner rfl (.inner rfl (.inner rfl .done))

theorem strayed_furnished : strayed.Furnished := by
  have leaf : ∀ c : Codec, c.children = [] → c.Furnished strayed.bodies → c.All (Codec.Furnished strayed.bodies) := by
    intro c hc h
    refine .intro h fun d hd => ?_
    rw [hc] at hd
    cases hd
  have custom : ∀ m tag, Tag.kind? tag = none → (Codec.plain m tag).All (Codec.Furnished strayed.bodies) :=
    fun m tag htag => leaf _ rfl fun k hk => nomatch htag.symm.trans hk
  have recursive : ∀ m id body c, get? strayed.bodies body = some c →
      (Codec.recursive m id body).All (Codec.Furnished strayed.bodies) := fun m id body c hc => leaf _ rfl ⟨c, hc⟩
  have string : (Codec.plain {} (.text "string")).All (Codec.Furnished strayed.bodies) :=
    leaf _ rfl fun k hk => ⟨.string, (Option.some.inj hk).symm⟩
  have array : (Codec.array {} (.recursive {} "x" "first")).All (Codec.Furnished strayed.bodies) :=
    .intro trivial (List.forall_mem_singleton.2 (recursive _ _ _ _ rfl))
  have object : (Codec.object {} [("y", .recursive {} "y" "third")]).All (Codec.Furnished strayed.bodies) :=
    .intro trivial (List.forall_mem_singleton.2 (recursive _ _ _ _ rfl))
  constructor
  · refine .intro trivial (List.forall_mem_cons.2 ⟨recursive _ _ _ _ rfl, List.forall_mem_cons.2 ⟨custom _ _ rfl, ?_⟩⟩)
    refine List.forall_mem_cons.2 ⟨.intro trivial ?_, List.forall_mem_singleton.2 (custom _ _ rfl)⟩
    exact List.forall_mem_cons.2 ⟨recursive _ _ _ _ rfl,
      List.forall_mem_cons.2 ⟨object, List.forall_mem_singleton.2 (custom _ _ rfl)⟩⟩
  · intro name c hc
    have hmem := List.mem_map_of_mem (f := Prod.snd) (Entries.mem_of_get? hc)
    simp only [strayed, List.map_cons, List.map_nil, List.mem_cons, List.not_mem_nil, or_false] at hmem
    rcases hmem with rfl | rfl | rfl
    · exact array
    · exact custom _ _ rfl
    · exact string

theorem strayed_stops :
    strayed.Furnished ∧ (∀ h ∈ stamping.handlers, h.Inert) ∧
    (generate strayed stamping).1 = .error (.unsupported "date") ∧
    (generate strayed stamping).2.resolved = ["first", "third"] ∧
    Traverses strayed.bodies [] [strayed.root] (beforeDate ++ [.plain {} (.text "date"), .plain {} (.text "other")]) ∧
    StopsAt strayed stamping beforeDate (.plain {} (.text "date")) := by
  have hinert : ∀ h ∈ stamping.handlers, h.Inert := by
    refine List.forall_mem_singleton.2 ⟨rfl, _, rfl, ?_⟩
    intro name hname
    rcases List.mem_cons.1 hname with rfl | hname
    · simp
    · rcases List.mem_cons.1 hname with rfl | hname
      · simp
      · rw [List.mem_singleton.1 hname]
        simp
  obtain ⟨trace, hunique, -, hstops, -⟩ := generate_stops_iff strayed_furnished hinert
  have htrace := (hunique _).1 strayed_traversal
  rw [← htrace] at hstops
  exact ⟨strayed_furnished, hinert, rfl, rfl, strayed_traversal, hstops _ rfl⟩

end CodecCompiler
