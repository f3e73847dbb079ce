/-
How progress grows, whatever handlers a registry has: those of one fragment, those that pass codecs on, and programs
that compile what they like. A call of the compiler may start from any progress, with ids still under way, and it may
fail.

- `Finished` and `Abandoned` are the two ways in which the first meeting of an id can end: with the fragment that a
  call of the compiler made of its body, or with the reserved definition that a failure left behind.
- `Grown` says what is new in one progress against an earlier one: each id met has its definition behind those that were
  there, and its body was asked for once.
- `Tracks`: a step leaves grown progress behind, and no abandoned definition unless it fails.
- `definitions_only_grow`: calls of the compiler, alone or one after the other, never revise, reorder or remove a
  definition, and ask for the body of an id at most once.
-/
import CodecCompiler.Proofs.Steps

namespace CodecCompiler

open Entries (names)
open Compile

/-! ## What one meeting leaves -/

/-- the later progress has the ids of the earlier one in front, and the bodies that it asked for -/
structure Progress.Within (p p' : Progress) : Prop where
  ids : names p.definitions <+: names p'.definitions
  resolved : p.resolved <+: p'.resolved

theorem Progress.Within.refl (p : Progress) : p.Within p := ⟨List.prefix_refl _, List.prefix_refl _⟩

theorem Progress.Within.trans {p q r : Progress} (h : p.Within q) (h' : q.Within r) : p.Within r :=
  ⟨h.ids.trans h'.ids, h.resolved.trans h'.resolved⟩

theorem Progress.within_reserve {p : Progress} {id : Text} (hid : id ∉ names p.definitions) (body : Text) :
    p.Within (p.reserve id body) := by
  refine ⟨?_, List.prefix_append _ _⟩
  rw [names_reserve hid body]
  exact List.prefix_append _ _

theorem Progress.within_define {p : Progress} {id : Text} (hid : id ∈ names p.definitions) (f : Fields) :
    p.Within (p.define id f) := by
  refine ⟨?_, List.prefix_refl _⟩
  rw [Progress.define, Entries.names_set_of_mem hid]

/-- between `p` and `p'` an id was new, a call of the compiler made a fragment of its body, and that is its
definition -/
def Finished (ctx : Context) (p p' : Progress) (visit : Text × Text) (entry : Text × Json) : Prop :=
  ∃ q c depth f q', p.Within q ∧ visit.1 ∉ names q.definitions ∧ Entries.get? ctx.bodies visit.2 = some c ∧
    Runs (fragmentAt ctx depth c) (q.reserve visit.1 visit.2) f q' ∧ q'.Within p' ∧ entry = (visit.1, .obj f)

/-- between `p` and `p'` an id was new, its body was missing or failed, and the reserved definition is still there -/
def Abandoned (ctx : Context) (p p' : Progress) (visit : Text × Text) (entry : Text × Json) : Prop :=
  ∃ q, p.Within q ∧ visit.1 ∉ names q.definitions ∧ (q.reserve visit.1 visit.2).Within p' ∧
    (∀ c, Entries.get? ctx.bodies visit.2 = some c → ∃ depth e q',
      (fragmentAt ctx depth c).runFrom (q.reserve visit.1 visit.2) = (.error e, q') ∧ q'.Within p') ∧
    entry = (visit.1, .obj [])

section

variable {ctx : Context} {p p' q q' : Progress} {visit : Text × Text} {entry : Text × Json}

theorem Finished.mono (h : Finished ctx q q' visit entry) (hp : p.Within q) (hp' : q'.Within p') :
    Finished ctx p p' visit entry := by
  obtain ⟨r, c, depth, f, r', hr, hnew, hc, hrun, hr', hentry⟩ := h
  exact ⟨r, c, depth, f, r', hp.trans hr, hnew, hc, hrun, hr'.trans hp', hentry⟩

theorem Abandoned.mono (h : Abandoned ctx q q' visit entry) (hp : p.Within q) (hp' : q'.Within p') :
    Abandoned ctx p p' visit entry := by
  obtain ⟨r, hr, hnew, hreserved, hfails, hentry⟩ := h
  refine ⟨r, hp.trans hr, hnew, hreserved.trans hp', fun c hc => ?_, hentry⟩
  obtain ⟨depth, e, r', hrun, hr'⟩ := hfails c hc
  exact ⟨depth, e, r', hrun, hr'.trans hp'⟩

end

/-- how the first meeting of an id ended; only what did not end itself abandons definitions -/
def Left (ctx : Context) (ended : Bool) (p p' : Progress) (visit : Text × Text) (entry : Text × Json) : Prop :=
  Finished ctx p p' visit entry ∨ ended = false ∧ Abandoned ctx p p' visit entry

theorem Left.mono {ctx : Context} {ended ended' : Bool} {p p' q q' : Progress} {visit : Text × Text}
    {entry : Text × Json} (h : Left ctx ended q q' visit entry) (hended : ended' = true → ended = true)
    (hp : p.Within q) (hp' : q'.Within p') : Left ctx ended' p p' visit entry := by
  rcases h with h | ⟨hfalse, h⟩
  · exact Or.inl (h.mono hp hp')
  · refine Or.inr ⟨?_, h.mono hp hp'⟩
    cases ended' with
    | false => rfl
    | true => rw [hended rfl] at hfalse; exact nomatch hfalse

/-! ## Growth -/

/-- what is new in `p'` against `p`: the ids in `met`, each with the body that was asked for, and the definitions
`added` that they left -/
structure Grown (ctx : Context) (ended : Bool) (p p' : Progress) (met : Entries Text) (added : Fields) : Prop where
  definitions : p'.definitions = p.definitions ++ added
  resolved : p'.resolved = p.resolved ++ met.map (·.2)
  ids : names added = names met
  distinct : Entries.Distinct met
  new : ∀ id ∈ names met, id ∉ names p.definitions
  left : List.Forall₂ (Left ctx ended p p') met added

/-- progress has grown by some ids -/
def Grows (ctx : Context) (ended : Bool) (p p' : Progress) : Prop := ∃ met added, Grown ctx ended p p' met added

section

variable {ctx : Context} {ended ended' : Bool} {p p' q r : Progress} {met met' : Entries Text} {added added' : Fields}

theorem Grown.within (h : Grown ctx ended p p' met added) : p.Within p' := by
  refine ⟨?_, ?_⟩
  · rw [h.definitions, Entries.names_append]
    exact List.prefix_append _ _
  · rw [h.resolved]
    exact List.prefix_append _ _

theorem Grows.refl (ctx : Context) (ended : Bool) (p : Progress) : Grows ctx ended p p :=
  ⟨[], [], by simp, by simp, rfl, List.nodup_nil, by simp, .nil⟩

theorem Grown.trans (h : Grown ctx ended p q met added) (h' : Grown ctx ended' q r met' added') :
    Grown ctx (ended && ended') p r (met ++ met') (added ++ added') := by
  have hnames : names q.definitions = names p.definitions ++ names met := by
    rw [h.definitions, Entries.names_append, h.ids]
  have hnew : ∀ id ∈ names met', id ∉ names p.definitions ∧ id ∉ names met := by
    intro id hid
    have hout := h'.new id hid
    rwa [hnames, List.mem_append, not_or] at hout
  refine ⟨?_, ?_, ?_, ?_, ?_, ?_⟩
  · rw [h'.definitions, h.definitions, List.append_assoc]
  · rw [h'.resolved, h.resolved, List.map_append, List.append_assoc]
  · rw [Entries.names_append, Entries.names_append, h.ids, h'.ids]
  · unfold Entries.Distinct
    rw [Entries.names_append]
    refine List.nodup_append.2 ⟨h.distinct, h'.distinct, fun a ha b hb hab => ?_⟩
    exact (hnew b hb).2 (hab ▸ ha)
  · intro id hid
    rw [Entries.names_append, List.mem_append] at hid
    exact hid.elim (h.new id) fun hid => (hnew id hid).1
  · refine List.rel_append (h.left.imp fun _ _ hleft => ?_) (h'.left.imp fun _ _ hleft => ?_)
    · exact hleft.mono (fun hboth => (Bool.and_eq_true_iff.1 hboth).1) (.refl p) h'.within
    · exact hleft.mono (fun hboth => (Bool.and_eq_true_iff.1 hboth).2) h.within (.refl r)

theorem Grows.trans (h : Grows ctx ended p q) (h' : Grows ctx ended' q r) : Grows ctx (ended && ended') p r := by
  obtain ⟨met, added, hgrown⟩ := h
  obtain ⟨met', added', hgrown'⟩ := h'
  exact ⟨_, _, hgrown.trans hgrown'⟩

/-- the meeting of a new id in front of what its body leaves: the ids of the body come behind its own -/
theorem Grown.cons {id body : Text} (hid : id ∉ names p.definitions) {v : Json}
    (h : Grown ctx ended (p.reserve id body) q met added)
    (hdefinitions : p'.definitions = p.definitions ++ (id, v) :: added) (hresolved : p'.resolved = q.resolved)
    (hwithin : q.Within p') (hended : ended' = true → ended = true) (hleft : Left ctx ended' p p' (id, body) (id, v)) :
    Grown ctx ended' p p' ((id, body) :: met) ((id, v) :: added) := by
  have hnew : ∀ other ∈ names met, other ∉ names p.definitions ∧ other ≠ id := by
    intro other hother
    have hout := h.new other hother
    rw [names_reserve hid body, List.mem_append, not_or, List.mem_singleton] at hout
    exact hout
  refine ⟨hdefinitions, ?_, ?_, ?_, ?_, .cons hleft (h.left.imp fun _ _ hl => ?_)⟩
  · rw [hresolved, h.resolved, Progress.reserve, List.append_assoc]
    rfl
  · rw [Entries.names_cons, Entries.names_cons, h.ids]
  · exact Entries.distinct_cons.2 ⟨fun hmem => (hnew id hmem).2 rfl, h.distinct⟩
  · intro other hother
    rcases List.mem_cons.1 hother with rfl | hother
    · exact hid
    · exact (hnew other hother).1
  · exact hl.mono hended (Progress.within_reserve hid body) hwithin

end

/-! ## The compiler -/

/-- growth is kept by steps one after the other -/
theorem sequential_grows (ctx : Context) : Sequential (Grows ctx) := ⟨Grows.refl ctx, Grows.trans⟩

/-- a step leaves grown progress behind, with no definition abandoned when it ends -/
def Tracks {α : Type} (ctx : Context) (step : Compile α) : Prop := Follows (Grows ctx) step

section

variable {ctx : Context} {depth : Nat}

/-- the body of a new id is compiled with the id reserved, and its fragment becomes the definition -/
theorem tracks_definition (henter : ∀ c, Tracks ctx (fragmentAt ctx depth c)) (id body : Text) :
    Tracks ctx (definition ctx (fragmentAt ctx depth) id body) := by
  intro p
  rw [runFrom_definition]
  by_cases hid : id ∈ names p.definitions
  · rw [if_pos hid]
    exact .refl ctx true p
  rw [if_neg hid]
  have hwithin := Progress.within_reserve hid body
  have hreserved : (p.reserve id body).definitions = p.definitions ++ [(id, .obj [])] :=
    Entries.names_set_of_not_mem hid _
  cases hc : Entries.get? ctx.bodies body with
  | none =>
    have habandoned : Abandoned ctx p (p.reserve id body) (id, body) (id, .obj []) :=
      ⟨p, .refl p, hid, .refl _, fun c hc' => (nomatch hc.symm.trans hc'), rfl⟩
    have hgrown : Grown ctx false (p.reserve id body) (p.reserve id body) [] [] :=
      ⟨by simp, by simp, rfl, List.nodup_nil, by simp, .nil⟩
    exact ⟨_, _, hgrown.cons hid hreserved rfl (.refl _) (fun h => h) (Or.inr ⟨rfl, habandoned⟩)⟩
  | some c =>
    obtain ⟨met, added, hgrown⟩ := henter c (p.reserve id body)
    rcases hrun : (fragmentAt ctx depth c).runFrom (p.reserve id body) with ⟨e | f, q⟩
    · simp only [hrun] at hgrown ⊢
      have habandoned : Abandoned ctx p q (id, body) (id, .obj []) := by
        refine ⟨p, .refl p, hid, hgrown.within, fun d hd => ⟨depth, e, q, ?_, .refl q⟩, rfl⟩
        rw [← Option.some.inj (hc.symm.trans hd)]
        exact hrun
      have hdefinitions : q.definitions = p.definitions ++ (id, .obj []) :: added := by
        rw [hgrown.definitions, hreserved, List.append_assoc, List.singleton_append]
      exact ⟨_, _, hgrown.cons hid hdefinitions rfl (.refl q) (fun h => h) (Or.inr ⟨rfl, habandoned⟩)⟩
    · simp only [hrun] at hgrown ⊢
      have hmem : id ∈ names q.definitions := by
        rw [hgrown.definitions, hreserved]
        simp
      have hfinished : Finished ctx p (q.define id f) (id, body) (id, .obj f) :=
        ⟨p, c, depth, f, q, .refl p, hid, hc, hrun, Progress.within_define hmem f, rfl⟩
      have hdefinitions : (q.define id f).definitions = p.definitions ++ (id, .obj f) :: added := by
        rw [Progress.define, hgrown.definitions, hreserved, List.append_assoc, List.singleton_append]
        exact Entries.set_middle hid added _ _
      exact ⟨_, _, hgrown.cons hid hdefinitions rfl (Progress.within_define hmem f) (fun h => h) (Or.inl hfinished)⟩

/-- **A call of the compiler tracks**, however deep it goes and whatever the handlers are. -/
theorem tracks_fragmentAt (ctx : Context) (depth : Nat) (c : Codec) : Tracks ctx (fragmentAt ctx depth c) := by
  have hR := sequential_grows ctx
  induction depth generalizing c with
  | zero => exact follows_throw hR .endless
  | succ depth ih =>
    rw [fragmentAt, ← walkOf_handled]
    exact follows_walkOf ⟨hR, fun d => follows_handled hR ih d, tracks_definition ih⟩ c

end

/-! ## Calls one after the other -/

/-- calls of the compiler in one context, each with its own bound: a call starts with the progress that the one before
left, whether that ended or failed -/
def session (ctx : Context) : List (Nat × Codec) → Progress → List (Except CompileError Fields) × Progress
  | [], p => ([], p)
  | (depth, c) :: calls, p =>
    let (result, q) := (fragmentAt ctx depth c).runFrom p
    let (results, r) := session ctx calls q
    (result :: results, r)

theorem session_grows (ctx : Context) (calls : List (Nat × Codec)) (p : Progress) :
    Grows ctx ((session ctx calls p).1.all Except.isOk) p (session ctx calls p).2 := by
  induction calls generalizing p with
  | nil => exact .refl ctx true p
  | cons call calls ih =>
    have hfirst := tracks_fragmentAt ctx call.1 call.2 p
    exact hfirst.trans (ih _)

/-- **Definitions only grow.** From any progress, whatever the handlers are, a call of the compiler keeps the
definitions that are there in their places and puts new ones behind them, whether it ends or fails: one for each id that
it meets first, and for each of these it asks for one body. When it ends, every new definition is the fragment that a
call made of the body asked for; the reserved definition is left only where that call failed. The same holds of any
calls one after the other, so no body is asked for twice for an id. -/
theorem definitions_only_grow (ctx : Context) (p : Progress) :
    (∀ depth c, ∃ met added, Grown ctx ((fragmentAt ctx depth c).runFrom p).1.isOk p
      ((fragmentAt ctx depth c).runFrom p).2 met added) ∧
    ∀ calls, ∃ met added, Grown ctx ((session ctx calls p).1.all Except.isOk) p (session ctx calls p).2 met added :=
  ⟨fun depth c => tracks_fragmentAt ctx depth c p, fun calls => session_grows ctx calls p⟩

end CodecCompiler
