/-
What a failed call of the compiler leaves behind, also for parsers that handle failures and go on.

- `Attempt` is what such a parser does with a codec: it may look at the definitions, it learns how a compilation ended,
  and it goes on either way. `walkAt` compiles with such parsers; `walkAt_none`: without any it is the compiler.
- `Made` and `Stranded` are the two ways in which the first meeting of an id can end: with the fragment of its body, or
  with the reservation that a failed body leaves.
- `Kept`: what is new in one progress against an earlier one, each new definition made or stranded.
- `kept_walkAt`: every call keeps what was there, whether it ends or fails.
- `failure_keeps_definitions`: a failed call takes nothing back, and what it leaves stays, reservations included.
Witness of what this amounts to:
- `failure_leaves_reservation`: a body that has no handler leaves an empty definition, and the next call refers to it.
-/
import CodecCompiler.Proofs.Growth

namespace CodecCompiler

open Entries (names get?)
open Compile

/-! ## Parsers that handle failures -/

/-- what a caller's parser does with a codec -/
inductive Attempt where
  /-- ends with a fragment -/
  | give (fragment : Fields)
  /-- ends with an error -/
  | fail (error : CompileError)
  /-- goes on with the definitions compiled so far -/
  | look (next : Fields → Attempt)
  /-- compiles a codec, and goes on with its fragment or with the error -/
  | compile (codec : Codec) (next : Except CompileError Fields → Attempt)
  /-- does what the kind of its own codec prescribes, and goes on with the fragment or with the error -/
  | prescribed (next : Except CompileError Fields → Attempt)

/-- the parsers of a caller, by the name of the tag; they stand before the handlers of a context -/
abbrev Parsers := Text → Option (Codec → Attempt)

/-- a step whose failure is a result -/
def caught {α : Type} (step : Compile α) : Compile (Except CompileError α) := ExceptT.mk (Except.ok <$> step.run)

/-- runs an attempt for a codec, where `builtin` is what the codec's kind prescribes -/
def Attempt.run (enter : Codec → Compile Fields) (builtin : Compile Fields) : Attempt → Compile Fields
  | .give fragment => return fragment
  | .fail error => throw error
  | .look next => do run enter builtin (next (← get).definitions)
  | .compile codec next => do run enter builtin (next (← caught (enter codec)))
  | .prescribed next => do run enter builtin (next (← caught builtin))

/-- compiles a codec with the caller's parser of its tag, or with the first handler where there is none -/
def tried (ctx : Context) (parsers : Parsers) (enter : Codec → Compile Fields) (codec : Codec)
    (builtin : Compile Fields) : Compile Fields :=
  match parsers codec.tag.name with
  | some parser => do return described codec.description (← (parser codec).run enter builtin)
  | none => handled ctx enter codec builtin

/-- compiles a codec, with bodies and parsers' codecs entered at most `depth` deep -/
def walkAt (ctx : Context) (parsers : Parsers) : (depth : Nat) → Codec → Compile Fields
  | 0, _ => throw .endless
  | depth + 1, codec => walkOf ctx (walkAt ctx parsers depth) (tried ctx parsers (walkAt ctx parsers depth)) codec

/-- **Without parsers of that kind** it is the compiler that runs. -/
theorem walkAt_none (ctx : Context) (depth : Nat) : walkAt ctx (fun _ => none) depth = fragmentAt ctx depth := by
  induction depth with
  | zero => rfl
  | succ depth ih =>
    funext codec
    rw [walkAt, fragmentAt, ih]
    exact walkOf_handled codec

section

variable {R : Bool → Progress → Progress → Prop} {enter : Codec → Compile Fields} {builtin : Compile Fields}

theorem runFrom_caught {α : Type} (step : Compile α) (p : Progress) :
    (caught step).runFrom p = (.ok (step.runFrom p).1, (step.runFrom p).2) := rfl

/-- a failure that is handled leaves what the failure left -/
theorem follows_caught (hended : ∀ ended p q, R ended p q → R true p q) {α : Type} {step : Compile α}
    (hstep : Follows R step) : Follows R (caught step) := by
  intro p
  rw [runFrom_caught]
  exact hended _ _ _ (hstep p)

theorem follows_attempt (hR : Sequential R) (hended : ∀ ended p q, R ended p q → R true p q)
    (henter : ∀ c, Follows R (enter c)) (hbuiltin : Follows R builtin) (attempt : Attempt) :
    Follows R (attempt.run enter builtin) := by
  induction attempt with
  | give f => exact follows_pure hR f
  | fail e => exact follows_throw hR e
  | look next ih => exact follows_bind hR (follows_get hR) fun p => ih p.definitions
  | compile c next ih => exact follows_bind hR (follows_caught hended (henter c)) ih
  | prescribed next ih => exact follows_bind hR (follows_caught hended hbuiltin) ih

theorem follows_tried {ctx : Context} {parsers : Parsers} (hR : Sequential R)
    (hended : ∀ ended p q, R ended p q → R true p q) (henter : ∀ c, Follows R (enter c)) (c : Codec)
    (hbuiltin : Follows R builtin) : Follows R (tried ctx parsers enter c builtin) := by
  unfold tried
  split
  · exact follows_bind hR (follows_attempt hR hended henter hbuiltin _) fun _ => follows_pure hR _
  · exact follows_handled hR henter c hbuiltin

end

/-! ## What is left -/

/-- between `p` and `q` an id was new, a call of the compiler made a fragment of its body, and that is its definition -/
def Made (ctx : Context) (parsers : Parsers) (p q : Progress) (entry : Text × Json) : Prop :=
  ∃ body c depth r f r', p.Within r ∧ entry.1 ∉ names r.definitions ∧ get? ctx.bodies body = some c ∧
    Runs (walkAt ctx parsers depth c) (r.reserve entry.1 body) f r' ∧ r'.Within q ∧ entry.2 = .obj f

/-- between `p` and `q` an id was new, there was no body for it or the call for its body failed, and its definition is
the empty one that was reserved -/
def Stranded (ctx : Context) (parsers : Parsers) (p q : Progress) (entry : Text × Json) : Prop :=
  ∃ body r, p.Within r ∧ entry.1 ∉ names r.definitions ∧ (r.reserve entry.1 body).Within q ∧
    (∀ c, get? ctx.bodies body = some c → ∃ depth e r',
      (walkAt ctx parsers depth c).runFrom (r.reserve entry.1 body) = (.error e, r') ∧ r'.Within q) ∧
    entry.2 = .obj []

/-- `q` has the definitions of `p` in front of those that are `added`, which were made or stranded in between; one body
was asked for each of them -/
structure Kept (ctx : Context) (parsers : Parsers) (p q : Progress) (added : Fields) : Prop where
  definitions : q.definitions = p.definitions ++ added
  resolved : ∃ bodies, q.resolved = p.resolved ++ bodies ∧ bodies.length = added.length
  distinct : Entries.Distinct added
  new : ∀ id ∈ names added, id ∉ names p.definitions
  left : ∀ entry ∈ added, Made ctx parsers p q entry ∨ Stranded ctx parsers p q entry

section

variable {ctx : Context} {parsers : Parsers} {p p' q q' : Progress} {entry : Text × Json} {added added' : Fields}

theorem Made.mono (h : Made ctx parsers q q' entry) (hp : p.Within q) (hp' : q'.Within p') :
    Made ctx parsers p p' entry := by
  obtain ⟨body, c, depth, r, f, r', hr, hnew, hc, hrun, hr', hvalue⟩ := h
  exact ⟨body, c, depth, r, f, r', hp.trans hr, hnew, hc, hrun, hr'.trans hp', hvalue⟩

theorem Stranded.mono (h : Stranded ctx parsers q q' entry) (hp : p.Within q) (hp' : q'.Within p') :
    Stranded ctx parsers p p' entry := by
  obtain ⟨body, r, hr, hnew, hreserved, hfails, hvalue⟩ := h
  refine ⟨body, r, hp.trans hr, hnew, hreserved.trans hp', fun c hc => ?_, hvalue⟩
  obtain ⟨depth, e, r', hrun, hr'⟩ := hfails c hc
  exact ⟨depth, e, r', hrun, hr'.trans hp'⟩

theorem Kept.within (h : Kept ctx parsers p q added) : p.Within q := by
  obtain ⟨bodies, hresolved, -⟩ := h.resolved
  refine ⟨?_, ?_⟩
  · rw [h.definitions, Entries.names_append]
    exact List.prefix_append _ _
  · rw [hresolved]
    exact List.prefix_append _ _

theorem Kept.refl (ctx : Context) (parsers : Parsers) (p : Progress) : Kept ctx parsers p p [] :=
  ⟨by simp, ⟨[], by simp⟩, List.nodup_nil, by simp, by simp⟩

theorem Kept.trans (h : Kept ctx parsers p q added) (h' : Kept ctx parsers q q' added') :
    Kept ctx parsers p q' (added ++ added') := by
  obtain ⟨bodies, hresolved, hlength⟩ := h.resolved
  obtain ⟨bodies', hresolved', hlength'⟩ := h'.resolved
  have hnew : ∀ id ∈ names added', id ∉ names p.definitions ∧ id ∉ names added := by
    intro id hid
    have hout := h'.new id hid
    rwa [h.definitions, Entries.names_append, List.mem_append, not_or] at hout
  refine ⟨?_, ⟨bodies ++ bodies', ?_, ?_⟩, ?_, ?_, ?_⟩
  · rw [h'.definitions, h.definitions, List.append_assoc]
  · rw [hresolved', hresolved, List.append_assoc]
  · rw [List.length_append, List.length_append, hlength, hlength']
  · unfold Entries.Distinct
    rw [Entries.names_append]
    refine List.nodup_append.2 ⟨h.distinct, h'.distinct, fun a ha b hb hab => ?_⟩
    exact (hnew b hb).2 (hab ▸ ha)
  · intro id hid
    rw [Entries.names_append, List.mem_append] at hid
    exact hid.elim (h.new id) fun hid => (hnew id hid).1
  · intro entry hentry
    rcases List.mem_append.1 hentry with hentry | hentry
    · exact (h.left entry hentry).imp (·.mono (.refl p) h'.within) (·.mono (.refl p) h'.within)
    · exact (h'.left entry hentry).imp (·.mono h.within (.refl q')) (·.mono h.within (.refl q'))

/-- the meeting of a new id in front of what its body leaves -/
theorem Kept.cons {id body : Text} (hid : id ∉ names p.definitions) {v : Json}
    (h : Kept ctx parsers (p.reserve id body) q added)
    (hdefinitions : p'.definitions = p.definitions ++ (id, v) :: added) (hresolved : p'.resolved = q.resolved)
    (hwithin : q.Within p')
    (hleft : Made ctx parsers p p' (id, v) ∨ Stranded ctx parsers p p' (id, v)) :
    Kept ctx parsers p p' ((id, v) :: added) := by
  obtain ⟨bodies, hbodies, hlength⟩ := h.resolved
  have hnew : ∀ other ∈ names added, other ∉ names p.definitions ∧ other ≠ id := by
    intro other hother
    have hout := h.new other hother
    rwa [names_reserve hid body, List.mem_append, not_or, List.mem_singleton] at hout
  have hreserved := Progress.within_reserve hid body
  refine ⟨hdefinitions, ⟨body :: bodies, ?_, by rw [List.length_cons, List.length_cons, hlength]⟩, ?_, ?_, ?_⟩
  · rw [hresolved, hbodies, Progress.reserve, List.append_assoc]
    rfl
  · exact Entries.distinct_cons.2 ⟨fun hmem => (hnew id hmem).2 rfl, h.distinct⟩
  · intro other hother
    rcases List.mem_cons.1 hother with rfl | hother
    · exact hid
    · exact (hnew other hother).1
  · intro entry hentry
    rcases List.mem_cons.1 hentry with rfl | hentry
    · exact hleft
    · exact (h.left entry hentry).imp (·.mono hreserved hwithin) (·.mono hreserved hwithin)

/-- what a step keeps, whether it ends or fails -/
def Conserves (ctx : Context) (parsers : Parsers) (_ended : Bool) (p q : Progress) : Prop :=
  ∃ added, Kept ctx parsers p q added

theorem sequential_conserves (ctx : Context) (parsers : Parsers) : Sequential (Conserves ctx parsers) := by
  refine ⟨fun _ p => ⟨[], .refl ctx parsers p⟩, ?_⟩
  rintro _ _ p q r ⟨added, h⟩ ⟨added', h'⟩
  exact ⟨added ++ added', h.trans h'⟩

/-- the body of a new id is compiled with the id reserved; where it fails, the reservation is not taken back -/
theorem kept_definition {depth : Nat} (henter : ∀ c, Follows (Conserves ctx parsers) (walkAt ctx parsers depth c))
    (id body : Text) : Follows (Conserves ctx parsers) (definition ctx (walkAt ctx parsers depth) id body) := by
  intro p
  rw [runFrom_definition]
  by_cases hid : id ∈ names p.definitions
  · rw [if_pos hid]
    exact ⟨[], .refl ctx parsers p⟩
  rw [if_neg hid]
  have hreserved : (p.reserve id body).definitions = p.definitions ++ [(id, .obj [])] :=
    Entries.names_set_of_not_mem hid _
  cases hc : get? ctx.bodies body with
  | none =>
    have hstranded : Stranded ctx parsers p (p.reserve id body) (id, .obj []) :=
      ⟨body, p, .refl p, hid, .refl _, fun c hc' => (nomatch hc.symm.trans hc'), rfl⟩
    exact ⟨_, (Kept.refl ctx parsers (p.reserve id body)).cons hid hreserved rfl (.refl _) (Or.inr hstranded)⟩
  | some c =>
    obtain ⟨added, hkept⟩ := henter c (p.reserve id body)
    rcases hrun : (walkAt ctx parsers depth c).runFrom (p.reserve id body) with ⟨e | f, q⟩
    · simp only [hrun] at hkept ⊢
      have hstranded : Stranded ctx parsers p q (id, .obj []) := by
        refine ⟨body, p, .refl p, hid, hkept.within, fun d hd => ⟨depth, e, q, ?_, .refl q⟩, rfl⟩
        rw [← Option.some.inj (hc.symm.trans hd)]
        exact hrun
      have hdefinitions : q.definitions = p.definitions ++ (id, .obj []) :: added := by
        rw [hkept.definitions, hreserved, List.append_assoc, List.singleton_append]
      exact ⟨_, hkept.cons hid hdefinitions rfl (.refl q) (Or.inr hstranded)⟩
    · simp only [hrun] at hkept ⊢
      have hmem : id ∈ names q.definitions := by
        rw [hkept.definitions, hreserved]
        simp
      have hwithin := Progress.within_define hmem f
      have hmade : Made ctx parsers p (q.define id f) (id, .obj f) :=
        ⟨body, c, depth, p, f, q, .refl p, hid, hc, hrun, hwithin, rfl⟩
      have hdefinitions : (q.define id f).definitions = p.definitions ++ (id, .obj f) :: added := by
        rw [Progress.define, hkept.definitions, hreserved, List.append_assoc, List.singleton_append]
        exact Entries.set_middle hid added _ _
      exact ⟨_, hkept.cons hid hdefinitions rfl hwithin (Or.inl hmade)⟩

/-- **A call keeps what was there**, whatever the parsers make of the failures on the way. -/
theorem kept_walkAt (ctx : Context) (parsers : Parsers) (depth : Nat) (c : Codec) :
    Follows (Conserves ctx parsers) (walkAt ctx parsers depth c) := by
  have hR := sequential_conserves ctx parsers
  induction depth generalizing c with
  | zero => exact follows_throw hR .endless
  | succ depth ih =>
    exact follows_walkOf ⟨hR, fun d => follows_tried hR (fun _ _ _ h => h) ih d, kept_definition ih⟩ c

/-! ## Going on after a failure -/

/-- the progress after calls one after the other, each with its own bound, whether they end or fail -/
def afterwards (ctx : Context) (parsers : Parsers) (calls : List (Nat × Codec)) (p : Progress) : Progress :=
  calls.foldl (fun q call => ((walkAt ctx parsers call.1 call.2).runFrom q).2) p

theorem kept_afterwards (ctx : Context) (parsers : Parsers) (calls : List (Nat × Codec)) (p : Progress) :
    ∃ added, Kept ctx parsers p (afterwards ctx parsers calls p) added := by
  induction calls generalizing p with
  | nil => exact ⟨[], .refl ctx parsers p⟩
  | cons call calls ih =>
    obtain ⟨added, hfirst⟩ := kept_walkAt ctx parsers call.1 call.2 p
    obtain ⟨added', hrest⟩ := ih ((walkAt ctx parsers call.1 call.2).runFrom p).2
    exact ⟨added ++ added', hfirst.trans hrest⟩

/-- what was added is what its id leads to -/
theorem Kept.get?_added (h : Kept ctx parsers p q added) (hentry : entry ∈ added) :
    get? q.definitions entry.1 = some entry.2 := by
  rw [h.definitions, Entries.get?_append_of_new (h.new entry.1 (Entries.mem_names hentry)),
    Entries.get?_eq_some_iff h.distinct]
  exact hentry

/-- a definition that is there stays as it is -/
theorem Kept.get?_before (h : Kept ctx parsers p q added) {id : Text} {v : Json} (hv : get? p.definitions id = some v) :
    get? q.definitions id = some v := by
  rw [h.definitions]
  exact Entries.get?_append_of_some hv added

/-- an id that has a definition is referred to at once, whatever the definition is -/
theorem runs_definition_known {id : Text} {v : Json} (hv : get? p.definitions id = some v)
    (enter : Codec → Compile Fields) (body : Text) : Runs (definition ctx enter id body) p (reference id) p :=
  runs_definition.2 ⟨rfl, Or.inl ⟨Entries.mem_names (Entries.mem_of_get? hv), rfl⟩⟩

/-- **A failure takes nothing back.** After a failed call of the compiler, from any progress and with any parsers, the
definitions of before are there as they were, and behind them one for each id that the call met first: the fragment that
a call made of its body, or the empty definition that was reserved, where there is no body or the call for it failed.
All of these stay, whatever is compiled from there on, and their ids are referred to without compiling anything. -/
theorem failure_keeps_definitions {depth : Nat} {codec : Codec} {e : CompileError}
    (failed : (walkAt ctx parsers depth codec).runFrom p = (.error e, q)) :
    ∃ added, Kept ctx parsers p q added ∧ ∀ entry ∈ added, ∀ calls,
      get? (afterwards ctx parsers calls q).definitions entry.1 = some entry.2 ∧
      ∀ enter body, Runs (definition ctx enter entry.1 body) (afterwards ctx parsers calls q) (reference entry.1)
        (afterwards ctx parsers calls q) := by
  obtain ⟨added, hkept⟩ := kept_walkAt ctx parsers depth codec p
  rw [failed] at hkept
  refine ⟨added, hkept, fun entry hentry calls => ?_⟩
  obtain ⟨more, hmore⟩ := kept_afterwards ctx parsers calls q
  have hstays := hmore.get?_before (hkept.get?_added hentry)
  exact ⟨hstays, fun enter body => runs_definition_known hstays enter body⟩

end

/-! ### Runs -/

/-- the built-in handlers, with a body that they know and one that has no handler -/
def lacking : Context :=
  ({} : Options).context [("Bad", .plain {} (.text "date")), ("Good", .plain {} (.text "string"))]

/-- a parser that compiles a codec, and compiles it again when that fails -/
def insistent : Parsers := fun tag =>
  if tag = "twice" then some fun _ => .compile (.recursive {} "Bad" "Bad") fun first =>
    match first with
    | .ok fragment => .give fragment
    | .error _ => .compile (.recursive {} "Bad" "Bad") fun second =>
      match second with
      | .ok fragment => .give fragment
      | .error error => .fail error
  else none

/-- the parser's codec, a codec that compiles, and one that has no handler -/
def unfinished : Codec := .tuple {} [.plain {} (.text "twice"), .recursive {} "Good" "Good", .plain {} (.text "date")]

/-- what is left of them -/
def leftover : Progress := ⟨[("Bad", .obj []), ("Good", .obj [("type", .str "string")])], ["Bad", "Good"]⟩

theorem unfinished_keeps_definitions :
    (walkAt lacking insistent 3 unfinished).runFrom {} = (.error (.unsupported "date"), leftover) ∧
    ∃ added, Kept lacking insistent {} leftover added ∧ ∀ entry ∈ added, ∀ calls,
      get? (afterwards lacking insistent calls leftover).definitions entry.1 = some entry.2 ∧
      ∀ enter body, Runs (definition lacking enter entry.1 body) (afterwards lacking insistent calls leftover)
        (reference entry.1) (afterwards lacking insistent calls leftover) := by
  have failed : (walkAt lacking insistent 3 unfinished).runFrom {} = (.error (.unsupported "date"), leftover) := rfl
  exact ⟨failed, failure_keeps_definitions failed⟩

/-- **A failed body leaves its reservation.** The call for it fails, its empty definition is there afterwards, and the
next call ends with a reference to that; so it is not so that failed calls leave the definitions of before. -/
theorem failure_leaves_reservation :
    (compile lacking (.recursive {} "Bad" "Bad")).runFrom {} =
      (.error (.unsupported "date"), ⟨[("Bad", .obj [])], ["Bad"]⟩) ∧
    (compile lacking (.recursive {} "Bad" "Bad")).runFrom ⟨[("Bad", .obj [])], ["Bad"]⟩ =
      (.ok (reference "Bad"), ⟨[("Bad", .obj [])], ["Bad"]⟩) ∧
    ¬ ∀ ctx codec p e q, (compile ctx codec).runFrom p = (.error e, q) → q.definitions = p.definitions := by
  have failed : (compile lacking (.recursive {} "Bad" "Bad")).runFrom {} =
    (.error (.unsupported "date"), ⟨[("Bad", .obj [])], ["Bad"]⟩) := rfl
  exact ⟨failed, rfl, fun h => nomatch h _ _ _ _ _ failed⟩

end CodecCompiler
