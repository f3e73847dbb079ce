/-
Traversal: the depth-first walk that the compiler takes, with every node that it meets. It takes the codecs of a stack
from the front, puts the children of a node in its place, and goes into the body of a recursive node only where the node
is the first one of its id.

- `Traverses bodies seen stack trace`: walking the stack, when the ids in `seen` are known, meets the nodes of `trace`,
  in this order, recursive nodes of known ids among them.
- `opened seen trace`: the ids that the nodes of a trace are the first ones of, each with the name of its body.
- `Traverses.split`: the walk of two stacks is the walk of the first one and then that of the second.
- `Traverses.unique`, `Traverses.total`: a stack has exactly one walk, where recursive nodes name bodies that are there.
- `Traverses.discovers`: the ids that a traversal opens are those that discovery meets.
-/
import CodecCompiler.Proofs.Runs

namespace CodecCompiler

open Entries (names get?)

inductive Traverses (bodies : Bodies) : (seen : List Text) → (stack trace : List Codec) → Prop
  | done {seen : List Text} : Traverses bodies seen [] []
  /-- a node whose id is known is met, and nothing behind it -/
  | again {seen : List Text} {m : Marks} {id body : Text} {rest trace : List Codec} :
    id ∈ seen → Traverses bodies seen rest trace →
      Traverses bodies seen (.recursive m id body :: rest) (.recursive m id body :: trace)
  /-- the body of a new id is walked before anything else -/
  | first {seen : List Text} {m : Marks} {id body : Text} {c : Codec} {rest trace : List Codec} :
    id ∉ seen → get? bodies body = some c → Traverses bodies (seen ++ [id]) (c :: rest) trace →
      Traverses bodies seen (.recursive m id body :: rest) (.recursive m id body :: trace)
  /-- other nodes give way to their children -/
  | inner {seen : List Text} {c : Codec} {rest trace : List Codec} :
    c.isRecursive = false → Traverses bodies seen (c.children ++ rest) trace →
      Traverses bodies seen (c :: rest) (c :: trace)

/-- the ids of which a node of the trace is the first one, where the ids in `seen` are known -/
def opened (seen : List Text) : List Codec → Entries Text
  | [] => []
  | .recursive _ id body :: trace =>
    if id ∈ seen then opened seen trace else (id, body) :: opened (seen ++ [id]) trace
  | _ :: trace => opened seen trace

section

variable {seen : List Text} {m : Marks} {id body : Text} {trace : List Codec}

theorem opened_again (h : id ∈ seen) : opened seen (.recursive m id body :: trace) = opened seen trace := by
  rw [opened, if_pos h]

theorem opened_first (h : id ∉ seen) :
    opened seen (.recursive m id body :: trace) = (id, body) :: opened (seen ++ [id]) trace := by
  rw [opened, if_neg h]

theorem opened_inner {c : Codec} (h : c.isRecursive = false) : opened seen (c :: trace) = opened seen trace := by
  cases c with
  | recursive => cases h
  | _ => rw [opened]; simp

theorem opened_append (seen : List Text) (a b : List Codec) :
    opened seen (a ++ b) = opened seen a ++ opened (seen ++ names (opened seen a)) b := by
  induction a generalizing seen with
  | nil => simp [opened]
  | cons c a ih =>
    rcases c.recursive_or with ⟨m, id, body, rfl⟩ | hc
    · by_cases hid : id ∈ seen
      · rw [List.cons_append, opened_again hid, opened_again hid, ih]
      · rw [List.cons_append, opened_first hid, opened_first hid, ih, Entries.names_cons, List.cons_append,
          List.append_assoc, List.singleton_append]
    · rw [List.cons_append, opened_inner hc, opened_inner hc, ih]

end

namespace Traverses

variable {bodies : Bodies} {seen : List Text} {stack trace : List Codec}

theorem append (h : Traverses bodies seen stack trace) {stack' trace' : List Codec}
    (h' : Traverses bodies (seen ++ names (opened seen trace)) stack' trace') :
    Traverses bodies seen (stack ++ stack') (trace ++ trace') := by
  induction h with
  | done => simpa [opened] using h'
  | again hid _ ih =>
    rw [opened_again hid] at h'
    exact .again hid (ih h')
  | first hid hbody _ ih =>
    rw [opened_first hid] at h'
    refine .first hid hbody (ih ?_)
    rwa [List.append_assoc, List.singleton_append]
  | inner hc _ ih =>
    rw [opened_inner hc] at h'
    refine .inner hc ?_
    simpa using ih h'

theorem split_nil {b : List Codec} (h : Traverses bodies seen b trace) :
    ∃ front back, trace = front ++ back ∧ Traverses bodies seen [] front ∧
      Traverses bodies (seen ++ names (opened seen front)) b back :=
  ⟨[], trace, rfl, .done, by simpa [opened] using h⟩

/-- **The walk of a stack in two parts** meets what the first part leads to, and then what the second one does. -/
theorem split {a b : List Codec} (h : Traverses bodies seen (a ++ b) trace) :
    ∃ front back, trace = front ++ back ∧ Traverses bodies seen a front ∧
      Traverses bodies (seen ++ names (opened seen front)) b back := by
  generalize hstack : a ++ b = stack at h
  induction h generalizing a with
  | done =>
    obtain ⟨rfl, rfl⟩ := List.append_eq_nil_iff.1 hstack
    exact ⟨[], [], rfl, .done, .done⟩
  | @again seen m id body rest trace hid hrest ih =>
    cases a with
    | nil =>
      rw [List.nil_append] at hstack
      exact hstack ▸ split_nil (.again hid hrest)
    | cons c a =>
      obtain ⟨rfl, rfl⟩ := List.cons.inj hstack
      obtain ⟨front, back, rfl, hfront, hback⟩ := ih rfl
      refine ⟨_ :: front, back, rfl, .again hid hfront, ?_⟩
      rwa [opened_again hid]
  | @first seen m id body c rest trace hid hbody hrest ih =>
    cases a with
    | nil =>
      rw [List.nil_append] at hstack
      exact hstack ▸ split_nil (.first hid hbody hrest)
    | cons d a =>
      obtain ⟨rfl, rfl⟩ := List.cons.inj hstack
      obtain ⟨front, back, rfl, hfront, hback⟩ := ih (a := c :: a) rfl
      refine ⟨_ :: front, back, rfl, .first hid hbody hfront, ?_⟩
      rwa [opened_first hid, Entries.names_cons, ← List.singleton_append, ← List.append_assoc]
  | @inner seen c rest trace hc hrest ih =>
    cases a with
    | nil =>
      rw [List.nil_append] at hstack
      exact hstack ▸ split_nil (.inner hc hrest)
    | cons d a =>
      obtain ⟨rfl, rfl⟩ := List.cons.inj hstack
      obtain ⟨front, back, rfl, hfront, hback⟩ := ih (List.append_assoc _ a b)
      refine ⟨_ :: front, back, rfl, .inner hc hfront, ?_⟩
      rwa [opened_inner hc]

/-- **The walk is determined** by the bodies, the known ids and the stack. -/
theorem unique (h : Traverses bodies seen stack trace) {trace' : List Codec}
    (h' : Traverses bodies seen stack trace') : trace = trace' := by
  induction h generalizing trace' with
  | done =>
    cases h'
    rfl
  | again hid _ ih =>
    cases h' with
    | again _ hrest => rw [ih hrest]
    | first hnew _ _ => exact absurd hid hnew
    | inner hc _ => exact nomatch hc
  | first hid hbody _ ih =>
    cases h' with
    | again hknown _ => exact absurd hknown hid
    | first _ hbody' hrest =>
      cases hbody.symm.trans hbody'
      rw [ih hrest]
    | inner hc _ => exact nomatch hc
  | inner hc _ ih =>
    cases h' with
    | again _ _ => exact nomatch hc
    | first _ _ _ => exact nomatch hc
    | inner _ hrest => rw [ih hrest]

/-- what a traversal opens is what discovery meets -/
theorem discovers (h : Traverses bodies seen stack trace) : Discovers bodies seen stack (opened seen trace) := by
  induction h with
  | done => exact .done
  | again hid _ ih =>
    rw [opened_again hid]
    exact .again hid ih
  | first hid hbody _ ih =>
    rw [opened_first hid]
    exact .first hid hbody ih
  | inner hc _ ih =>
    rw [opened_inner hc]
    exact .inner hc ih

/-! ## Every stack is walked -/

/-- codecs one after the other are walked where each of them is, whatever more is known -/
theorem exists_list {ids : List Text} {bound : Nat} {cs : List Codec}
    (h : ∀ c ∈ cs, ∀ seen, unseen ids seen < bound → ∃ trace, Traverses bodies seen [c] trace) (seen : List Text)
    (hseen : unseen ids seen < bound) : ∃ trace, Traverses bodies seen cs trace := by
  induction cs generalizing seen with
  | nil => exact ⟨[], .done⟩
  | cons c cs ih =>
    obtain ⟨front, hfront⟩ := h c List.mem_cons_self seen hseen
    have hless : unseen ids (seen ++ names (opened seen front)) < bound :=
      (unseen_le (List.subset_append_left _ _)).trans_lt hseen
    obtain ⟨back, hback⟩ := ih (fun d hd => h d (List.mem_cons_of_mem c hd)) _ hless
    exact ⟨front ++ back, hfront.append hback⟩

/-- **Where recursive nodes name bodies that are there, every codec is walked**: a body is walked with an id more that
is known, and there are only so many ids. -/
theorem total {ctx : Context} {ids : List Text}
    (hbodies : ∀ body c, get? ctx.bodies body = some c → c.All (Codec.Entered ctx ids)) {c : Codec}
    (hc : c.All (Codec.Entered ctx ids)) (seen : List Text) : ∃ trace, Traverses ctx.bodies seen [c] trace := by
  suffices h : ∀ bound (c : Codec), c.All (Codec.Entered ctx ids) → ∀ seen, unseen ids seen < bound →
      ∃ trace, Traverses ctx.bodies seen [c] trace from h _ c hc seen (Nat.lt_succ_self _)
  clear hc c seen
  intro bound
  induction bound with
  | zero => exact fun _ _ _ hseen => absurd hseen (Nat.not_lt_zero _)
  | succ bound ih =>
    intro c hc
    induction hc with
    | @intro c here _ ihchildren =>
      intro seen hseen
      rcases c.recursive_or with ⟨m, id, body, rfl⟩ | hkind
      · by_cases hid : id ∈ seen
        · exact ⟨_, .again hid .done⟩
        · obtain ⟨hmem, d, hd⟩ := here
          have hless := unseen_lt hmem hid
          obtain ⟨trace, htrace⟩ := ih d (hbodies body d hd) (seen ++ [id]) (by omega)
          exact ⟨_, .first hid hd htrace⟩
      · obtain ⟨trace, htrace⟩ := exists_list ihchildren seen hseen
        exact ⟨c :: trace, .inner hkind (by rwa [List.append_nil])⟩

end Traverses

end CodecCompiler
