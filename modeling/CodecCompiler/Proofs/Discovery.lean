/-
Discovery: the depth-first walk by which ids are met. It takes the codecs of a stack from the front, puts the children
of a node in its place, and goes into the body of a recursive node at once when the id was not met before.

- `Discovers bodies seen stack met`: walking the stack, when the ids in `seen` are known, meets the ids of `met` for
  the first time, in this order, each with the name of the body that its first node names.
- `Discovers.append`: walks one after the other are one walk.
- `Discovers.unique`: a stack has at most one walk.
- `Discovers.distinct`, `Discovers.new`: no id is met twice, and none that was known.
- `Discovers.ids_stack`, `Discovers.ids_body`: in the end all ids of the stack, and of every body entered, are known.
- `Discovers.named`: where recursive nodes name the bodies of their own ids, ids are met with these.
-/
import CodecCompiler.Proofs.Tree

namespace CodecCompiler

open Entries (names)

inductive Discovers (bodies : Bodies) : (seen : List Text) → (stack : List Codec) → (met : Entries Text) → Prop
  | done {seen : List Text} : Discovers bodies seen [] []
  /-- an id that is known is passed over -/
  | again {seen : List Text} {m : Marks} {id body : Text} {rest : List Codec} {met : Entries Text} :
    id ∈ seen → Discovers bodies seen rest met → Discovers bodies seen (.recursive m id body :: rest) met
  /-- the body of a new id is walked before anything else -/
  | first {seen : List Text} {m : Marks} {id body : Text} {c : Codec} {rest : List Codec} {met : Entries Text} :
    id ∉ seen → Entries.get? bodies body = some c → Discovers bodies (seen ++ [id]) (c :: rest) met →
      Discovers bodies seen (.recursive m id body :: rest) ((id, body) :: met)
  /-- other nodes give way to their children -/
  | inner {seen : List Text} {c : Codec} {rest : List Codec} {met : Entries Text} :
    c.isRecursive = false → Discovers bodies seen (c.children ++ rest) met → Discovers bodies seen (c :: rest) met

namespace Discovers

variable {bodies : Bodies} {seen : List Text} {stack : List Codec} {met : Entries Text}

theorem append (h : Discovers bodies seen stack met) {stack' : List Codec} {met' : Entries Text}
    (h' : Discovers bodies (seen ++ names met) stack' met') :
    Discovers bodies seen (stack ++ stack') (met ++ met') := by
  induction h with
  | done => simpa using h'
  | again hid _ ih => exact .again hid (ih h')
  | first hid hbody _ ih =>
    refine .first hid hbody (ih ?_)
    rwa [List.append_assoc, List.singleton_append]
  | inner hc _ ih =>
    refine .inner hc ?_
    simpa using ih h'

/-- **The walk is determined** by the bodies, the known ids and the stack. -/
theorem unique (h : Discovers bodies seen stack met) {met' : Entries Text} (h' : Discovers bodies seen stack met') :
    met = met' := by
  induction h generalizing met' with
  | done =>
    cases h'
    rfl
  | again hid _ ih =>
    cases h' with
    | again _ hrest => exact ih hrest
    | first hnew _ _ => exact absurd hid hnew
    | inner hc _ => exact nomatch hc
  | first hid hbody _ ih =>
    cases h' with
    | again hknown _ => exact absurd hknown hid
    | first _ hbody' hrest =>
      rw [hbody] at hbody'
      cases hbody'
      rw [ih hrest]
    | inner hc _ => exact nomatch hc
  | inner hc _ ih =>
    cases h' with
    | again _ _ => exact nomatch hc
    | first _ _ _ => exact nomatch hc
    | inner _ hrest => exact ih hrest

theorem new (h : Discovers bodies seen stack met) : ∀ id ∈ names met, id ∉ seen := by
  induction h with
  | done => simp
  | again _ _ ih => exact ih
  | first hid _ _ ih =>
    intro other hother
    rcases List.mem_cons.1 hother with rfl | hother
    · exact hid
    · exact fun hmem => ih other hother (List.mem_append_left _ hmem)
  | inner _ _ ih => exact ih

theorem distinct (h : Discovers bodies seen stack met) : Entries.Distinct met := by
  induction h with
  | done => exact List.nodup_nil
  | again _ _ ih => exact ih
  | first _ _ hrest ih =>
    refine Entries.distinct_cons.2 ⟨fun hmem => ?_, ih⟩
    exact hrest.new _ hmem (List.mem_append_right _ List.mem_cons_self)
  | inner _ _ ih => exact ih

/-- is the id known when ids have been met beside those seen before -/
def Known (seen : List Text) (met : Entries Text) (id : Text) : Prop := id ∈ seen ++ names met

theorem known_cons {id : Text} {e : Text × Text} (h : Known (seen ++ [e.1]) met id) : Known seen (e :: met) id := by
  unfold Known at *
  rwa [List.append_assoc, List.singleton_append] at h

theorem ids_stack (h : Discovers bodies seen stack met) : ∀ c ∈ stack, ∀ id ∈ c.ids, Known seen met id := by
  induction h with
  | done => simp
  | again hid _ ih =>
    intro c hc other hother
    rcases List.mem_cons.1 hc with rfl | hc
    · rw [List.mem_singleton.1 hother]
      exact List.mem_append_left _ hid
    · exact ih c hc other hother
  | first _ _ _ ih =>
    intro c hc other hother
    rcases List.mem_cons.1 hc with rfl | hc
    · rw [List.mem_singleton.1 hother]
      exact List.mem_append_right _ List.mem_cons_self
    · exact known_cons (ih c (List.mem_cons_of_mem _ hc) other hother)
  | @inner _ d _ _ hd _ ih =>
    intro c hc other hother
    rcases List.mem_cons.1 hc with rfl | hc
    · have hown : c.ownIds = [] := by cases c <;> first | rfl | exact nomatch hd
      rw [Codec.ids_eq, hown, List.nil_append] at hother
      obtain ⟨child, hchild, hmem⟩ := List.mem_flatMap.1 hother
      exact ih child (List.mem_append_left _ hchild) other hmem
    · exact ih c (List.mem_append_right _ hc) other hother

theorem ids_body (h : Discovers bodies seen stack met) :
    ∀ e ∈ met, ∃ c, Entries.get? bodies e.2 = some c ∧ ∀ id ∈ c.ids, Known seen met id := by
  induction h with
  | done => simp
  | again _ _ ih => exact ih
  | @first _ _ id body c _ _ _ hbody hrest ih =>
    intro e he
    rcases List.mem_cons.1 he with rfl | he
    · exact ⟨c, hbody, fun other hother => known_cons (hrest.ids_stack c List.mem_cons_self other hother)⟩
    · obtain ⟨d, hd, hids⟩ := ih e he
      exact ⟨d, hd, fun other hother => known_cons (hids other hother)⟩
  | inner _ _ ih => exact ih

theorem named (h : Discovers bodies seen stack met) (hstack : ∀ c ∈ stack, c.All Codec.Named)
    (hbodies : ∀ name c, Entries.get? bodies name = some c → c.All Codec.Named) : ∀ e ∈ met, e.2 = e.1 := by
  induction h with
  | done => simp
  | again _ _ ih => exact ih fun c hc => hstack c (List.mem_cons_of_mem _ hc)
  | @first _ _ id body c rest _ _ hbody _ ih =>
    intro e he
    rcases List.mem_cons.1 he with rfl | he
    · exact (hstack _ List.mem_cons_self).here
    · refine ih (fun d hd => ?_) e he
      rcases List.mem_cons.1 hd with rfl | hd
      · exact hbodies body d hbody
      · exact hstack d (List.mem_cons_of_mem _ hd)
  | @inner _ c rest _ _ _ ih =>
    refine ih fun d hd => ?_
    rcases List.mem_append.1 hd with hd | hd
    · exact (hstack c List.mem_cons_self).child hd
    · exact hstack d (List.mem_cons_of_mem _ hd)

end Discovers

end CodecCompiler
