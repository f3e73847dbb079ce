/-
What computations ensure: one property of all their failures, and one of all their values. Both go through the steps
of a computation one by one, and in a computation with a state an invariant of the state goes with them.

- `Ensures E Q x`: a failure of `x` satisfies `E`, a value `Q`. `Ensures.bind`: so it does if its steps do.
- `FailsWith E x`: the same with nothing said of values.
- `Maintains I E Q x`: a computation ensures both from every state with the invariant `I`, which holds again at its end.
  `Maintains.bind`, `Maintains.mapM`: so it does if its steps do.
-/
import Mathlib.Tactic

namespace CodecCompiler

variable {ε α β σ : Type} {E : ε → Prop} {Q : α → Prop} {R : β → Prop}

/-! ## Computations -/

/-- a failure satisfies the one property, a value the other -/
inductive Ensures (E : ε → Prop) (Q : α → Prop) : Except ε α → Prop
  | error {e : ε} (h : E e) : Ensures E Q (.error e)
  | ok {a : α} (h : Q a) : Ensures E Q (.ok a)

/-- it fails in these ways at most -/
abbrev FailsWith (E : ε → Prop) (x : Except ε α) : Prop := Ensures E (fun _ => True) x

namespace Ensures

theorem mono {x : Except ε α} (h : Ensures E Q x) {F : ε → Prop} {P : α → Prop} (he : ∀ e, E e → F e)
    (ha : ∀ a, Q a → P a) : Ensures F P x := by
  cases h with
  | error h => exact .error (he _ h)
  | ok h => exact .ok (ha _ h)

theorem weaken {x : Except ε α} (h : Ensures E Q x) {F : ε → Prop} (he : ∀ e, E e → F e) : Ensures F Q x :=
  h.mono he fun _ h => h

theorem bind {x : Except ε α} {f : α → Except ε β} (h : Ensures E Q x) (hf : ∀ a, Q a → Ensures E R (f a)) :
    Ensures E R (x >>= f) := by
  cases h with
  | error h => exact .error h
  | ok h => exact hf _ h

theorem map {x : Except ε α} {f : α → β} (h : Ensures E Q x) (hf : ∀ a, Q a → R (f a)) : Ensures E R (x.map f) := by
  cases h with
  | error h => exact .error h
  | ok h => exact .ok (hf _ h)

theorem mapM {f : α → Except ε β} {as : List α} (h : ∀ a ∈ as, Ensures E R (f a)) :
    Ensures E (fun bs => bs.length = as.length ∧ ∀ b ∈ bs, R b) (as.mapM f) := by
  induction as with
  | nil => exact .ok ⟨rfl, by simp⟩
  | cons a as ih =>
    rw [List.mapM_cons]
    refine (h a List.mem_cons_self).bind fun b hb => ?_
    refine (ih fun a' ha' => h a' (List.mem_cons_of_mem a ha')).bind fun bs hbs => ?_
    exact .ok ⟨by simp [hbs.1], by simpa using ⟨hb, hbs.2⟩⟩

end Ensures

theorem FailsWith.map {x : Except ε α} {f : α → β} (h : FailsWith E x) : FailsWith E (x.map f) :=
  Ensures.map h fun _ _ => trivial

/-! ## Computations with a state -/

/-- from a state with the invariant, the result has its property, and the invariant holds again at the end -/
def Maintains (I : σ → Prop) (E : ε → Prop) (Q : α → Prop) (x : StateT σ (Except ε) α) : Prop :=
  ∀ s, I s → Ensures E (fun r => Q r.1 ∧ I r.2) (x.run s)

namespace Maintains

variable {I : σ → Prop}

theorem pure {a : α} (h : Q a) : Maintains I E Q (Pure.pure a) := fun _ hs => .ok ⟨h, hs⟩

theorem throw {e : ε} (h : E e) : Maintains I E Q (MonadExcept.throw e) := fun _ _ => .error h

theorem lift {x : Except ε α} (h : Ensures E Q x) : Maintains I E Q (liftM x) := fun s hs => by
  cases h with
  | error h => exact .error h
  | ok h => exact .ok ⟨h, hs⟩

theorem get : Maintains I E I get := fun _ hs => .ok ⟨hs, hs⟩

theorem set {s : σ} (h : I s) : Maintains I E (fun _ => True) (set s : StateT σ (Except ε) PUnit) :=
  fun _ _ => .ok ⟨trivial, h⟩

theorem modifyGet {f : σ → α × σ} (h : ∀ s, I s → Q (f s).1 ∧ I (f s).2) :
    Maintains I E Q (modifyGet f : StateT σ (Except ε) α) := fun s hs => .ok (h s hs)

theorem modify {f : σ → σ} (h : ∀ s, I s → I (f s)) :
    Maintains I E (fun _ => True) (modify f : StateT σ (Except ε) PUnit) := fun s hs => .ok ⟨trivial, h s hs⟩

theorem bind {x : StateT σ (Except ε) α} {f : α → StateT σ (Except ε) β} (h : Maintains I E Q x)
    (hf : ∀ a, Q a → Maintains I E R (f a)) : Maintains I E R (x >>= f) := fun s hs => by
  rw [StateT.run_bind]
  exact (h s hs).bind fun r hr => hf r.1 hr.1 r.2 hr.2

/-- nothing comes behind a failure -/
theorem throw_bind {e : ε} (h : E e) {f : α → StateT σ (Except ε) β} :
    Maintains I E R (MonadExcept.throw e >>= f) := fun _ _ => .error h

/-- a value made of the result at the end -/
theorem returns {x : StateT σ (Except ε) α} (h : Maintains I E Q x) {f : α → β} :
    Maintains I E (fun _ => True) (x >>= fun a => Pure.pure (f a)) :=
  h.bind fun _ _ => pure trivial

theorem mapM {f : α → StateT σ (Except ε) β} {as : List α} (h : ∀ a ∈ as, Maintains I E R (f a)) :
    Maintains I E (fun bs => ∀ b ∈ bs, R b) (as.mapM f) := by
  induction as with
  | nil => exact pure (by simp)
  | cons a as ih =>
    rw [List.mapM_cons]
    refine (h a List.mem_cons_self).bind fun b hb => ?_
    refine (ih fun a' ha' => h a' (List.mem_cons_of_mem a ha')).bind fun bs hbs => ?_
    exact pure (by simpa using ⟨hb, hbs⟩)

theorem forM {f : α → StateT σ (Except ε) PUnit} {as : List α} (h : ∀ a ∈ as, Maintains I E (fun _ => True) (f a)) :
    Maintains I E (fun _ => True) (as.forM f) := by
  induction as with
  | nil => exact pure trivial
  | cons a as ih =>
    change Maintains I E (fun _ => True) (f a >>= fun _ => as.forM f)
    exact (h a List.mem_cons_self).bind fun _ _ => ih fun a' ha' => h a' (List.mem_cons_of_mem a ha')

end Maintains

end CodecCompiler
