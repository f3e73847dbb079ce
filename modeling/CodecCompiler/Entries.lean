/-
Ordered entries: lists of named values in which order counts and a name is meant to occur once. They are the objects
of JSON texts, the fields of a schema fragment, the shapes of object codecs and the definitions of a document.

- `set` keeps the place of a name and replaces its value; a new name goes to the end.
- `merge` is the last-write-wins union: the value of the last entry of a name, at the place of its first.
- `names_set_of_mem`, `names_set_of_not_mem`: what `set` does to the order of names.
- `distinct_set`, `distinct_merge`, `distinct_mergeAll`: names stay distinct.
-/
import CodecCompiler.Text.Basic

namespace CodecCompiler

universe u v

/-- named values in order -/
abbrev Entries (α : Type u) := List (Text × α)

namespace Entries

variable {α : Type u} {β : Type v}

/-- the names, in order -/
def names (es : Entries α) : List Text := es.map (·.1)

/-- the value of the first entry of a name -/
def get? : Entries α → Text → Option α
  | [], _ => none
  | (k, v) :: rest, name => if k = name then some v else get? rest name

/-- is the name among the entries -/
def has (es : Entries α) (name : Text) : Bool := (get? es name).isSome

/-- gives a name a value: in its place when it has one, at the end otherwise -/
def set : Entries α → Text → α → Entries α
  | [], name, value => [(name, value)]
  | (k, v) :: rest, name, value =>
    if k = name then (k, value) :: rest else (k, v) :: set rest name value

/-- the entries of `b` written over those of `a`, one after the other -/
def merge (a b : Entries α) : Entries α := b.foldl (fun es e => set es e.1 e.2) a

/-- all the entries merged from left to right -/
def mergeAll (ess : List (Entries α)) : Entries α := ess.foldl merge []

/-- every name occurs once -/
def Distinct (es : Entries α) : Prop := (names es).Nodup

/-- applies a function to every value -/
def mapValues (f : α → β) (es : Entries α) : Entries β := es.map fun e => (e.1, f e.2)

@[simp] theorem names_nil : names ([] : Entries α) = [] := rfl

@[simp] theorem names_cons (e : Text × α) (es : Entries α) : names (e :: es) = e.1 :: names es := rfl

@[simp] theorem names_append (a b : Entries α) : names (a ++ b) = names a ++ names b := by
  simp [names]

@[simp] theorem names_mapValues (f : α → β) (es : Entries α) : names (mapValues f es) = names es := by
  simp [names, mapValues, Function.comp_def]

@[simp] theorem get?_nil (name : Text) : get? ([] : Entries α) name = none := rfl

theorem get?_cons (k : Text) (v : α) (rest : Entries α) (name : Text) :
    get? ((k, v) :: rest) name = if k = name then some v else get? rest name := rfl

theorem get?_eq_none_iff {es : Entries α} {name : Text} : get? es name = none ↔ name ∉ names es := by
  induction es with
  | nil => simp
  | cons e rest ih =>
    by_cases h : e.1 = name
    · simp [get?, h]
    · simp [get?, h, ih, Ne.symm h]

theorem names_set_of_mem {es : Entries α} {name : Text} (h : name ∈ names es) (value : α) :
    names (set es name value) = names es := by
  induction es with
  | nil => simp at h
  | cons e rest ih =>
    by_cases hk : e.1 = name
    · simp [set, hk]
    · simp only [names_cons, List.mem_cons, Ne.symm hk, false_or] at h
      simp [set, hk, ih h]

theorem names_set_of_not_mem {es : Entries α} {name : Text} (h : name ∉ names es) (value : α) :
    set es name value = es ++ [(name, value)] := by
  induction es with
  | nil => rfl
  | cons e rest ih =>
    simp only [names_cons, List.mem_cons, not_or] at h
    simp [set, Ne.symm h.1, ih h.2]

theorem get?_set (es : Entries α) (name other : Text) (value : α) :
    get? (set es name value) other = if other = name then some value else get? es other := by
  induction es with
  | nil =>
    by_cases h : other = name
    · simp [set, get?, h]
    · simp [set, get?, h, Ne.symm h]
  | cons e rest ih =>
    by_cases hk : e.1 = name
    · by_cases h : other = name
      · simp [set, get?, hk, h]
      · have h' : ¬ e.1 = other := fun he => h (he ▸ hk)
        have h'' : ¬ name = other := fun he => h he.symm
        simp [set, get?, hk, h, h'']
    · by_cases h : e.1 = other
      · have h' : ¬ other = name := fun he => hk (h.trans he)
        simp [set, get?, h, h']
      · simp [set, get?, hk, h, ih]

theorem distinct_set {es : Entries α} (h : Distinct es) (name : Text) (value : α) :
    Distinct (set es name value) := by
  unfold Distinct at *
  by_cases hm : name ∈ names es
  · rw [names_set_of_mem hm]; exact h
  · rw [names_set_of_not_mem hm, names_append]
    refine List.nodup_append.2 ⟨h, by simp [names], ?_⟩
    intro a ha b hb hab
    simp only [names_cons, names_nil, List.mem_singleton] at hb
    exact hm (hb ▸ hab ▸ ha)

theorem distinct_merge {a : Entries α} (h : Distinct a) (b : Entries α) : Distinct (merge a b) := by
  unfold merge
  induction b generalizing a with
  | nil => exact h
  | cons e rest ih => exact ih (distinct_set h e.1 e.2)

theorem distinct_mergeAll (ess : List (Entries α)) : Distinct (mergeAll ess) := by
  have : ∀ (acc : Entries α), Distinct acc → Distinct (ess.foldl merge acc) := by
    induction ess with
    | nil => exact fun _ h => h
    | cons es rest ih => exact fun acc h => ih _ (distinct_merge h es)
  exact this [] List.nodup_nil

end Entries

end CodecCompiler
