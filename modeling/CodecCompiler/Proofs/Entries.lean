/-
Ordered entries: how looking up, setting and merging work on lists that are put together from parts.

- `get?_perm`: looking up does not depend on the order.
- `get?_append_of_some`, `get?_append_of_new`: which part of a list a name is looked up in.
- `set_middle`: setting a name that stands in the middle keeps what is around it.
- `merge_of_disjoint`: a merge of entries whose names are all new puts one list behind the other.
- `mem_merge`, `mem_names_merge`: a merge holds entries of its two sides only, and names of both.
- `get?_merge`, `names_merge_of_distinct`: the last entry of a name counts, and its first keeps its place.
- `merge_merge`, `mergeAll_append`: merging is associative.
- `mem_mergeAll`, `mem_names_mergeAll`: so does a merge of many.
- `merge_mapValues`, `mergeAll_mapValues`: merges commute with a function on the values.
-/
import CodecCompiler.Entries
import Mathlib.Tactic

namespace CodecCompiler.Entries

universe u v

variable {α : Type u} {β : Type v}

/-! ## Looking up -/

theorem has_iff {es : Entries α} {name : Text} : has es name = true ↔ name ∈ names es := by
  unfold has
  rw [Option.isSome_iff_ne_none, Ne, get?_eq_none_iff, not_not]

theorem distinct_cons {e : Text × α} {es : Entries α} : Distinct (e :: es) ↔ e.1 ∉ names es ∧ Distinct es :=
  List.nodup_cons

/-- the name of an entry is new behind those before it -/
theorem not_mem_names_of_distinct {a b : Entries α} {e : Text × α} (h : Distinct (a ++ e :: b)) : e.1 ∉ names a := by
  intro hmem
  rw [Distinct, names_append, List.nodup_append] at h
  exact h.2.2 e.1 hmem e.1 List.mem_cons_self rfl

theorem mem_names {es : Entries α} {e : Text × α} (h : e ∈ es) : e.1 ∈ names es := List.mem_map_of_mem h

theorem mem_of_get? {es : Entries α} {name : Text} {value : α} (h : get? es name = some value) :
    (name, value) ∈ es := by
  induction es with
  | nil => simp at h
  | cons e rest ih =>
    rw [get?_cons] at h
    split_ifs at h with hk
    · simp only [Option.some.injEq] at h
      rw [← hk, ← h]
      exact List.mem_cons_self
    · exact List.mem_cons_of_mem e (ih h)

theorem get?_eq_some_iff {es : Entries α} (hes : Distinct es) {name : Text} {value : α} :
    get? es name = some value ↔ (name, value) ∈ es := by
  refine ⟨mem_of_get?, fun h => ?_⟩
  induction es with
  | nil => exact absurd h List.not_mem_nil
  | cons e rest ih =>
    obtain ⟨he, hrest⟩ := distinct_cons.1 hes
    rw [get?_cons]
    rcases List.mem_cons.1 h with rfl | h
    · rw [if_pos rfl]
    · have hother : e.1 ≠ name := fun hk => he (by simpa [hk] using mem_names h)
      rw [if_neg hother]
      exact ih hrest h

/-- the order of entries does not count where their names are distinct -/
theorem get?_perm {es fs : Entries α} (h : es.Perm fs) (hes : Distinct es) (name : Text) : get? es name = get? fs name := by
  have hfs : Distinct fs := (h.map _).nodup_iff.1 hes
  refine Option.ext fun value => ?_
  rw [get?_eq_some_iff hes, get?_eq_some_iff hfs, h.mem_iff]

theorem exists_get? {es : Entries α} {name : Text} (h : name ∈ names es) : ∃ value, get? es name = some value := by
  rw [← has_iff] at h
  exact Option.isSome_iff_exists.1 h

theorem get?_append_of_some {a : Entries α} {name : Text} {value : α} (h : get? a name = some value) (b : Entries α) :
    get? (a ++ b) name = some value := by
  induction a with
  | nil => simp at h
  | cons e rest ih =>
    rw [get?_cons] at h
    rw [List.cons_append, get?_cons]
    split_ifs at h ⊢
    · exact h
    · exact ih h

theorem get?_append_of_new {a : Entries α} {name : Text} (h : name ∉ names a) (b : Entries α) :
    get? (a ++ b) name = get? b name := by
  induction a with
  | nil => rfl
  | cons e rest ih =>
    rw [names_cons, List.mem_cons, not_or] at h
    rw [List.cons_append, get?_cons, if_neg (Ne.symm h.1), ih h.2]

theorem get?_mapValues (f : α → β) (es : Entries α) (name : Text) :
    get? (mapValues f es) name = (get? es name).map f := by
  induction es with
  | nil => rfl
  | cons e rest ih =>
    change get? ((e.1, f e.2) :: mapValues f rest) name = _
    rw [get?_cons, get?_cons, ih]
    split_ifs <;> rfl

theorem mapValues_zip (f : α → β) (keys : List Text) (values : List α) :
    mapValues f (keys.zip values) = keys.zip (values.map f) := by
  rw [List.zip_map_right]
  rfl

theorem names_zip {keys : List Text} {values : List α} (h : keys.length = values.length) :
    names (keys.zip values) = keys :=
  List.map_fst_zip h.le

/-! ## Setting -/

theorem set_middle {a : Entries α} {name : Text} (h : name ∉ names a) (b : Entries α) (old new : α) :
    set (a ++ (name, old) :: b) name new = a ++ (name, new) :: b := by
  induction a with
  | nil => simp [set]
  | cons e rest ih =>
    simp only [names_cons, List.mem_cons, not_or] at h
    simp [set, Ne.symm h.1, ih h.2]

theorem mem_set {es : Entries α} {name : Text} {value : α} {e : Text × α} (h : e ∈ set es name value) :
    e ∈ es ∨ e = (name, value) := by
  induction es with
  | nil => exact Or.inr (by simpa [set] using h)
  | cons first rest ih =>
    simp only [set] at h
    split_ifs at h with hk
    · rcases List.mem_cons.1 h with rfl | h
      · exact Or.inr (by rw [hk])
      · exact Or.inl (List.mem_cons_of_mem first h)
    · rcases List.mem_cons.1 h with rfl | h
      · exact Or.inl List.mem_cons_self
      · exact (ih h).imp_left (List.mem_cons_of_mem first)

theorem mem_names_set {es : Entries α} {name other : Text} {value : α} :
    other ∈ names (set es name value) ↔ other ∈ names es ∨ other = name := by
  by_cases h : name ∈ names es
  · rw [names_set_of_mem h]
    exact ⟨Or.inl, fun ho => ho.elim id (· ▸ h)⟩
  · rw [names_set_of_not_mem h, names_append]
    simp

/-! ## Merging -/

@[simp] theorem merge_nil (a : Entries α) : merge a [] = a := rfl

theorem merge_cons (a : Entries α) (e : Text × α) (b : Entries α) : merge a (e :: b) = merge (set a e.1 e.2) b := rfl

theorem merge_of_disjoint {a b : Entries α} (hb : Distinct b) (h : ∀ name ∈ names b, name ∉ names a) :
    merge a b = a ++ b := by
  induction b generalizing a with
  | nil => simp
  | cons e rest ih =>
    obtain ⟨he, hrest⟩ := distinct_cons.1 hb
    rw [merge_cons, names_set_of_not_mem (h e.1 List.mem_cons_self), ih hrest, List.append_assoc, List.singleton_append]
    intro name hname
    rw [names_append, List.mem_append, not_or]
    refine ⟨h name (List.mem_cons_of_mem _ hname), fun hmem => he ?_⟩
    rw [names_cons, names_nil, List.mem_singleton] at hmem
    exact hmem ▸ hname

theorem mem_merge {a b : Entries α} {e : Text × α} (h : e ∈ merge a b) : e ∈ a ∨ e ∈ b := by
  induction b generalizing a with
  | nil => exact Or.inl h
  | cons first rest ih =>
    rw [merge_cons] at h
    rcases ih h with h | h
    · rcases mem_set h with h | rfl
      · exact Or.inl h
      · exact Or.inr List.mem_cons_self
    · exact Or.inr (List.mem_cons_of_mem first h)

theorem mem_names_merge {a b : Entries α} {name : Text} :
    name ∈ names (merge a b) ↔ name ∈ names a ∨ name ∈ names b := by
  induction b generalizing a with
  | nil => simp
  | cons e rest ih => rw [merge_cons, ih, mem_names_set, names_cons, List.mem_cons, or_assoc]

theorem set_mapValues (f : α → β) (es : Entries α) (name : Text) (value : α) :
    set (mapValues f es) name (f value) = mapValues f (set es name value) := by
  induction es with
  | nil => rfl
  | cons e rest ih =>
    change set ((e.1, f e.2) :: mapValues f rest) name (f value) = mapValues f (set (e :: rest) name value)
    simp only [set]
    split_ifs
    · rfl
    · rw [ih]
      rfl

theorem merge_mapValues (f : α → β) (a b : Entries α) :
    merge (mapValues f a) (mapValues f b) = mapValues f (merge a b) := by
  induction b generalizing a with
  | nil => rfl
  | cons e rest ih =>
    change merge (set (mapValues f a) e.1 (f e.2)) (mapValues f rest) = _
    rw [set_mapValues, ih, merge_cons]

/-! ### What a merge amounts to -/

theorem merge_append (a b c : Entries α) : merge a (b ++ c) = merge (merge a b) c := List.foldl_append

/-- the last entry of a name counts -/
theorem get?_merge (a b : Entries α) (name : Text) :
    get? (merge a b) name = (get? b.reverse name).or (get? a name) := by
  induction b generalizing a with
  | nil => simp
  | cons e rest ih =>
    rw [merge_cons, ih, get?_set, List.reverse_cons]
    by_cases hrest : name ∈ names rest.reverse
    · obtain ⟨v, hv⟩ := exists_get? hrest
      rw [get?_append_of_some hv, hv]
      rfl
    · rw [get?_append_of_new hrest, get?_eq_none_iff.2 hrest, Option.none_or, get?_cons]
      by_cases he : e.1 = name
      · simp [he]
      · simp [he, Ne.symm he]

theorem get?_merge_of_distinct (a : Entries α) {b : Entries α} (hb : Distinct b) (name : Text) :
    get? (merge a b) name = (get? b name).or (get? a name) := by
  rw [get?_merge, get?_perm b.reverse_perm (((List.reverse_perm b).map _).nodup_iff.2 hb)]

theorem names_merge_of_distinct (a : Entries α) {b : Entries α} (hb : Distinct b) :
    names (merge a b) = names a ++ (names b).filter (· ∉ names a) := by
  induction b generalizing a with
  | nil => simp
  | cons e rest ih =>
    obtain ⟨he, hrest⟩ := distinct_cons.1 hb
    rw [merge_cons, ih _ hrest, names_cons, List.filter_cons]
    by_cases hmem : e.1 ∈ names a
    · simp [names_set_of_mem hmem, hmem]
    · have hfilter : (names rest).filter (· ∉ names (set a e.1 e.2)) = (names rest).filter (· ∉ names a) := by
        refine List.filter_congr fun name hname => ?_
        have hne : name ≠ e.1 := fun heq => he (heq ▸ hname)
        simp [mem_names_set, hne]
      rw [hfilter, names_set_of_not_mem hmem, names_append]
      simp [hmem]

theorem set_set (es : Entries α) (name : Text) (old new : α) : set (set es name old) name new = set es name new := by
  induction es with
  | nil => simp [set]
  | cons e rest ih =>
    by_cases h : e.1 = name
    · simp [set, h]
    · simp [set, h, ih]

/-- where a name has its place already, it does not count which of two is set first -/
theorem set_comm {es : Entries α} {name other : Text} (hmem : name ∈ names es) (hne : name ≠ other) (v w : α) :
    set (set es other w) name v = set (set es name v) other w := by
  induction es with
  | nil => exact absurd hmem List.not_mem_nil
  | cons e rest ih =>
    by_cases h : e.1 = name
    · have ho : e.1 ≠ other := fun ho => hne (h.symm.trans ho)
      simp [set, h, hne]
    · have hrest : name ∈ names rest := (List.mem_cons.1 hmem).resolve_left (Ne.symm h)
      by_cases ho : e.1 = other
      · simp [set, ho, Ne.symm hne]
      · simp [set, h, ho, ih hrest]

theorem set_merge {a b : Entries α} {name : Text} (ha : name ∈ names a) (hb : name ∉ names b) (v : α) :
    set (merge a b) name v = merge (set a name v) b := by
  induction b generalizing a with
  | nil => rfl
  | cons e rest ih =>
    rw [names_cons, List.mem_cons, not_or] at hb
    rw [merge_cons, merge_cons, ih (mem_names_set.2 (Or.inl ha)) hb.2, set_comm ha hb.1]

/-- writing a set of entries over others is setting the name last -/
theorem merge_set (a : Entries α) {b : Entries α} (hb : Distinct b) (name : Text) (v : α) :
    merge a (set b name v) = set (merge a b) name v := by
  by_cases hmem : name ∈ names b
  · obtain ⟨old, hold⟩ := exists_get? hmem
    obtain ⟨before, after, rfl⟩ := List.append_of_mem (mem_of_get? hold)
    have hbefore : name ∉ names before := not_mem_names_of_distinct hb
    have hafter : name ∉ names after := by
      unfold Distinct at hb
      rw [names_append, List.nodup_append] at hb
      exact (List.nodup_cons.1 hb.2.1).1
    rw [set_middle hbefore, merge_append, merge_append, merge_cons, merge_cons,
      set_merge (mem_names_set.2 (Or.inr rfl)) hafter, set_set]
  · rw [names_set_of_not_mem hmem, merge_append]
    rfl

/-- **Merging is associative.** -/
theorem merge_merge (a : Entries α) {b : Entries α} (hb : Distinct b) (c : Entries α) :
    merge a (merge b c) = merge (merge a b) c := by
  induction c generalizing b with
  | nil => rfl
  | cons e rest ih => rw [merge_cons, ih (distinct_set hb e.1 e.2), merge_set a hb, merge_cons]

/-! ## Merges of many -/

theorem mem_foldl_merge {ess : List (Entries α)} {acc : Entries α} {e : Text × α} (h : e ∈ ess.foldl merge acc) :
    e ∈ acc ∨ ∃ es ∈ ess, e ∈ es := by
  induction ess generalizing acc with
  | nil => exact Or.inl h
  | cons es ess ih =>
    rcases ih h with hacc | ⟨fs, hfs, he⟩
    · rcases mem_merge hacc with hacc | he
      · exact Or.inl hacc
      · exact Or.inr ⟨es, List.mem_cons_self, he⟩
    · exact Or.inr ⟨fs, List.mem_cons_of_mem es hfs, he⟩

theorem mem_mergeAll {ess : List (Entries α)} {e : Text × α} (h : e ∈ mergeAll ess) : ∃ es ∈ ess, e ∈ es := by
  rcases mem_foldl_merge h with hnil | hsome
  · exact absurd hnil List.not_mem_nil
  · exact hsome

theorem mem_names_mergeAll {ess : List (Entries α)} {name : Text} :
    name ∈ names (mergeAll ess) ↔ ∃ es ∈ ess, name ∈ names es := by
  have hfold : ∀ acc : Entries α,
      name ∈ names (ess.foldl merge acc) ↔ name ∈ names acc ∨ ∃ es ∈ ess, name ∈ names es := by
    induction ess with
    | nil => simp
    | cons es ess ih =>
      intro acc
      rw [List.foldl_cons, ih, mem_names_merge, or_assoc]
      simp
  unfold mergeAll
  rw [hfold []]
  simp

theorem mergeAll_mapValues (f : α → β) (ess : List (Entries α)) :
    mergeAll (ess.map (mapValues f)) = mapValues f (mergeAll ess) := by
  have hfold : ∀ acc : Entries α, (ess.map (mapValues f)).foldl merge (mapValues f acc) =
      mapValues f (ess.foldl merge acc) := by
    induction ess with
    | nil => exact fun _ => rfl
    | cons es ess ih =>
      intro acc
      rw [List.map_cons, List.foldl_cons, List.foldl_cons, merge_mapValues, ih]
  exact hfold []

/-- folding entries into others is merging what they amount to -/
theorem foldl_merge (acc : Entries α) (ess : List (Entries α)) : ess.foldl merge acc = merge acc (mergeAll ess) := by
  have hfold : ∀ b : Entries α, Distinct b → ess.foldl merge (merge acc b) = merge acc (ess.foldl merge b) := by
    induction ess with
    | nil => exact fun _ _ => rfl
    | cons es ess ih =>
      intro b hb
      rw [List.foldl_cons, List.foldl_cons, ← merge_merge acc hb, ih _ (distinct_merge hb es)]
  exact hfold [] List.nodup_nil

theorem mergeAll_append (ess fss : List (Entries α)) : mergeAll (ess ++ fss) = merge (mergeAll ess) (mergeAll fss) := by
  rw [mergeAll, List.foldl_append, foldl_merge]
  rfl

end CodecCompiler.Entries
