/-
The union of ordered entries by last write: the value of a name is that of the last entries that have it, and its place
is where it first appears.

- `Entries.Union`: the union of a list of entries, said without merging.
- `Entries.mergeAll_eq_merge`: merging many is writing all their entries one after the other; `Entries.union_mergeAll`:
  so it makes their union.
- `Entries.mergeAll_groups`: entries may be merged in groups first.
- `Fragment.mergeValues_union`: objects merge into their union, in whatever groups, one by one, and as the properties of
  an intersection's members.
-/
import CodecCompiler.Proofs.Merging

namespace CodecCompiler

namespace Entries

universe u

variable {α : Type u}

/-! ## Unions -/

/-- the union of entries by last write, at the place of first appearance -/
structure Union (ess : List (Entries α)) (merged : Entries α) : Prop where
  distinct : Distinct merged
  mem_names : ∀ name, name ∈ names merged ↔ ∃ es ∈ ess, name ∈ names es
  /-- the value of a name is that of the last entries that have the name -/
  value : ∀ name v, get? merged name = some v ↔ ∃ before es after, ess = before ++ es :: after ∧
    get? es name = some v ∧ ∀ later ∈ after, name ∉ names later
  order : names merged = (ess.flatMap names).eraseDups

/-- merging many is writing all their entries one after the other -/
theorem mergeAll_eq_merge (ess : List (Entries α)) : mergeAll ess = merge [] ess.flatten := by
  have hfold : ∀ acc : Entries α, ess.foldl merge acc = merge acc ess.flatten := by
    induction ess with
    | nil => exact fun _ => rfl
    | cons es ess ih =>
      intro acc
      rw [List.foldl_cons, ih, List.flatten_cons, merge_append]
  exact hfold []

/-- a merge has the names of its first side, and behind them those that appear for the first time -/
theorem names_merge (a b : Entries α) : names (merge a b) = names a ++ ((names b).removeAll (names a)).eraseDups := by
  induction b generalizing a with
  | nil => simp
  | cons e rest ih =>
    rw [merge_cons, ih, names_cons]
    by_cases hmem : e.1 ∈ names a
    · rw [names_set_of_mem hmem]
      simp [List.removeAll, hmem]
    · rw [names_set_of_not_mem hmem, names_append]
      have hfirst : (e.1 :: names rest).removeAll (names a) = e.1 :: (names rest).removeAll (names a) := by
        simp [List.removeAll, hmem]
      have hrest : (names rest).removeAll (names a ++ names [(e.1, e.2)]) =
          ((names rest).removeAll (names a)).filter fun name => !name == e.1 := by
        simp [List.removeAll, List.filter_filter, beq_eq_decide, Bool.and_comm]
      rw [hfirst, List.eraseDups_cons, hrest, List.append_assoc]
      rfl

/-- the last of entries that have a name -/
theorem exists_last {ess : List (Entries α)} {name : Text} (h : ∃ es ∈ ess, name ∈ names es) :
    ∃ before es after, ess = before ++ es :: after ∧ name ∈ names es ∧ ∀ later ∈ after, name ∉ names later := by
  induction ess with
  | nil => simp at h
  | cons es ess ih =>
    by_cases hrest : ∃ fs ∈ ess, name ∈ names fs
    · obtain ⟨before, fs, after, rfl, hfs, hafter⟩ := ih hrest
      exact ⟨es :: before, fs, after, rfl, hfs, hafter⟩
    · obtain ⟨fs, hfs, hname⟩ := h
      rcases List.mem_cons.1 hfs with rfl | hfs
      · exact ⟨[], fs, ess, rfl, hname, fun later hlater hmem => hrest ⟨later, hlater, hmem⟩⟩
      · exact absurd ⟨fs, hfs, hname⟩ hrest

/-- the value that a merge of many has for a name comes from the last of them that has the name -/
theorem get?_mergeAll {before after : List (Entries α)} {es : Entries α} (hes : Distinct es) {name : Text}
    (hname : name ∈ names es) (hafter : ∀ later ∈ after, name ∉ names later) :
    get? (mergeAll (before ++ es :: after)) name = get? es name := by
  have hreverse : get? es.reverse name = get? es name :=
    (get?_perm es.reverse_perm.symm hes name).symm
  have hnew : name ∉ names after.flatten.reverse := by
    rw [names, List.map_reverse, List.mem_reverse, List.map_flatten, List.mem_flatten]
    rintro ⟨ns, hns, hmem⟩
    obtain ⟨later, hlater, rfl⟩ := List.mem_map.1 hns
    exact hafter later hlater hmem
  obtain ⟨v, hv⟩ := exists_get? hname
  rw [mergeAll_eq_merge, get?_merge, List.flatten_append, List.flatten_cons, List.reverse_append, List.reverse_append,
    List.append_assoc, get?_append_of_new hnew, get?_append_of_some (hreverse.trans hv), hv]
  rfl

/-- **Merging makes the union.** -/
theorem union_mergeAll {ess : List (Entries α)} (distinct : ∀ es ∈ ess, Distinct es) : Union ess (mergeAll ess) where
  distinct := distinct_mergeAll ess
  mem_names _ := mem_names_mergeAll
  value name v := by
    constructor
    · intro hv
      have hname : name ∈ names (mergeAll ess) := Entries.mem_names (mem_of_get? hv)
      obtain ⟨before, es, after, hess, hes, hafter⟩ := exists_last (mem_names_mergeAll.1 hname)
      refine ⟨before, es, after, hess, ?_, hafter⟩
      have hdistinct : Distinct es := distinct es (by simp [hess])
      rw [← hv, hess]
      exact (get?_mergeAll hdistinct hes hafter).symm
    · rintro ⟨before, es, after, rfl, hv, hafter⟩
      have hdistinct : Distinct es := distinct es (by simp)
      rw [get?_mergeAll hdistinct (Entries.mem_names (mem_of_get? hv)) hafter, hv]
  order := by
    have hall : (names ess.flatten).removeAll [] = ess.flatMap names := by
      rw [List.removeAll_nil, names, List.map_flatten]
      rfl
    rw [mergeAll_eq_merge, names_merge, names_nil, List.nil_append, hall]

/-! ## Groups -/

theorem mergeAll_singleton {es : Entries α} (h : Distinct es) : mergeAll [es] = es := merge_of_disjoint h (by simp)

/-- **Entries may be merged in groups first.** -/
theorem mergeAll_groups (groups : List (List (Entries α))) :
    mergeAll (groups.map mergeAll) = mergeAll groups.flatten := by
  induction groups with
  | nil => rfl
  | cons group groups ih =>
    have hgroup : mergeAll [mergeAll group] = mergeAll group := mergeAll_singleton (distinct_mergeAll group)
    rw [List.map_cons, ← List.singleton_append, mergeAll_append, hgroup, ih, List.flatten_cons, mergeAll_append]

end Entries

namespace Fragment

open Entries (Distinct Union get? mergeAll)

/-- writing one object after the other over those before -/
theorem foldlM_mergeValues {maps : List Fields} (distinct : ∀ m ∈ maps, Distinct m) {collected : Fields}
    (h : Distinct collected) :
    maps.foldlM (fun collected m => mergeValues [.obj collected, .obj m]) collected =
      .ok (maps.foldl Entries.merge collected) := by
  induction maps generalizing collected with
  | nil => rfl
  | cons m maps ih =>
    have hstep : mergeValues [.obj collected, .obj m] = .ok (Entries.merge collected m) := by
      rw [show ([.obj collected, .obj m] : List Json) = [collected, m].map .obj from rfl, mergeValues_objects]
      have hfirst : Entries.merge [] collected = collected := Entries.mergeAll_singleton h
      simp only [mergeAll, List.foldl_cons, List.foldl_nil, hfirst]
    rw [List.foldlM_cons, hstep]
    exact ih (fun m' hm' => distinct m' (List.mem_cons_of_mem m hm')) (Entries.distinct_merge h m)

/-- **Merging is the union by last write.** Objects whose names are distinct are merged into their union. The same comes
out where consecutive groups of them are merged first, and where each is merged with what was collected before it, as
the properties of an intersection's members are. -/
theorem mergeValues_union {maps : List Fields} (distinct : ∀ m ∈ maps, Distinct m) :
    ∃ merged, mergeValues (maps.map .obj) = .ok merged ∧ Union maps merged ∧
      (∀ groups : List (List Fields), groups.flatten = maps → ∃ parts,
        groups.mapM (fun group => mergeValues (group.map .obj)) = .ok parts ∧
        mergeValues (parts.map .obj) = .ok merged) ∧
      maps.foldlM (fun collected m => mergeValues [.obj collected, .obj m]) [] = .ok merged ∧
      ∀ (members : List Fields) (allow : Bool), (∀ f ∈ members, Mergeable f ∧ alternatives? f = none) →
        members.map propertiesOf = maps →
        ∃ f, intersect members allow = .ok f ∧ get? f "properties" = some (.obj merged) := by
  refine ⟨mergeAll maps, mergeValues_objects maps, Entries.union_mergeAll distinct, fun groups hgroups => ?_,
    foldlM_mergeValues distinct List.nodup_nil, fun members allow hmembers hmaps => ?_⟩
  · refine ⟨groups.map mergeAll, mapM_eq_ok fun group _ => mergeValues_objects group, ?_⟩
    rw [mergeValues_objects, Entries.mergeAll_groups, hgroups]
  · refine ⟨joined allow members, ?_, ?_⟩
    · exact intersect_joined (fun f hf => (hmembers f hf).1) fun f hf => (hmembers f hf).2
    · rw [← hmaps]
      rfl

/-- objects that share names, in different orders -/
def overlapping : List Fields :=
  [[("a", .int 1), ("b", .int 2)], [], [("c", .int 3), ("a", .null)], [("b", .bool true), ("d", .int 4), ("a", .int 5)]]

theorem overlapping_union :
    (∀ m ∈ overlapping, Distinct m) ∧
    ∃ merged, mergeValues (overlapping.map .obj) = .ok merged ∧ Union overlapping merged ∧
      (∀ groups : List (List Fields), groups.flatten = overlapping → ∃ parts,
        groups.mapM (fun group => mergeValues (group.map .obj)) = .ok parts ∧
        mergeValues (parts.map .obj) = .ok merged) ∧
      overlapping.foldlM (fun collected m => mergeValues [.obj collected, .obj m]) [] = .ok merged ∧
      ∀ (members : List Fields) (allow : Bool), (∀ f ∈ members, Mergeable f ∧ alternatives? f = none) →
        members.map propertiesOf = overlapping →
        ∃ f, intersect members allow = .ok f ∧ get? f "properties" = some (.obj merged) := by
  have distinct : ∀ m ∈ overlapping, Distinct m := by
    simp [overlapping, Distinct]
  exact ⟨distinct, mergeValues_union distinct⟩

end Fragment

end CodecCompiler
