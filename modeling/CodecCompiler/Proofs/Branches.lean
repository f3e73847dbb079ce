/-
The two ways in which an intersection merges one object schema with another: as a member beside it, and as the only
branch of a union beside it. Both fill an object schema from the same four parts, and differ in how they read a part.

- `Fragment.partOrAbsent` is the reading of branches; that of members is `Fragment.partOrEmpty`.
- `Json.isHollow`: null, false and zero have no items, but count as nothing where that is heeded. `Fragment.Reads` says
  so of a reading, `Reads.part` and `Reads.hollow_part` tell the two readings apart.
- `Fragment.Fills`: the object schema that two fragments fill, for either way of reading their parts.
- `intersect_pair_iff`, `mergeObjects_iff`: members fill in the one way, a branch and a member in the other.
- `fills_iff`: without hollow parts both fill the same object schemas.
- `branches_agree_iff`: the two ways agree exactly when no part is hollow, or when the members cannot be merged either.
Witnesses of agreeing and of what hollow parts do:
- `spelled_branches_agree`: parts that are spelled out in other ways, behind a parser of the caller's.
- `hollow_branch_fails`: a member with null for its properties, whose union with any other object schema fails.
-/
import CodecCompiler.Proofs.Meetings
import CodecCompiler.Proofs.Meaning

namespace CodecCompiler

open Entries (get?)
open Compile

/-- a value that counts as nothing and has no items to be read -/
def Json.isHollow : Json → Bool
  | .null => true
  | .bool b => !b
  | .int n => n = 0
  | .float x => x.toInt? = some 0
  | .str _ | .arr _ | .obj _ => false

namespace Fragment

/-! ## Reading parts -/

/-- a part of a branch, where only what is absent is as good as empty -/
def partOrAbsent (schema : Fields) (name : Text) (absent : Json) : Json := (get? schema name).getD absent

/-- the fragment has a part of the name that counts as nothing and has no items -/
def Hollow (f : Fields) (name : Text) : Prop := ∃ v, get? f name = some v ∧ v.isHollow = true

/-- some part that a merge reads is hollow -/
def HasHollow (f : Fields) : Prop := Hollow f "properties" ∨ Hollow f "required"

/-- a way to read the items of a part: hollow values have none to be read, and whatever else counts as nothing has none
at all -/
structure Reads {α : Type} (read : Json → Except MergeError (List α)) (empty : Json) : Prop where
  empty : read empty = .ok []
  hollow : ∀ v, v.isHollow = true → read v = .error .noItems
  nothing : ∀ v, v.truthy = false → v.isHollow = false → read v = .ok []

theorem reads_items : Reads items (.arr []) := by
  refine ⟨rfl, fun v hv => ?_, fun v hv hhollow => ?_⟩
  · cases v with
    | null | bool | int | float => rfl
    | str | arr | obj => simp [Json.isHollow] at hv
  · cases v with
    | null | bool | int | float => simp_all [Json.isHollow, Json.truthy]
    | str s =>
      obtain ⟨points⟩ := s
      have hempty : points = [] := by simpa [Json.truthy, Text.isEmpty] using hv
      rw [hempty]
      rfl
    | arr values =>
      have hempty : values = [] := by simpa [Json.truthy] using hv
      rw [hempty]
      rfl
    | obj fields =>
      have hempty : fields = [] := by simpa [Json.truthy] using hv
      rw [hempty]
      rfl

theorem namedOf_eq {v : Json} (h : ∀ fields, v ≠ .obj fields) :
    namedOf v = items v >>= fun values => values.mapM pair := by
  cases v with
  | obj fields => exact absurd rfl (h fields)
  | _ => rfl

theorem reads_namedOf : Reads namedOf (.obj []) := by
  refine ⟨rfl, fun v hv => ?_, fun v hv hhollow => ?_⟩
  · rw [namedOf_eq fun fields hfields => by simp [hfields, Json.isHollow] at hv, reads_items.hollow v hv]
    rfl
  · by_cases hobj : ∃ fields, v = .obj fields
    · obtain ⟨fields, rfl⟩ := hobj
      have hempty : fields = [] := by simpa [Json.truthy] using hv
      rw [hempty]
      rfl
    · rw [namedOf_eq fun fields hfields => hobj ⟨fields, hfields⟩, reads_items.nothing v hv hhollow]
      rfl

namespace Reads

variable {α : Type} {read : Json → Except MergeError (List α)} {empty : Json} {f : Fields} {name : Text}

/-- the two readings of a part that is not hollow are the same -/
theorem part (h : Reads read empty) (hpart : ¬ Hollow f name) :
    read (partOrEmpty f name empty) = read (partOrAbsent f name empty) := by
  unfold partOrEmpty partOrAbsent
  cases hv : get? f name with
  | none => rfl
  | some v =>
    simp only [Option.getD_some]
    split_ifs with htruthy
    · rfl
    · have hsolid : v.isHollow = false := by simpa using fun hhollow => hpart ⟨v, hv, hhollow⟩
      rw [h.empty, h.nothing v (by simpa using htruthy) hsolid]

/-- a hollow part cannot be read in a branch -/
theorem hollow_part (h : Reads read empty) (hpart : Hollow f name) :
    read (partOrAbsent f name empty) = .error .noItems := by
  obtain ⟨v, hv, hv'⟩ := hpart
  unfold partOrAbsent
  rw [hv, Option.getD_some]
  exact h.hollow v hv'

/-- what is read in a member is read in a branch too, or it is hollow there -/
theorem or_hollow (h : Reads read empty) {xs : List α} (hread : read (partOrEmpty f name empty) = .ok xs) :
    read (partOrAbsent f name empty) = .ok xs ∨ read (partOrAbsent f name empty) = .error .noItems := by
  by_cases hpart : Hollow f name
  · exact Or.inr (h.hollow_part hpart)
  · exact Or.inl ((h.part hpart).symm.trans hread)

end Reads

/-! ## Filling an object schema -/

/-- an object schema filled from the parts of two fragments, where `part` is how a part is found: the properties of
the second written over those of the first, and the required names one list behind the other -/
def Fills (part : Fields → Text → Json → Json) (allow : Bool) (f g merged : Fields) : Prop :=
  ∃ ps qs rs ss, namedOf (part f "properties" (.obj [])) = .ok ps ∧ namedOf (part g "properties" (.obj [])) = .ok qs ∧
    items (part f "required" (.arr [])) = .ok rs ∧ items (part g "required" (.arr [])) = .ok ss ∧
    merged = object (Named.mergeAll [ps, qs]).toFields allow (rs ++ ss)

section

variable {allow : Bool} {f g merged : Fields}

/-- **Two members without alternatives** fill an object schema, with nothing where a part counts as nothing. -/
theorem intersect_pair_iff (hf : alternatives? f = none) (hg : alternatives? g = none) :
    intersect [f, g] allow = .ok merged ↔ Fills partOrEmpty allow f g merged := by
  have hnone : [f, g].filterMap alternatives? = [] := by simp [hf, hg]
  simp only [intersect, hnone, fold, Fills, bind_eq_ok_iff, pure_eq_ok_iff, List.nil_append]
  constructor
  · rintro ⟨_, ⟨ps, hps, rs, hrs, qs, hqs, ss, hss, hlast⟩, rfl⟩
    cases hlast
    exact ⟨ps, qs, rs, ss, hps, hqs, hrs, hss, rfl⟩
  · rintro ⟨ps, qs, rs, ss, hps, hqs, hrs, hss, rfl⟩
    exact ⟨_, ⟨ps, hps, rs, hrs, qs, hqs, ss, hss, rfl⟩, rfl⟩

theorem mergeObjects_iff : mergeObjects f g allow = .ok merged ↔ Fills partOrAbsent allow f g merged := by
  simp only [mergeObjects, mergeValues, Fills, partOrAbsent, bind_eq_ok_iff, pure_eq_ok_iff, List.mapM_cons,
    List.mapM_nil]
  constructor
  · rintro ⟨_, ⟨_, ⟨ps, hps, _, ⟨qs, hqs, _, rfl, rfl⟩, rfl⟩, rfl⟩, rs, hrs, ss, hss, rfl⟩
    exact ⟨ps, qs, rs, ss, hps, hqs, hrs, hss, rfl⟩
  · rintro ⟨ps, qs, rs, ss, hps, hqs, hrs, hss, rfl⟩
    exact ⟨_, ⟨_, ⟨ps, hps, _, ⟨qs, hqs, _, rfl, rfl⟩, rfl⟩, rfl⟩, rs, hrs, ss, hss, rfl⟩

/-- a fragment that exposes one branch, and is no object schema, beside one that is an object schema -/
theorem intersect_branch {u : Fields} (hf : alternatives? f = none) (hobject : isObject f = true)
    (hu : alternatives? u = some (exposed [g])) (hu' : isObject u = false) :
    intersect [f, u] allow = (mergeObjects f g allow).map fun merged => ([("anyOf", exposed [merged])] : Fields) := by
  have hsome : [f, u].filterMap alternatives? = [exposed [g]] := by simp [hf, hu]
  have hfilter : [f, u].filter isObject = [f] := by simp [hobject, hu']
  have hitems : items (exposed [g]) = pure [Json.obj g] := rfl
  have hbranch : asObject (.obj g) = pure g := rfl
  simp only [intersect, hsome, hfilter, product, List.mapM_cons, List.mapM_nil, hitems, hbranch, pure_bind, bind_assoc]
  cases mergeObjects f g allow <;> rfl

/-- with a hollow part nothing is filled in the way of branches -/
theorem not_fills_of_hollow (h : HasHollow f ∨ HasHollow g) : ¬ Fills partOrAbsent allow f g merged := by
  rintro ⟨ps, qs, rs, ss, hps, hqs, hrs, hss, -⟩
  rcases h with (h | h) | (h | h)
  · exact nomatch hps.symm.trans (reads_namedOf.hollow_part h)
  · exact nomatch hrs.symm.trans (reads_items.hollow_part h)
  · exact nomatch hqs.symm.trans (reads_namedOf.hollow_part h)
  · exact nomatch hss.symm.trans (reads_items.hollow_part h)

/-- **Without hollow parts** the two ways fill the same object schemas. -/
theorem fills_iff (hf : ¬ HasHollow f) (hg : ¬ HasHollow g) :
    Fills partOrEmpty allow f g merged ↔ Fills partOrAbsent allow f g merged := by
  unfold HasHollow at hf hg
  rw [not_or] at hf hg
  unfold Fills
  rw [reads_namedOf.part hf.1, reads_namedOf.part hg.1, reads_items.part hf.2, reads_items.part hg.2]

/-- branches are merged as the members are just where no part is hollow, or where the members cannot be merged -/
theorem fills_agree_iff (hf : alternatives? f = none) (hg : alternatives? g = none) :
    (∀ merged, Fills partOrAbsent allow f g merged ↔ intersect [f, g] allow = .ok merged) ↔
      (¬ HasHollow f ∧ ¬ HasHollow g) ∨ ∃ e, intersect [f, g] allow = .error e := by
  constructor
  · intro h
    by_cases hhollow : HasHollow f ∨ HasHollow g
    · cases hmerge : intersect [f, g] allow with
      | ok merged => exact absurd ((h merged).2 hmerge) (not_fills_of_hollow hhollow)
      | error e => exact Or.inr ⟨e, rfl⟩
    · exact Or.inl (not_or.1 hhollow)
  · rintro (⟨hf', hg'⟩ | ⟨e, he⟩) merged
    · rw [intersect_pair_iff hf hg, fills_iff hf' hg']
    · refine iff_of_false (fun hfills => ?_) (by simp [he])
      obtain ⟨hf', hg'⟩ := not_or.1 fun hhollow => not_fills_of_hollow hhollow hfills
      have hmerge := (intersect_pair_iff hf hg).2 ((fills_iff hf' hg').2 hfills)
      exact nomatch he.symm.trans hmerge

theorem bind_ok_or {ε α β : Type} {x : Except ε α} {k : α → Except ε β} {a : α} {b : β} {e : ε}
    (hx : x = .ok a ∨ x = .error e) (hk : k a = .ok b ∨ k a = .error e) :
    (x >>= k) = .ok b ∨ (x >>= k) = .error e := by
  rcases hx with rfl | rfl
  · exact hk
  · exact Or.inr rfl

/-- **What members are merged into** is what they are merged into as branches, or there are no items to be read. -/
theorem mergeObjects_of_fills (h : Fills partOrEmpty allow f g merged) :
    mergeObjects f g allow = .ok merged ∨ mergeObjects f g allow = .error .noItems := by
  obtain ⟨ps, qs, rs, ss, hps, hqs, hrs, hss, rfl⟩ := h
  have hlist : ∀ v w : Json, (namedOf v = .ok ps ∨ namedOf v = .error .noItems) →
      (namedOf w = .ok qs ∨ namedOf w = .error .noItems) →
      ([v, w].mapM namedOf = .ok [ps, qs] ∨ [v, w].mapM namedOf = .error .noItems) := by
    intro v w hv hw
    rw [List.mapM_cons, List.mapM_cons, List.mapM_nil]
    exact bind_ok_or hv (bind_ok_or (bind_ok_or hw (Or.inl rfl)) (Or.inl rfl))
  have hproperties := hlist _ _ (reads_namedOf.or_hollow hps) (reads_namedOf.or_hollow hqs)
  refine bind_ok_or (bind_ok_or hproperties (Or.inl rfl)) ?_
  exact bind_ok_or (reads_items.or_hollow hrs) (bind_ok_or (reads_items.or_hollow hss) (Or.inl rfl))

end

end Fragment

open Fragment

/-! ## Runs -/

section

variable {ctx : Context} {parsers : Parsers} {depth : Nat} {p q r : Progress} {f g : Fields} {o b : Codec}

/-- a codec is left to its kind: no parser of the caller's has its tag, and the first handler that has it does what the
kind prescribes -/
def Context.Leaves (ctx : Context) (parsers : Parsers) (k : Kind) : Prop := parsers k.name = none ∧ ctx.Keeps k

theorem walkAt_left {c : Codec} {k : Kind} (hk : c.tag = .kind k) (h : ctx.Leaves parsers k) :
    walkAt ctx parsers (depth + 1) c = do
      return described c.description (← (Task.rule depth c).step ctx parsers) := by
  obtain ⟨hparsers, handler, hfind, haction⟩ := h
  have hname : parsers (Tag.kind k).name = none := hparsers
  rw [walkAt, walkOf_eq, tried]
  simp only [hk, hname, handled, hfind, haction, act]
  rfl

/-- two codecs one after the other -/
theorem runs_walksOf_pair {enter : Codec → Compile Fields} {handle : Codec → Compile Fields → Compile Fields}
    (ho : Runs (walkOf ctx enter handle o) p f q) (hb : Runs (walkOf ctx enter handle b) q g r) :
    Runs (walksOf ctx enter handle [o, b]) p [f, g] r := by
  simp only [walksOf, runs_bind, runs_pure]
  exact ⟨f, q, ho, [g], r, ⟨g, r, hb, [], r, ⟨rfl, rfl⟩, rfl, rfl⟩, rfl, rfl⟩

/-- what an intersection of codecs ends with, and what it leaves behind -/
def intersected (ctx : Context) (parsers : Parsers) (depth : Nat) (members : List Codec) (p : Progress) :
    Except CompileError Fields × Progress :=
  (walkAt ctx parsers depth (.intersection {} members)).runFrom p

theorem intersected_pair (h : ctx.Leaves parsers .intersection)
    (ho : Runs (walkAt ctx parsers (depth + 1) o) p f q) (hb : Runs (walkAt ctx parsers (depth + 1) b) q g r) :
    intersected ctx parsers (depth + 1) [o, b] p = ((intersect [f, g] ctx.allowAdditional).mapError .merge, r) := by
  have hmembers := runs_walksOf_pair ho hb
  unfold intersected
  rw [walkAt_left rfl h, runFrom_bind, Task.step, ruleOf, runFrom_bind,
    show (walksOf ctx _ _ [o, b]).runFrom p = (.ok [f, g], r) from hmembers]
  cases hmerge : intersect [f, g] ctx.allowAdditional with
  | ok merged =>
    simp only [hmerge]
    rfl
  | error e =>
    simp only [hmerge]
    rfl

/-- a union of one codec exposes the fragment of that -/
theorem runs_union_single (h : ctx.Leaves parsers .union) (m : Marks)
    (hb : Runs (walkAt ctx parsers (depth + 1) b) p f q) :
    Runs (walkAt ctx parsers (depth + 1) (.union m [b])) p (someOf m.description [f]) q := by
  have hwalk : Runs (walkOf ctx (walkAt ctx parsers depth) (tried ctx parsers (walkAt ctx parsers depth)) b) p f q := hb
  rw [walkAt_left rfl h]
  simp only [Task.step, ruleOf, walksOf, runs_bind, runs_pure]
  refine ⟨_, q, ⟨[f], q, ⟨f, q, hwalk, [], q, ⟨rfl, rfl⟩, rfl, rfl⟩, rfl, rfl⟩, ?_, rfl⟩
  exact described_someOf m.description [f]

/-- the one way ends with the alternatives that are just what the other way ends with, and they fail together -/
structure Agrees (beside branch : Except CompileError Fields) : Prop where
  result : ∀ merged, branch = .ok [("anyOf", exposed [merged])] ↔ beside = .ok merged
  failure : (∃ e, branch = .error e) ↔ ∃ e, beside = .error e

/-- an alternative is merged where, and as, the members are -/
theorem agrees_iff {x y : Except MergeError Fields} :
    Agrees (x.mapError .merge) ((y.map fun merged => ([("anyOf", exposed [merged])] : Fields)).mapError .merge) ↔
      ∀ merged, y = .ok merged ↔ x = .ok merged := by
  cases x with
  | ok x =>
    cases y with
    | ok y =>
      refine ⟨fun h merged => ?_, fun h => ⟨fun merged => ?_, by simp [Except.mapError, Except.map]⟩⟩
      · simpa [Except.mapError, Except.map, exposed] using h.result merged
      · simpa [Except.mapError, Except.map, exposed] using h merged
    | error e =>
      refine iff_of_false (fun h => ?_) fun h => ?_
      · simpa [Except.mapError, Except.map] using h.failure
      · exact nomatch (h x).2 rfl
  | error e =>
    cases y with
    | ok y =>
      refine iff_of_false (fun h => ?_) fun h => ?_
      · simpa [Except.mapError, Except.map] using h.failure
      · exact nomatch (h y).1 rfl
    | error e' =>
      refine iff_of_true ⟨fun merged => ?_, ?_⟩ fun merged => by simp
      · simp [Except.mapError, Except.map]
      · simp [Except.mapError, Except.map]

/-- **Where the two ways of merging agree.** Of two codecs that compile to object schemas without alternatives, whatever
their parsers are, the intersection with the second one as a member agrees with the intersection with a union of it
exactly when no properties and no required names are hollow, or when the members cannot be merged either. With a hollow
part members that can be merged make a union fail for want of items. Both ways leave the same behind. -/
theorem branches_agree_iff (hintersection : ctx.Leaves parsers .intersection) (hunion : ctx.Leaves parsers .union)
    (ho : Runs (walkAt ctx parsers depth o) p f q) (hb : Runs (walkAt ctx parsers depth b) q g r)
    (hobjects : isObject f = true ∧ isObject g = true) (hsingle : alternatives? f = none ∧ alternatives? g = none)
    (m : Marks) :
    (Agrees (intersected ctx parsers depth [o, b] p).1 (intersected ctx parsers depth [o, .union m [b]] p).1 ↔
      (¬ HasHollow f ∧ ¬ HasHollow g) ∨ ∃ e, (intersected ctx parsers depth [o, b] p).1 = .error e) ∧
    (∀ merged, (intersected ctx parsers depth [o, b] p).1 = .ok merged → (HasHollow f ∨ HasHollow g) →
      (intersected ctx parsers depth [o, .union m [b]] p).1 = .error (.merge .noItems)) ∧
    (intersected ctx parsers depth [o, b] p).2 = r ∧ (intersected ctx parsers depth [o, .union m [b]] p).2 = r := by
  cases depth with
  | zero => exact absurd ho not_runs_throw
  | succ depth =>
    have halternatives := alternatives?_someOf m.description [g]
    rw [intersected_pair hintersection ho hb, intersected_pair hintersection ho (runs_union_single hunion m hb),
      intersect_branch hsingle.1 hobjects.1 halternatives (isObject_someOf m.description [g])]
    refine ⟨?_, fun merged hmerged hhollow => ?_, rfl, rfl⟩
    · rw [agrees_iff]
      simp only [mergeObjects_iff, fills_agree_iff hsingle.1 hsingle.2]
      cases intersect [f, g] ctx.allowAdditional <;> simp [Except.mapError]
    · have hfills := (intersect_pair_iff hsingle.1 hsingle.2).1 (mapError_eq_ok_iff.1 hmerged)
      have hnone : mergeObjects f g ctx.allowAdditional ≠ .ok merged := fun h =>
        not_fills_of_hollow hhollow (mergeObjects_iff.1 h)
      rw [(mergeObjects_of_fills hfills).resolve_left hnone]
      rfl

/-! ### Members and branches -/

/-- a codec of its own tag, with its properties as pairs and the names of the required ones run together -/
def spelledOut : Fields :=
  [("type", .str "object"), ("properties", .arr [.arr [.str "a", .obj []], .str "xy"]), ("required", .str "ax")]

/-- a handler of a fragment that is spelled out, and one of a fragment with null for the properties -/
def spelling : Context := ({ handlers := [⟨.text "spelled", .constant spelledOut⟩,
  ⟨.text "hollow", .constant [("type", .str "object"), ("properties", .null)]⟩] } : Options).context []

/-- a parser that compiles its codec as one of another tag -/
def renames : Parsers := fun tag =>
  if tag = "renamed" then some fun _ => .compile (.plain {} (.text "spelled")) (Attempt.onward .give) else none

/-- an object codec with one field -/
def ofOne : Codec := .object {} [("b", .plain {} (.text "string"))]

theorem spelled_branches_agree :
    Runs (walkAt spelling renames 2 (.plain {} (.text "renamed"))) {} spelledOut {} ∧
    (∃ merged, (intersected spelling renames 2 [.plain {} (.text "renamed"), ofOne] {}).1 = .ok merged) ∧
    Agrees (intersected spelling renames 2 [.plain {} (.text "renamed"), ofOne] {}).1
      (intersected spelling renames 2 [.plain {} (.text "renamed"), .union ⟨true, some "one"⟩ [ofOne]] {}).1 := by
  have ho : Runs (walkAt spelling renames 2 (.plain {} (.text "renamed"))) {} spelledOut {} := rfl
  have hb : Runs (walkAt spelling renames 2 ofOne) {} _ {} := rfl
  have hagree := branches_agree_iff ⟨rfl, _, rfl, rfl⟩ ⟨rfl, _, rfl, rfl⟩ ho hb ⟨rfl, rfl⟩ ⟨rfl, rfl⟩ ⟨true, some "one"⟩
  refine ⟨ho, ⟨_, rfl⟩, hagree.1.2 (Or.inl ⟨?_, ?_⟩)⟩
  · rintro (⟨v, hv, hhollow⟩ | ⟨v, hv, hhollow⟩) <;> cases hv <;> cases hhollow
  · rintro (⟨v, hv, hhollow⟩ | ⟨v, hv, hhollow⟩) <;> cases hv <;> cases hhollow

/-- **A hollow part tells the two ways apart.** Null for the properties counts as none beside an object schema, and
fails in a union of it; so it is not so that the two ways always agree. -/
theorem hollow_branch_fails :
    (intersected spelling (fun _ => none) 1 [.plain {} (.text "hollow"), ofOne] {}).1 =
      .ok [("type", .str "object"), ("properties", .obj [("b", .obj [("type", .str "string")])]),
        ("additionalProperties", .bool false), ("required", .arr [.str "b"])] ∧
    (intersected spelling (fun _ => none) 1 [.plain {} (.text "hollow"), .union {} [ofOne]] {}).1 =
      .error (.merge .noItems) ∧
    ¬ ∀ ctx parsers depth o b p f q g r, ctx.Leaves parsers .intersection → ctx.Leaves parsers .union →
      Runs (walkAt ctx parsers depth o) p f q → Runs (walkAt ctx parsers depth b) q g r →
      isObject f = true ∧ isObject g = true → alternatives? f = none ∧ alternatives? g = none →
      Agrees (intersected ctx parsers depth [o, b] p).1 (intersected ctx parsers depth [o, .union {} [b]] p).1 := by
  refine ⟨rfl, rfl, fun h => ?_⟩
  have ho : Runs (walkAt spelling (fun _ => none) 1 (.plain {} (.text "hollow"))) {}
    [("type", .str "object"), ("properties", .null)] {} := rfl
  have hb : Runs (walkAt spelling (fun _ => none) 1 ofOne) {} _ {} := rfl
  have hagree := h _ _ _ _ _ _ _ _ _ _ ⟨rfl, _, rfl, rfl⟩ ⟨rfl, _, rfl, rfl⟩ ho hb ⟨rfl, rfl⟩ ⟨rfl, rfl⟩
  exact nomatch hagree.failure.1 ⟨.merge .noItems, rfl⟩

end

end CodecCompiler
