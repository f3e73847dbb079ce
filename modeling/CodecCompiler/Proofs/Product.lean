/-
The alternatives of an intersection, counted and placed: every branch of every union with every object schema, once.

- `getElem?_flatten`, `getElem?_flatMap_map`: where the parts of a list stand that is put together from lists.
- `length_pairs`, `getElem?_pairs`: how many alternatives there are, and where that of a branch and an object stands.
- `Pairing`: what one alternative is made of; `pairing_joined`: what is joined is made so.
- `Codec.translate_tidy`: in a fragment, and in the branches that it exposes, a property occurs once.
- `intersection_product`: an intersection with unions compiles to these alternatives and nothing else.
-/
import CodecCompiler.Proofs.Meaning

namespace CodecCompiler

open Entries (names get?)
open Compile

/-! ## Positions -/

section

variable {α β γ : Type}

theorem getElem?_flatten {xss : List (List α)} {xs : List α} {x : α} {i j : Nat} (hi : xss[i]? = some xs)
    (hj : xs[j]? = some x) : xss.flatten[((xss.take i).map List.length).sum + j]? = some x := by
  induction xss generalizing i with
  | nil => simp at hi
  | cons ys xss ih =>
    cases i with
    | zero =>
      simp only [List.getElem?_cons_zero, Option.some.injEq] at hi
      subst hi
      simp only [List.take_zero, List.map_nil, List.sum_nil, Nat.zero_add, List.flatten_cons]
      rwa [List.getElem?_append_left (List.getElem?_eq_some_iff.1 hj).1]
    | succ i =>
      rw [List.getElem?_cons_succ] at hi
      rw [List.take_succ_cons, List.map_cons, List.sum_cons, List.flatten_cons, Nat.add_assoc,
        List.getElem?_append_right (Nat.le_add_right _ _), Nat.add_sub_cancel_left]
      exact ih hi

theorem getElem?_flatMap_map (f : α → β → γ) {xs : List α} {ys : List β} {x : α} {y : β} {j l : Nat}
    (hj : xs[j]? = some x) (hl : ys[l]? = some y) :
    (xs.flatMap fun x => ys.map (f x))[j * ys.length + l]? = some (f x y) := by
  have hpart : (xs.map fun x => ys.map (f x))[j]? = some (ys.map (f x)) := by rw [List.getElem?_map, hj]; rfl
  have hitem : (ys.map (f x))[l]? = some (f x y) := by rw [List.getElem?_map, hl]; rfl
  have hbefore : (((xs.map fun x => ys.map (f x)).take j).map List.length).sum = j * ys.length := by
    have hj' : j ≤ xs.length := (List.getElem?_eq_some_iff.1 hj).1.le
    simp [← List.map_take, Function.comp_def, hj']
  rw [List.flatMap_def, ← hbefore]
  exact getElem?_flatten hpart hitem

end

namespace Fragment

variable {allow : Bool} {unions : List (List Fields)} {objects : List Fields}

/-- **How many alternatives there are.** -/
theorem length_pairs : (pairs allow unions objects).length = objects.length * (unions.map List.length).sum := by
  rw [pairs_eq, List.length_flatMap]
  simp only [List.length_map, List.map_const', List.sum_replicate, List.length_flatten, smul_eq_mul, Nat.mul_comm]

/-- **Where the alternative of a branch and an object schema stands.** -/
theorem getElem?_pairs {i j l : Nat} {union : List Fields} {b o : Fields} (hi : unions[i]? = some union)
    (hj : union[j]? = some b) (hl : objects[l]? = some o) :
    (pairs allow unions objects)[(((unions.take i).map List.length).sum + j) * objects.length + l]? =
      some (joined allow [o, b]) := by
  rw [pairs_eq]
  exact getElem?_flatMap_map (fun b o => joined allow [o, b]) (getElem?_flatten hi hj) hl

/-! ## Alternatives -/

/-- what the alternative of a branch and an object schema is: the properties of the object, and behind them those of
the branch that are new, where the branch has its way with those of both; the names that both require -/
def Pairing (allow : Bool) (o b entry : Fields) : Prop :=
  ∃ properties, entry = object properties allow (requiredOf o ++ requiredOf b) ∧
    names properties = names (propertiesOf o) ++ (names (propertiesOf b)).filter (· ∉ names (propertiesOf o)) ∧
    ∀ key, get? properties key = (get? (propertiesOf b) key).or (get? (propertiesOf o) key)

/-- a property occurs once -/
def Tidy (f : Fields) : Prop := Entries.Distinct (propertiesOf f)

theorem tidy_noted {f : Fields} (h : Tidy f) (d : Option Text) : Tidy (noted d f) := by
  rwa [Tidy, propertiesOf_noted]

theorem tidy_joined (fs : List Fields) : Tidy (joined allow fs) := Entries.distinct_mergeAll _

theorem pairing_joined {o b : Fields} (ho : Tidy o) (hb : Tidy b) : Pairing allow o b (joined allow [o, b]) := by
  have hfirst : Entries.merge [] (propertiesOf o) = propertiesOf o :=
    Entries.merge_of_disjoint ho fun _ _ => List.not_mem_nil
  have hproperties : Entries.mergeAll ([o, b].map propertiesOf) = Entries.merge (propertiesOf o) (propertiesOf b) := by
    change Entries.merge (Entries.merge [] (propertiesOf o)) (propertiesOf b) = _
    rw [hfirst]
  refine ⟨_, ?_, Entries.names_merge_of_distinct _ hb, Entries.get?_merge_of_distinct _ hb⟩
  rw [joined, hproperties]
  simp

/-- merging keeps fragments tidy -/
theorem ready_intersect {fs : List Fields} (h : ∀ f ∈ fs, Ready Tidy f) {g : Fields}
    (hg : intersect fs allow = .ok g) : Ready Tidy g := by
  obtain ⟨g', hg', -, hready⟩ := Ready.intersect (fun fs _ => tidy_joined fs) (fun _ _ => List.nodup_nil) h
  cases hg'.symm.trans hg
  exact hready

end Fragment

/-! ## Fragments of codecs -/

namespace Codec

open Fragment

variable {allow : Bool}

/-- the fields of an object codec have distinct names -/
def Shapely : Codec → Prop
  | .object _ shape => Entries.Distinct shape
  | _ => True

theorem translateList_tidy {cs : List Codec} {fs : List Fields} (h : translateList allow cs = .ok fs)
    (hcs : ∀ c ∈ cs, ∀ f, c.translate allow = .ok f → Ready Tidy f) : ∀ f ∈ fs, Ready Tidy f := by
  intro f hf
  obtain ⟨c, hc, hcf⟩ := forall₂_mem_right (translateList_eq_ok.1 h) f hf
  exact hcs c hc f hcf

/-- **Fragments are tidy**, and so are the branches that they expose. -/
theorem translate_tidy {c : Codec} (h : c.All Shapely) {f : Fields} (hf : c.translate allow = .ok f) :
    Ready Tidy f := by
  induction h generalizing f with
  | @intro c here _ ih =>
    obtain ⟨g, hg, rfl⟩ := translate_eq_ok.1 hf
    suffices hready : Ready Tidy g from hready.noted (tidy_noted hready.here _)
    cases c with
    | plain m tag =>
      rcases bareTranslation_form hg with rfl | ⟨p, rfl⟩
      · exact .of_single ⟨rfl, rfl⟩ List.nodup_nil rfl
      · exact .of_single ⟨rfl, rfl⟩ List.nodup_nil rfl
    | literal m value | enum m values | recursive m id body =>
      cases pure_eq_ok_iff.1 hg
      exact .of_single ⟨rfl, rfl⟩ List.nodup_nil rfl
    | object m shape =>
      obtain ⟨properties, hp, hg⟩ := bind_eq_ok_iff.1 hg
      cases pure_eq_ok_iff.1 hg
      refine .of_single ⟨rfl, rfl⟩ ?_ rfl
      change Entries.Distinct (Entries.mapValues Json.obj properties)
      rw [Entries.Distinct, Entries.names_mapValues, names_translateShape hp]
      exact here
    | record m values | array m items =>
      obtain ⟨f, -, hg⟩ := bind_eq_ok_iff.1 hg
      cases pure_eq_ok_iff.1 hg
      exact .of_single ⟨rfl, rfl⟩ List.nodup_nil rfl
    | tuple m items =>
      obtain ⟨fs, -, hg⟩ := bind_eq_ok_iff.1 hg
      cases pure_eq_ok_iff.1 hg
      exact .of_single ⟨rfl, rfl⟩ List.nodup_nil rfl
    | intersection m members =>
      obtain ⟨fs, hfs, hg⟩ := bind_eq_ok_iff.1 hg
      exact ready_intersect (translateList_tidy hfs ih) (mapError_eq_ok_iff.1 hg)
    | union m members =>
      obtain ⟨fs, hfs, hg⟩ := bind_eq_ok_iff.1 hg
      cases pure_eq_ok_iff.1 hg
      refine .of_branches List.nodup_nil fun b hb => ?_
      have hready := translateList_tidy hfs ih b hb
      exact ⟨hready.mergeable, hready.here⟩

end Codec

/-! ## The product -/

open Fragment

/-- **The alternatives of an intersection.** Where some member of an intersection exposes alternatives, it compiles to
alternatives alone: as many as there are branches in all unions times object schemas, and the one of a branch and an
object schema stands where it has all branches before its own, each with all object schemas, and the objects before its
own in front. -/
theorem intersection_product {ctx : Context} (hb : ctx.registry = Registry.builtin) {depth : Nat} (m : Marks)
    {members : List Codec} (hshapely : ∀ c ∈ members, c.All Codec.Shapely) {p p' : Progress} {fs : List Fields}
    (hfs : Runs (fragmentsOf ctx (fragmentAt ctx depth) members) p fs p')
    (hexposes : ∃ f ∈ fs, alternatives? f ≠ none) :
    ∃ (unions : List (List Fields)) (entries : List Fields),
      fs.filterMap alternatives? = unions.map exposed ∧
      Runs (fragmentAt ctx (depth + 1) (.intersection m members)) p
        (noted m.description [("anyOf", exposed entries)]) p' ∧
      entries.length = (fs.filter isObject).length * (unions.map List.length).sum ∧
      ∀ i j l union b o, unions[i]? = some union → union[j]? = some b → (fs.filter isObject)[l]? = some o →
        ∃ entry, entries[(((unions.take i).map List.length).sum + j) * (fs.filter isObject).length + l]? = some entry ∧
          Pairing ctx.allowAdditional o b entry := by
  have hsound : ∀ c ∈ members, ∀ p f p', Runs (fragmentOf ctx (fragmentAt ctx depth) c) p f p' → Sound ctx c p f p' :=
    fun c _ p f p' hc => fragmentOf_sound hb (fun c p f p' h => fragmentAt_sound hb h) hc
  have htranslate := (fragmentsOf_sound hsound hfs).1
  have hready : ∀ f ∈ fs, Ready Tidy f :=
    Codec.translateList_tidy htranslate fun c hc f hf => Codec.translate_tidy (hshapely c hc) hf
  obtain ⟨unions, hunions, hbranches⟩ := exists_unions fun f hf => (hready f hf).alternatives
  have hsome : unions ≠ [] := by
    obtain ⟨f, hf, hexposed⟩ := hexposes
    rintro rfl
    exact hexposed (List.filterMap_eq_nil_iff.1 hunions f hf)
  have hmerge : intersect fs ctx.allowAdditional =
      .ok [("anyOf", exposed (pairs ctx.allowAdditional unions (fs.filter isObject)))] :=
    intersect_product (fun f hf => (hready f hf).mergeable) hunions hsome
      fun branches hmem b hmemb => (hbranches branches hmem b hmemb).1
  refine ⟨unions, pairs ctx.allowAdditional unions (fs.filter isObject), hunions, ?_, length_pairs, ?_⟩
  · refine (runs_fragmentOf hb).2 ⟨_, runs_bind.2 ⟨fs, p', hfs, runs_ofMerge.2 ⟨hmerge, rfl⟩⟩, ?_⟩
    exact (described_eq (by simp) m.description).symm
  · intro i j l union b o hi hj hl
    have ho : Tidy o := (hready o (List.mem_filter.1 (List.mem_of_getElem? hl)).1).here
    have hb : Tidy b := (hbranches union (List.mem_of_getElem? hi) b (List.mem_of_getElem? hj)).2
    exact ⟨_, getElem?_pairs hi hj hl, pairing_joined ho hb⟩

/-! ### A product -/

/-- the handlers of the kinds, one body, and further properties allowed -/
def permissive : Context where
  registry := Registry.builtin
  target := .encoded
  allowAdditional := true
  bodies := [("Id", .plain {} (.text "string"))]

/-- an object codec with fields of any value -/
def ofNames (ns : List Text) : Codec := .object {} (ns.map fun name => (name, .plain {} (.text "any")))

theorem shapely_ofNames {ns : List Text} (h : ns.Nodup) : (ofNames ns).All Codec.Shapely := by
  refine .intro ?_ fun c hc => ?_
  · have hnames : names (ns.map fun name => (name, Codec.plain {} (.text "any"))) = ns := by
      simp [names, Function.comp_def]
    change (names (ns.map fun name => (name, Codec.plain {} (.text "any")))).Nodup
    rwa [hnames]
  · obtain ⟨e, he, rfl⟩ := List.mem_map.1 hc
    obtain ⟨name, -, rfl⟩ := List.mem_map.1 he
    exact .intro trivial fun _ hd => absurd hd List.not_mem_nil

/-- two codecs with object schemas, a union, an intersection with a union in it, and a reference that adds nothing -/
def assorted : List Codec :=
  [ofNames ["a", "b"], .union {} [ofNames ["b", "c"], .array {} (ofNames [])], .record {} (ofNames []),
    .intersection {} [ofNames ["d"], .union {} [ofNames ["e"]]], .recursive {} "Id" "Id"]

theorem shapely_assorted : ∀ c ∈ assorted, c.All Codec.Shapely := by
  have hnone : (ofNames []).All Codec.Shapely := shapely_ofNames List.nodup_nil
  have hunion : (Codec.union {} [ofNames ["b", "c"], .array {} (ofNames [])]).All Codec.Shapely := by
    refine .intro trivial (List.forall_mem_cons.2 ⟨shapely_ofNames (by decide), List.forall_mem_singleton.2 ?_⟩)
    exact .intro trivial (List.forall_mem_singleton.2 hnone)
  have hinner : (Codec.union {} [ofNames ["e"]]).All Codec.Shapely :=
    .intro trivial (List.forall_mem_singleton.2 (shapely_ofNames (by decide)))
  have hintersection : (Codec.intersection {} [ofNames ["d"], .union {} [ofNames ["e"]]]).All Codec.Shapely :=
    .intro trivial (List.forall_mem_cons.2 ⟨shapely_ofNames (by decide), List.forall_mem_singleton.2 hinner⟩)
  refine List.forall_mem_cons.2 ⟨shapely_ofNames (by decide), List.forall_mem_cons.2 ⟨hunion, ?_⟩⟩
  refine List.forall_mem_cons.2 ⟨.intro trivial (List.forall_mem_singleton.2 hnone), ?_⟩
  refine List.forall_mem_cons.2 ⟨hintersection, List.forall_mem_singleton.2 ?_⟩
  exact .intro trivial fun _ hd => absurd hd List.not_mem_nil

theorem assorted_product :
    permissive.registry = Registry.builtin ∧ (∀ c ∈ assorted, c.All Codec.Shapely) ∧
    ∃ fs, Runs (fragmentsOf permissive (fragmentAt permissive 1) assorted) {} fs
        ⟨[("Id", .obj [("type", .str "string")])], ["Id"]⟩ ∧ (∃ f ∈ fs, alternatives? f ≠ none) ∧
      ∃ (unions : List (List Fields)) (entries : List Fields),
        fs.filterMap alternatives? = unions.map exposed ∧
        Runs (fragmentAt permissive 2 (.intersection ⟨true, some "mixed"⟩ assorted)) {}
          (noted (some "mixed") [("anyOf", exposed entries)]) ⟨[("Id", .obj [("type", .str "string")])], ["Id"]⟩ ∧
        entries.length = 2 * (unions.map List.length).sum ∧
        ∀ i j l union b o, unions[i]? = some union → union[j]? = some b → (fs.filter isObject)[l]? = some o →
          ∃ entry, entries[(((unions.take i).map List.length).sum + j) * (fs.filter isObject).length + l]? =
            some entry ∧ Pairing true o b entry := by
  obtain ⟨fs, hfs, hlength, hexposes⟩ : ∃ fs, Runs (fragmentsOf permissive (fragmentAt permissive 1) assorted) {} fs
      ⟨[("Id", .obj [("type", .str "string")])], ["Id"]⟩ ∧ (fs.filter isObject).length = 2 ∧
      ∃ f ∈ fs, alternatives? f ≠ none := by
    refine ⟨_, rfl, rfl, _, List.mem_cons_of_mem _ List.mem_cons_self, ?_⟩
    exact fun h => nomatch h
  obtain ⟨unions, entries, hunions, hrun, hcount, hplaces⟩ :=
    intersection_product rfl ⟨true, some "mixed"⟩ shapely_assorted hfs hexposes
  refine ⟨rfl, shapely_assorted, fs, hfs, hexposes, unions, entries, hunions, hrun, ?_, hplaces⟩
  rw [hcount, hlength]

end CodecCompiler
