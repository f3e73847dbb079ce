/-
Precedence of handlers: a compilation depends on the custom handlers only through the first one of each tag.

- `Registry.firsts`: the handlers whose tag no handler before them has.
- `tags_eq`: the tags of a registry are those of these handlers, in order; `index_tags` says so by positions.
- `fragmentAt_registry`: registries whose first handlers do the same compile the same, and tell the same tags if any
  handler reports them.
- `generate_of_firsts`: so handlers behind another one of their tag can be left out, handlers of different tags can
  change places unless one of them reports the tags, and it does not matter how tags are spelled.
-/
import CodecCompiler.Proofs.Bound

namespace CodecCompiler

open Compile

/-! ## First handlers -/

theorem Handler.handles_iff {h : Handler} {tag : Tag} : h.handles tag = true ↔ h.tag.name = tag.name := by
  simp [Handler.handles]

@[simp] theorem Tag.name_text (s : Text) : (Tag.text s).name = s := rfl

/-- the handler with its tag given as a text -/
def Handler.spelled (h : Handler) : Handler := { h with tag := .text h.tag.name }

namespace Registry

variable {registry : Registry}

/-- the tags of the handlers one by one -/
def names (registry : Registry) : List Text := registry.map fun h => h.tag.name

/-- the handlers whose tag no handler before them has -/
def firsts : Registry → Registry
  | [] => []
  | h :: hs => h :: (firsts hs).filter fun g => !h.handles g.tag

theorem find?_append (a b : Registry) (tag : Tag) : (a ++ b).find? tag = (a.find? tag).or (b.find? tag) :=
  List.find?_append

theorem find?_firsts (registry : Registry) (tag : Tag) : registry.firsts.find? tag = registry.find? tag := by
  unfold find?
  induction registry with
  | nil => rfl
  | cons h hs ih =>
    rw [firsts, List.find?_cons, List.find?_cons, List.find?_filter]
    cases hh : h.handles tag with
    | true => rfl
    | false =>
      -- the filter takes out handlers of the head's tag alone, which is not the one looked for
      have hpred : (fun g : Handler => decide ((!h.handles g.tag) = true ∧ g.handles tag = true)) =
          fun g => g.handles tag := by
        funext g
        simp only [Handler.handles, decide_eq_false_iff_not] at hh ⊢
        by_cases hg : g.tag.name = tag.name
        · simp [hg, hh]
        · simp [hg]
      rw [hpred, ih]

theorem firsts_subset (registry : Registry) : registry.firsts ⊆ registry := by
  induction registry with
  | nil => exact List.nil_subset _
  | cons h hs ih =>
    rw [firsts]
    exact List.cons_subset_cons h (List.Subset.trans List.filter_sublist.subset ih)

theorem nodup_firsts (registry : Registry) : registry.firsts.names.Nodup := by
  induction registry with
  | nil => exact List.nodup_nil
  | cons h hs ih =>
    refine List.nodup_cons.2 ⟨?_, (List.filter_sublist.map _).nodup ih⟩
    intro hmem
    obtain ⟨g, hg, hname⟩ := List.mem_map.1 hmem
    have hnot := (List.mem_filter.1 hg).2
    simp [Handler.handles, hname] at hnot

/-- of handlers with different tags every one is the first -/
theorem firsts_of_nodup (h : registry.names.Nodup) : registry.firsts = registry := by
  induction registry with
  | nil => rfl
  | cons g gs ih =>
    obtain ⟨hnew, hrest⟩ := List.nodup_cons.1 h
    rw [firsts, ih hrest]
    congr 1
    refine List.filter_eq_self.2 fun f hf => ?_
    have hne : ¬ g.tag.name = f.tag.name := fun heq => hnew (List.mem_map.2 ⟨f, hf, heq.symm⟩)
    simp [Handler.handles, hne]

/-! ## Tags -/

/-- going on behind tags that were seen adds those of the first handlers that are new -/
theorem foldl_tags (registry : Registry) (seen : List Text) :
    registry.foldl (fun seen h => if h.tag.name ∈ seen then seen else seen ++ [h.tag.name]) seen =
      seen ++ registry.firsts.names.filter fun name => name ∉ seen := by
  induction registry generalizing seen with
  | nil => simp [firsts, names]
  | cons h hs ih =>
    have hcons : (firsts (h :: hs)).names = h.tag.name :: (firsts hs).names.filter fun name => name ≠ h.tag.name := by
      simp only [names, firsts, List.map_cons, List.filter_map]
      congr 2
      refine List.filter_congr fun g _ => ?_
      simp [Handler.handles, eq_comm]
    rw [List.foldl_cons, ih, hcons, List.filter_cons, List.filter_filter]
    by_cases hseen : h.tag.name ∈ seen
    · simp only [hseen, if_true, not_true_eq_false, decide_false, Bool.false_eq_true, if_false]
      congr 1
      refine List.filter_congr fun name _ => ?_
      by_cases hname : name = h.tag.name
      · simp [hname, hseen]
      · simp [hname]
    · simp only [hseen, if_false, not_false_eq_true, decide_true, if_true, List.append_assoc, List.singleton_append]
      congr 2
      refine List.filter_congr fun name _ => ?_
      simp

/-- **The tags** of a registry are those of its first handlers, in order. -/
theorem tags_eq (registry : Registry) : registry.tags = registry.firsts.names := by
  rw [tags, foldl_tags]
  simp

theorem tags_firsts (registry : Registry) : registry.firsts.tags = registry.tags := by
  rw [tags_eq, tags_eq, firsts_of_nodup (nodup_firsts registry)]

theorem tags_append_congr {a b : Registry} (h : a.tags = b.tags) (c : Registry) : (a ++ c).tags = (b ++ c).tags := by
  unfold tags at h ⊢
  rw [List.foldl_append, List.foldl_append, h]

theorem mem_tags {name : Text} : name ∈ registry.tags ↔ (registry.find? (.text name)).isSome = true := by
  rw [tags_eq, ← find?_firsts, find?, List.find?_isSome]
  simp [names, Handler.handles_iff]

/-- a kind and its text are one tag -/
theorem find?_text (registry : Registry) (tag : Tag) : registry.find? (.text tag.name) = registry.find? tag := rfl

theorem index?_of_mem {h : Handler} (hh : h ∈ registry) : ∃ i, registry.index? (.text h.tag.name) = some i := by
  refine Option.ne_none_iff_exists'.1 fun hnone => ?_
  have hnot := List.findIdx?_eq_none_iff.1 hnone h hh
  simp [Handler.handles] at hnot

theorem index?_cons {h : Handler} {name : Text} (hne : h.tag.name ≠ name) :
    index? (h :: registry) (.text name) = (registry.index? (.text name)).map (· + 1) := by
  have hnot : h.handles (.text name) = false := by simp [Handler.handles, hne]
  simp [index?, List.findIdx?_cons, hnot]

/-- a tag stands before another one exactly where its first handler does -/
theorem index_tags (registry : Registry) : registry.tags.Pairwise fun s t =>
    ∃ i j, registry.index? (.text s) = some i ∧ registry.index? (.text t) = some j ∧ i < j := by
  rw [tags_eq, names, List.pairwise_map]
  induction registry with
  | nil => exact .nil
  | cons h hs ih =>
    have hother : ∀ g ∈ (firsts hs).filter (fun g => !h.handles g.tag), h.tag.name ≠ g.tag.name := by
      intro g hg
      simpa [Handler.handles] using (List.mem_filter.1 hg).2
    -- what is left behind the head has other tags, so it is found one place further on
    refine .cons (fun g hg => ?_) ((ih.filter _).imp_of_mem fun {f g} hf hg hfg => ?_)
    · obtain ⟨j, hj⟩ := index?_of_mem (firsts_subset hs (List.mem_filter.1 hg).1)
      refine ⟨0, j + 1, ?_, ?_, Nat.succ_pos j⟩
      · simp [index?, List.findIdx?_cons, Handler.handles]
      · rw [index?_cons (hother g hg), hj]
        rfl
    · obtain ⟨i, j, hi, hj, hlt⟩ := hfg
      refine ⟨i + 1, j + 1, ?_, ?_, Nat.succ_lt_succ hlt⟩
      · rw [index?_cons (hother f hf), hi]
        rfl
      · rw [index?_cons (hother g hg), hj]
        rfl

/-! ## Other spellings and orders -/

theorem tags_spelled (registry : Registry) : tags (registry.map Handler.spelled) = registry.tags := by
  unfold tags
  rw [List.foldl_map]
  rfl

theorem find?_spelled (registry : Registry) (tag : Tag) :
    find? (registry.map Handler.spelled) tag = (registry.find? tag).map Handler.spelled := by
  unfold find?
  rw [List.find?_map]
  rfl

/-- handlers of different tags are found in any order -/
theorem find?_perm {other : Registry} (h : other.Perm registry) (hnodup : registry.names.Nodup) (tag : Tag) :
    other.find? tag = registry.find? tag := by
  have hnodup' : other.names.Nodup := (h.map _).nodup_iff.2 hnodup
  clear hnodup
  unfold find?
  induction h with
  | nil => rfl
  | cons g _ ih => rw [List.find?_cons, List.find?_cons, ih (List.nodup_cons.1 hnodup').2]
  | swap f g hs =>
    have hne : ¬ (f.tag.name = tag.name ∧ g.tag.name = tag.name) := by
      rintro ⟨hf, hg⟩
      refine (List.nodup_cons.1 hnodup').1 ?_
      simp [hf, hg]
    simp only [List.find?_cons, Handler.handles]
    by_cases hf : f.tag.name = tag.name
    · have hg : g.tag.name ≠ tag.name := fun hg => hne ⟨hf, hg⟩
      simp [hf, hg]
    · simp [hf]
  | trans hfirst _ ih ih' => exact (ih hnodup').trans (ih' ((hfirst.map _).nodup_iff.1 hnodup'))

end Registry

/-! ## Registries that compile the same -/

section

variable {ctx : Context} {registry : Registry} {enter : Codec → Compile Fields}

/-- first handlers do the same, and tags are the same if any handler reports them -/
structure Context.Agrees (ctx : Context) (registry : Registry) : Prop where
  finds : ∀ tag, (registry.find? tag).map Handler.action = (ctx.registry.find? tag).map Handler.action
  tags : registry.tags = ctx.registry.tags ∨ ∀ h ∈ ctx.registry, h.action ≠ .reportContext

theorem handled_registry (h : ctx.Agrees registry) (c : Codec) (builtin : Compile Fields) :
    handled { ctx with registry } enter c builtin = handled ctx enter c builtin := by
  have hfinds := h.finds c.tag
  unfold handled
  cases hfind : ctx.registry.find? c.tag with
  | none =>
    rw [hfind, Option.map_none, Option.map_eq_none_iff] at hfinds
    rw [hfinds]
  | some handler =>
    rw [hfind, Option.map_some, Option.map_eq_some_iff] at hfinds
    obtain ⟨other, hother, haction⟩ := hfinds
    rw [hother]
    simp only [haction]
    cases hcase : handler.action with
    | reportContext =>
      rcases h.tags with htags | hnone
      · simp only [act, htags]
      · exact absurd hcase (hnone handler (List.mem_of_find?_eq_some hfind))
    | _ => rfl

theorem fragmentOf_registry (h : ctx.Agrees registry) (c : Codec) :
    fragmentOf { ctx with registry } enter c = fragmentOf ctx enter c := by
  induction c using Codec.induction with
  | step c ih =>
    have hbelow : fragmentsOf { ctx with registry } enter c.children = fragmentsOf ctx enter c.children :=
      fragmentsOf_congr (List.forall₂_same.2 ih)
    have hprescribed : prescribed { ctx with registry } enter c = prescribed ctx enter c := by
      rcases c.recursive_or with ⟨m, id, body, rfl⟩ | hkind
      · rfl
      · rw [prescribed_eq hkind, prescribed_eq hkind, hbelow]
        rfl
    rw [fragmentOf_eq, fragmentOf_eq, handled_registry h, hprescribed]

/-- **Registries that agree compile the same**, at every bound. -/
theorem fragmentAt_registry (h : ctx.Agrees registry) (depth : Nat) :
    fragmentAt { ctx with registry } depth = fragmentAt ctx depth := by
  induction depth with
  | zero => rfl
  | succ depth ih =>
    funext c
    rw [fragmentAt, fragmentAt, ih, fragmentOf_registry h]

end

/-! ## Compilations -/

section

variable {system : CodecSystem} {options : Options}

/-- the options with other custom handlers -/
def Options.using (options : Options) (handlers : Registry) : Options := { options with handlers }

/-- custom handlers that agree do so in front of the built-in ones -/
theorem agrees_of_handlers {handlers : Registry}
    (hfinds : ∀ tag, (handlers.find? tag).map Handler.action = (options.handlers.find? tag).map Handler.action)
    (htags : handlers.tags = options.handlers.tags ∨ ∀ h ∈ options.handlers, h.action ≠ .reportContext)
    (bodies : Bodies) : (options.context bodies).Agrees ((options.using handlers).context bodies).registry := by
  refine ⟨fun tag => ?_, htags.imp (fun htags => Registry.tags_append_congr htags _) fun hquiet h hh => ?_⟩
  · simp only [Options.context, Options.using, Registry.find?_append, Option.map_or, hfinds]
  · rcases List.mem_append.1 hh with hh | hh
    · exact hquiet h hh
    · obtain ⟨k, -, rfl⟩ := List.mem_map.1 hh
      exact Action.noConfusion

theorem fragmentAt_using {handlers : Registry} {bodies : Bodies}
    (h : (options.context bodies).Agrees ((options.using handlers).context bodies).registry) (depth : Nat) :
    fragmentAt ((options.using handlers).context bodies) depth = fragmentAt (options.context bodies) depth :=
  fragmentAt_registry h depth

theorem agrees_firsts (options : Options) (bodies : Bodies) :
    (options.context bodies).Agrees ((options.using options.handlers.firsts).context bodies).registry := by
  refine agrees_of_handlers (fun tag => ?_) (Or.inl (Registry.tags_firsts _)) bodies
  rw [Registry.find?_firsts]

theorem agrees_perm {handlers : Registry} (h : handlers.Perm options.handlers) (hnodup : options.handlers.names.Nodup)
    (hquiet : ∀ g ∈ options.handlers, g.action ≠ .reportContext) (bodies : Bodies) :
    (options.context bodies).Agrees ((options.using handlers).context bodies).registry := by
  refine agrees_of_handlers (fun tag => ?_) (Or.inr hquiet) bodies
  rw [Registry.find?_perm h hnodup]

theorem agrees_spelled (options : Options) (bodies : Bodies) :
    (options.context bodies).Agrees
      ((options.using (options.handlers.map Handler.spelled)).context bodies).registry := by
  refine agrees_of_handlers (fun tag => ?_) (Or.inl (Registry.tags_spelled _)) bodies
  rw [Registry.find?_spelled, Option.map_map]
  rfl

/-! ### Bounds -/

theorem depth_perm {ctx : Context} {registry : Registry} (h : registry.Perm ctx.registry) (c : Codec) :
    ({ ctx with registry } : Context).depth c = ctx.depth c := by
  have hpayloads : ({ ctx with registry } : Context).payloads.Perm ctx.payloads := h.filterMap _
  have hids : (Codec.idsList ({ ctx with registry } : Context).payloads).length =
      (Codec.idsList ctx.payloads).length := by
    rw [Codec.idsList_eq, Codec.idsList_eq]
    exact (hpayloads.flatMap_right _).length_eq
  have hreach : registry.foldl (fun depth h => depth + h.action.reach) 0 =
      ctx.registry.foldl (fun depth h => depth + h.action.reach) 0 :=
    h.foldl_eq' (fun f _ g _ depth => Nat.add_right_comm depth f.action.reach g.action.reach) 0
  unfold Context.depth
  simp only [List.length_append, hids, hpayloads.length_eq, hreach]

theorem depth_spelled (options : Options) (bodies : Bodies) (c : Codec) :
    ((options.using (options.handlers.map Handler.spelled)).context bodies).depth c =
      (options.context bodies).depth c := by
  have hpayloads : ((options.using (options.handlers.map Handler.spelled)).context bodies).payloads =
      (options.context bodies).payloads := by
    simp only [Context.payloads, Options.context, Options.using, List.filterMap_append, List.filterMap_map]
    rfl
  unfold Context.depth
  rw [hpayloads]
  simp only [Options.context, Options.using, List.foldl_append, List.foldl_map]
  rfl

theorem unscripted_context (h : ¬ options.handlers.Scripted) (bodies : Bodies) :
    ¬ (options.context bodies).registry.Scripted := by
  rintro ⟨g, hg, script, haction⟩
  rcases List.mem_append.1 hg with hg | hg
  · exact h ⟨g, hg, script, haction⟩
  · obtain ⟨k, -, rfl⟩ := List.mem_map.1 hg
    exact nomatch haction

theorem unscripted_firsts (h : ¬ options.handlers.Scripted) : ¬ options.handlers.firsts.Scripted := by
  rintro ⟨g, hg, hscript⟩
  exact h ⟨g, Registry.firsts_subset _ hg, hscript⟩

/-! ### Documents -/

theorem generate_congr {other : Options}
    (h : (compile (other.context system.bodies) system.root).runFrom {} =
      (compile (options.context system.bodies) system.root).runFrom {}) :
    generate system other = generate system options := by
  unfold generate
  rw [h]

theorem ends_generate : (generate system options).1 ≠ .error .endless ↔
    (compile (options.context system.bodies) system.root).Ends {} := by
  unfold generate Ends
  rcases (compile (options.context system.bodies) system.root).runFrom {} with ⟨e | f, p⟩
  · exact Iff.rfl
  · simp [Except.map]

/-- leaving out the handlers behind another one of their tag -/
theorem generate_firsts
    (hbound : ¬ options.handlers.Scripted ∨
      (generate system (options.using options.handlers.firsts)).1 ≠ .error .endless)
    (hends : (generate system options).1 ≠ .error .endless) :
    generate system (options.using options.handlers.firsts) = generate system options := by
  have hsame := fragmentAt_using (agrees_firsts options system.bodies)
  have hfull := ends_generate.1 hends
  apply generate_congr
  rcases hbound with hscripts | hreduced
  · have hunscripted : ¬ ((options.using options.handlers.firsts).context system.bodies).registry.Scripted :=
      unscripted_context (unscripted_firsts hscripts) system.bodies
    unfold compile at hfull
    rw [← hsame] at hfull
    rw [compile_of_ends hunscripted hfull, hsame]
    rfl
  · have hfew := ends_generate.1 hreduced
    unfold compile at hfull hfew ⊢
    rw [hsame] at hfew ⊢
    exact fragmentAt_unique hfull hfew

theorem generate_perm {handlers : Registry} (h : handlers.Perm options.handlers)
    (hnodup : options.handlers.names.Nodup) (hquiet : ∀ g ∈ options.handlers, g.action ≠ .reportContext) :
    generate system (options.using handlers) = generate system options := by
  have hsame := fragmentAt_using (agrees_perm h hnodup hquiet system.bodies)
  have hregistry : (handlers ++ Registry.builtin).Perm (options.context system.bodies).registry := h.append_right _
  have hdepth : ((options.using handlers).context system.bodies).depth system.root =
      (options.context system.bodies).depth system.root := depth_perm hregistry system.root
  apply generate_congr
  rw [compile, compile, hdepth, hsame]

theorem generate_spelled :
    generate system (options.using (options.handlers.map Handler.spelled)) = generate system options := by
  have hsame := fragmentAt_using (agrees_spelled options system.bodies)
  apply generate_congr
  rw [compile, compile, depth_spelled, hsame]

/-- the tags of a registry: those that are found, each once and in the order of their first handlers, however they are
spelled -/
structure Registry.Lists (registry : Registry) (tags : List Text) : Prop where
  found : ∀ c : Codec, c.tag.name ∈ tags ↔ (registry.find? c.tag).isSome = true
  distinct : tags.Nodup
  ordered : tags.Pairwise fun s t =>
    ∃ i j, registry.index? (.text s) = some i ∧ registry.index? (.text t) = some j ∧ i < j
  spelled : Registry.tags (registry.map Handler.spelled) = tags

theorem Registry.lists_tags (registry : Registry) : registry.Lists registry.tags := by
  refine ⟨fun c => ?_, ?_, Registry.index_tags registry, Registry.tags_spelled registry⟩
  · rw [← Registry.find?_text]
    exact Registry.mem_tags
  · rw [Registry.tags_eq]
    exact Registry.nodup_firsts registry

/-- **Only the first handler of each tag counts.** Whatever the custom handlers are, calls of the compiler do the same,
at every bound, when those behind another one of their tag are left out. So does a compilation that ends: the document,
the error and the bodies asked for are the same, where no handler runs a program of its own, or the bound that is left
suffices. Handlers of different tags can change places unless one of them reports the tags, and tags can be spelled as
kinds or as texts. The tags of a registry are those that a codec's handler is found by, each once, in the order of
their first handlers. -/
theorem generate_of_firsts (system : CodecSystem) (options : Options) :
    (∀ depth, fragmentAt ((options.using options.handlers.firsts).context system.bodies) depth =
      fragmentAt (options.context system.bodies) depth) ∧
    (¬ options.handlers.Scripted ∨
        (generate system (options.using options.handlers.firsts)).1 ≠ .error .endless →
      (generate system options).1 ≠ .error .endless →
        generate system (options.using options.handlers.firsts) = generate system options) ∧
    (∀ handlers : Registry, handlers.Perm options.handlers → options.handlers.names.Nodup →
      (∀ h ∈ options.handlers, h.action ≠ .reportContext) →
        generate system (options.using handlers) = generate system options) ∧
    generate system (options.using (options.handlers.map Handler.spelled)) = generate system options ∧
    ∀ registry : Registry, registry.Lists registry.tags := by
  refine ⟨?_, generate_firsts, fun handlers => generate_perm, generate_spelled, Registry.lists_tags⟩
  exact fragmentAt_using (agrees_firsts options system.bodies)

end

/-! ### Handlers behind others -/

/-- a system whose codecs lead from one custom handler to the next, into a body and back -/
def layers : CodecSystem where
  root := .tuple {} [.plain {} (.text "swap"), .plain ⟨true, some "again"⟩ (.text "wrap"), .plain {} (.text "log"),
    .object {} [("n", .plain {} (.text "number"))]]
  bodies := [("body", .array {} (.plain {} (.text "swap")))]

/-- a handler that leads into the body -/
def wrapping : Handler := ⟨.text "wrap", .delegate "inner" (.recursive {} "R" "body")⟩

/-- a handler that leads to another handler's codec -/
def swapping : Handler := ⟨.text "swap", .replace (.object {} [("w", .plain {} (.text "wrap"))])⟩

/-- a handler that writes over what objects compile to -/
def titling : Handler := ⟨.text "object", .extend [("title", .str "layer")]⟩

/-- handlers with others of their tags behind them, one of which would go on for ever -/
def layered : Options where
  handlers := [titling, wrapping, ⟨.kind .object, .constant [("type", .str "null")]⟩, swapping,
    ⟨.text "wrap", .replace (.plain {} (.text "wrap"))⟩, ⟨.text "log", .reportContext⟩, ⟨.text "log", .reportCache⟩]

/-- handlers of different tags, none of which reports the tags -/
def quiet : Options where
  handlers := [titling, wrapping, swapping, ⟨.text "log", .reportCache⟩]

theorem layered_generates :
    ¬ layered.handlers.Scripted ∧ (generate layers layered).1 ≠ .error .endless ∧ layered.handlers.firsts.length = 4 ∧
    generate layers (layered.using layered.handlers.firsts) = generate layers layered ∧
    (generate layers layered).2.resolved = ["body"] ∧
    quiet.handlers.names.Nodup ∧ (∀ h ∈ quiet.handlers, h.action ≠ .reportContext) ∧
    generate layers (quiet.using quiet.handlers.reverse) = generate layers quiet ∧
    (generate layers quiet).1.isOk = true := by
  have hscripts : ¬ layered.handlers.Scripted := by
    rintro ⟨h, hh, script, haction⟩
    simp only [layered, List.mem_cons, List.not_mem_nil, or_false] at hh
    rcases hh with rfl | rfl | rfl | rfl | rfl | rfl | rfl <;> exact nomatch haction
  have hends : (generate layers layered).1 ≠ .error .endless := by
    intro h
    have hok : (generate layers layered).1.isOk = true := rfl
    rw [h] at hok
    exact nomatch hok
  have hnodup : quiet.handlers.names.Nodup := by decide
  have hquiet : ∀ h ∈ quiet.handlers, h.action ≠ .reportContext := by
    simp [quiet, titling, wrapping, swapping]
  obtain ⟨-, hfirsts, hperm, -, -⟩ := generate_of_firsts layers layered
  obtain ⟨-, -, hperm, -, -⟩ := generate_of_firsts layers quiet
  exact ⟨hscripts, hends, rfl, hfirsts (Or.inl hscripts) hends, rfl, hnodup, hquiet,
    hperm _ (List.reverse_perm _) hnodup hquiet, rfl⟩

/-- handlers that report the tags tell the order of others, too -/
example :
    let before : Options := { handlers := [⟨.text "log", .reportContext⟩, ⟨.text "x", .constant []⟩] }
    let behind : Options := { handlers := [⟨.text "x", .constant []⟩, ⟨.text "log", .reportContext⟩] }
    (generate ⟨.plain {} (.text "log"), []⟩ before).1 ≠ (generate ⟨.plain {} (.text "log"), []⟩ behind).1 := by
  decide

end CodecCompiler
