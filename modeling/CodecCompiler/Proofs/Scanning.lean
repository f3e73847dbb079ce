/-
Scanning: what the tokens of a YAML text say about its characters.

A tag needs an exclamation mark, a plain scalar without blanks stands in the text as it is, and the text cannot be split
further only in a way that is reported or at a huge escape.

- `Token.Sound`: what a token of a text says about it.
- `State.Sound`: the cursor is within the text, and the tokens so far are sound. `State.step_ensures`: a step keeps
  that, and so do all steps to the end (`State.steps_sound`).
- `Token.sound_of_mem_scan`: all tokens of a text are sound.
-/
import CodecCompiler.Proofs.Cursors
import CodecCompiler.Yaml.Token.Scan

namespace CodecCompiler.Yaml.Token

variable {cs : List Char}

/-! ## Steps -/

/-- what a token of a text says about it -/
def Sound (cs : List Char) : Token → Prop
  | .scalar text true => ∃ s : String, text = .ofString s ∧ IsPlain cs s.toList
  | .tag _ _ => '!' ∈ cs
  | .failure f => IsScanFailure cs f
  | _ => True

namespace State

variable {s : State}

/-- the cursor stands within the text, and the tokens say what is true of it -/
structure Sound (cs : List Char) (s : State) : Prop where
  within : s.cursor.Within cs
  tokens : ∀ t ∈ s.tokens, Token.Sound cs t

theorem mem_of_mem_extract {α : Type} {xs : Array α} {a : α} {start stop : Nat} (h : a ∈ xs.extract start stop) :
    a ∈ xs := by
  obtain ⟨i, hi, rfl⟩ := Array.mem_iff_getElem.1 h
  rw [Array.getElem_extract]
  exact Array.getElem_mem _

theorem Sound.push (h : s.Sound cs) (t : Token) (ht : Token.Sound cs t) : (s.push t).Sound cs where
  within := h.within
  tokens := by simpa [State.push, or_imp, forall_and] using ⟨h.tokens, ht⟩

theorem Sound.insert (h : s.Sound cs) (t : Token) (ht : Token.Sound cs t) (position : Nat) :
    (s.insert position t).Sound cs where
  within := h.within
  tokens t' ht' := by
    have hmem : t' ∈ s.tokens.extract 0 position ∨ t' = t ∨ t' ∈ s.tokens.extract position s.tokens.size := by
      simpa [State.insert, or_assoc] using ht'
    rcases hmem with hmem | rfl | hmem
    · exact h.tokens t' (mem_of_mem_extract hmem)
    · exact ht
    · exact h.tokens t' (mem_of_mem_extract hmem)

theorem Sound.take (h : s.Sound cs) (t : Token) (ht : Token.Sound cs t) (n : Nat) : (s.take n t).Sound cs where
  within := h.within.skip n
  tokens := (h.push t ht).tokens

theorem Sound.add (h : s.Sound cs) (t : Token) (ht : Token.Sound cs t) {c : Cursor} (hc : c.Within cs) :
    State.Sound cs { s.push t with cursor := c } where
  within := hc
  tokens := (h.push t ht).tokens

/-- neither candidates nor indentation nor what may begin here matter -/
theorem Sound.of_eq (h : s.Sound cs) {s' : State} (hcursor : s'.cursor = s.cursor) (htokens : s'.tokens = s.tokens) :
    s'.Sound cs where
  within := hcursor ▸ h.within
  tokens := htokens ▸ h.tokens

theorem Sound.allowing (h : s.Sound cs) (allowKey : Bool) : State.Sound cs { s with allowKey } := h.of_eq rfl rfl

theorem Sound.remembering (h : s.Sound cs) (candidates : List (Option Candidate)) :
    State.Sound cs { s with candidates } := h.of_eq rfl rfl

theorem dropCandidate_ensures (k : Option Candidate) :
    FailsWith (IsScanFailure cs) (dropCandidate k) := by
  unfold dropCandidate
  split
  · split
    · exact .error isScanFailure_malformed
    · exact .ok trivial
  · exact .ok trivial

theorem forget_ensures (h : s.Sound cs) : Ensures (IsScanFailure cs) (Sound cs) s.forget := by
  unfold forget
  split
  · exact (dropCandidate_ensures _).bind fun k _ => .ok (h.of_eq rfl rfl)
  · exact .ok h

theorem remember_ensures (h : s.Sound cs) : Ensures (IsScanFailure cs) (Sound cs) s.remember := by
  unfold remember
  split
  · exact (forget_ensures h).bind fun s hs => .ok (hs.of_eq rfl rfl)
  · exact .ok h

theorem forgetStale_ensures (h : s.Sound cs) : Ensures (IsScanFailure cs) (Sound cs) s.forgetStale := by
  unfold forgetStale
  refine Ensures.bind (Ensures.mapM (R := fun _ => True) fun k _ => ?_) fun _ _ => .ok (h.of_eq rfl rfl)
  split
  · split
    · exact dropCandidate_ensures _
    · exact .ok trivial
  · exact .ok trivial

theorem Sound.closeDeeper (indents : List Int) (column : Int) (h : s.Sound cs) :
    (closeDeeper indents column s).Sound cs := by
  induction indents generalizing s with
  | nil =>
    unfold State.closeDeeper
    split
    · exact (h.push .blockEnd trivial).of_eq rfl rfl
    · exact h
  | cons outer indents ih =>
    unfold State.closeDeeper
    split
    · exact ih ((h.push .blockEnd trivial).of_eq rfl rfl)
    · exact h

theorem Sound.unwind (h : s.Sound cs) (column : Int) : (s.unwind column).Sound cs := h.closeDeeper _ _

theorem Sound.deepen (h : s.Sound cs) (column : Nat) : (s.deepen column).2.Sound cs := by
  unfold State.deepen
  split
  · exact h.of_eq rfl rfl
  · exact h

theorem leaveBlocks_ensures (h : s.Sound cs) : Ensures (IsScanFailure cs) (Sound cs) s.leaveBlocks :=
  (forget_ensures (h.unwind (-1))).bind fun _ hs => .ok (hs.of_eq rfl rfl)

theorem streamEnd_ensures (h : s.Sound cs) : Ensures (IsScanFailure cs) (Sound cs) s.streamEnd :=
  (leaveBlocks_ensures h).bind fun _ hs => .ok (hs.push .streamEnd trivial)

theorem directive_ensures (fuel : Nat) (h : s.Sound cs) : Ensures (IsScanFailure cs) (Sound cs) (directive fuel s) := by
  refine (leaveBlocks_ensures h).bind fun s hs => ?_
  refine ((Mark.directive_ensures fuel hs.within).weaken (fun _ => .inl)).bind fun ⟨t, c⟩ ⟨hc, d, ht⟩ => ?_
  exact .ok (hs.add t (by rw [show t = .directive d from ht]; trivial) hc)

theorem documentMark_ensures (h : s.Sound cs) (t : Token) (ht : Token.Sound cs t) :
    Ensures (IsScanFailure cs) (Sound cs) (s.documentMark t) :=
  (leaveBlocks_ensures h).bind fun _ hs => .ok (hs.take t ht 3)

theorem flowStart_ensures (h : s.Sound cs) (t : Token) (ht : Token.Sound cs t) :
    Ensures (IsScanFailure cs) (Sound cs) (s.flowStart t) :=
  (remember_ensures h).bind fun _ hs => .ok ((hs.take t ht 1).of_eq rfl rfl)

theorem flowEnd_ensures (h : s.Sound cs) (t : Token) (ht : Token.Sound cs t) :
    Ensures (IsScanFailure cs) (Sound cs) (s.flowEnd t) :=
  (forget_ensures h).bind fun _ hs => .ok ((hs.take t ht 1).of_eq rfl rfl)

theorem flowEntry_ensures (h : s.Sound cs) : Ensures (IsScanFailure cs) (Sound cs) s.flowEntry :=
  (forget_ensures h).bind fun _ hs => .ok ((hs.allowing true).take .flowEntry trivial 1)

theorem openBlock_ensures (h : s.Sound cs) (start : Token) (hstart : Token.Sound cs start) :
    Ensures (IsScanFailure cs) (Sound cs) (s.openBlock start) := by
  unfold openBlock
  split
  · exact .ok h
  split
  · exact .error isScanFailure_malformed
  · have hdeepen := h.deepen s.cursor.column
    refine .ok ?_
    split
    · exact hdeepen.push start hstart
    · exact hdeepen

theorem blockEntry_ensures (h : s.Sound cs) : Ensures (IsScanFailure cs) (Sound cs) s.blockEntry :=
  (openBlock_ensures h .blockSequenceStart trivial).bind fun _ hs => (forget_ensures hs).bind fun _ hs =>
    .ok ((hs.allowing true).take .blockEntry trivial 1)

theorem key_ensures (h : s.Sound cs) : Ensures (IsScanFailure cs) (Sound cs) s.key :=
  (openBlock_ensures h .blockMappingStart trivial).bind fun _ hs => (forget_ensures hs).bind fun _ hs =>
    .ok ((hs.allowing _).take .key trivial 1)

theorem value_ensures (h : s.Sound cs) : Ensures (IsScanFailure cs) (Sound cs) s.value := by
  unfold value
  split
  · rename_i k ks _
    have hkey : (({ s with candidates := none :: ks }).insert k.position .key).Sound cs :=
      (h.remembering (none :: ks)).insert .key trivial k.position
    dsimp only
    split
    · exact .ok ((hkey.allowing false).take .value trivial 1)
    · have hdeepen := hkey.deepen k.column
      refine .ok ((State.Sound.allowing ?_ false).take .value trivial 1)
      split
      · exact hdeepen.insert .blockMappingStart trivial k.position
      · exact hdeepen
  · refine (openBlock_ensures h .blockMappingStart trivial).bind fun s hs => ?_
    exact (forget_ensures (hs.allowing _)).bind fun _ hs => .ok (hs.take .value trivial 1)

theorem node_ensures (h : s.Sound cs) {scanned : State → Except Failure (Token × Cursor)}
    (hscanned : ∀ {s : State}, s.Sound cs →
      Ensures (IsScanFailure cs) (fun r => Token.Sound cs r.1 ∧ r.2.Within cs) (scanned s)) :
    Ensures (IsScanFailure cs) (Sound cs) (s.node scanned) :=
  (remember_ensures h).bind fun _ hs => (hscanned hs).bind fun _ hr => .ok ((hs.add _ hr.1 hr.2).of_eq rfl rfl)

theorem blockScalar_ensures (fuel : Nat) (folded : Bool) (h : s.Sound cs) :
    Ensures (IsScanFailure cs) (Sound cs) (blockScalar fuel s folded) := by
  refine (forget_ensures (h.allowing true)).bind fun s hs => ?_
  refine ((Block.scan_ensures fuel folded s.indent hs.within.next).weaken (fun _ => .inl)).bind fun r hr => ?_
  exact .ok (hs.add (.scalar (.ofString r.1) false) trivial hr)

theorem quoted_ensures (fuel : Nat) (double : Bool) (h : s.Sound cs) :
    Ensures (IsScanFailure cs) (Sound cs) (quoted fuel s double) :=
  node_ensures h fun hs => (Quoted.scan_ensures fuel double hs.within).bind fun _ hr => .ok ⟨trivial, hr⟩

theorem plain_ensures (fuel : Nat) (h : s.Sound cs) : Ensures (IsScanFailure cs) (Sound cs) (plain fuel s) := by
  refine (remember_ensures h).bind fun s hs => ?_
  have hscan := Plain.scan_within fuel s.inFlow s.indent hs.within
  exact .ok ((hs.add (.scalar (.ofString _) true) ⟨_, rfl, hscan.1⟩ hscan.2).of_eq rfl rfl)

theorem named_ensures (h : s.Sound cs) {make : String → Token} (hmake : ∀ name, Token.Sound cs (make name)) :
    Ensures (IsScanFailure cs) (Sound cs) (s.named make) :=
  node_ensures h fun hs => ((Mark.anchorName_ensures hs.within.next).weaken (fun _ => .inl)).bind
    fun r hr => .ok ⟨hmake r.1, hr⟩

theorem Sound.skipToToken (fuel : Nat) (h : s.Sound cs) : (skipToToken fuel s).Sound cs := by
  induction fuel generalizing s with
  | zero => exact h
  | succ fuel ih =>
    unfold State.skipToToken
    extract_lets spaces comment
    have hcomment : comment.Within cs := (h.within.skipWhile _).skipComment _
    split
    · rename_i hbreak
      exact ih ⟨(hcomment.lineBreak? hbreak).1, h.tokens⟩
    · exact ⟨hcomment, h.tokens⟩

theorem Sound.skipOrderMark (h : s.Sound cs) : s.skipOrderMark.Sound cs := by
  unfold State.skipOrderMark
  split
  · exact ⟨h.within.next, h.tokens⟩
  · exact h

theorem step_ensures (fuel : Nat) (h : s.Sound cs) : Ensures (IsScanFailure cs) (Sound cs) (step fuel s) := by
  unfold step
  refine (forgetStale_ensures (h.skipOrderMark.skipToToken fuel)).bind fun _ hs => ?_
  replace hs := hs.unwind (skipToToken fuel s.skipOrderMark).cursor.column
  dsimp only
  split
  · exact streamEnd_ensures hs
  split
  · exact directive_ensures fuel hs
  split
  · exact documentMark_ensures hs .documentStart trivial
  split
  · exact documentMark_ensures hs .documentEnd trivial
  split
  · exact flowStart_ensures hs .flowSequenceStart trivial
  · exact flowStart_ensures hs .flowMappingStart trivial
  · exact flowEnd_ensures hs .flowSequenceEnd trivial
  · exact flowEnd_ensures hs .flowMappingEnd trivial
  · exact flowEntry_ensures hs
  · exact named_ensures hs fun _ => trivial
  · exact named_ensures hs fun _ => trivial
  · rename_i hpeek
    have hmark : '!' ∈ cs := by
      obtain ⟨rest, hrest⟩ := Cursor.rest_of_peek hpeek (by decide)
      exact hs.within.subset (hrest ▸ List.mem_cons_self)
    refine node_ensures hs fun hs => (Mark.tag_ensures fuel hs.within).mono (fun _ => .inl) ?_
    exact fun r ⟨hc, handle, suffix, ht⟩ => ⟨ht ▸ hmark, hc⟩
  · exact quoted_ensures fuel false hs
  · exact quoted_ensures fuel true hs
  · split
    · exact blockEntry_ensures hs
    split
    · exact key_ensures hs
    split
    · exact value_ensures hs
    split
    · exact blockScalar_ensures fuel false hs
    split
    · exact blockScalar_ensures fuel true hs
    split
    · exact plain_ensures fuel hs
    · exact .error isScanFailure_malformed

theorem advance_ensures (fuel : Nat) (h : s.Sound cs) : Ensures (IsScanFailure cs) (Sound cs) (advance fuel s) := by
  refine (step_ensures fuel h).bind fun s hs => ?_
  split
  · exact .ok hs
  · exact forgetStale_ensures hs

theorem failed_sound (h : s.Sound cs) {f : Failure} (hf : IsScanFailure cs f) :
    ∀ t ∈ s.failed f, Token.Sound cs t := by
  intro t ht
  rcases Array.mem_push.1 ht with hmem | rfl
  · exact h.tokens t (mem_of_mem_extract hmem)
  · exact hf

/-- scanning to the end keeps what a step keeps -/
theorem steps_sound (fuel count : Nat) (h : s.Sound cs) : ∀ t ∈ steps fuel count s, Token.Sound cs t := by
  induction count generalizing s with
  | zero => exact failed_sound h isScanFailure_malformed
  | succ count ih =>
    have hadvance := advance_ensures fuel h
    unfold steps
    split
    · rename_i hfailed
      rw [hfailed] at hadvance
      cases hadvance with
      | error hf => exact failed_sound h hf
    · rename_i s' hstepped
      rw [hstepped] at hadvance
      cases hadvance with
      | ok hs =>
        split
        · exact hs.tokens
        · exact ih hs

end State

/-- **Every token says what is true of its text.** -/
theorem sound_of_mem_scan {t : Token} (h : t ∈ scan cs) : Token.Sound cs t :=
  State.steps_sound (cs.length + 1) (cs.length + 1 + 1) ⟨List.suffix_rfl, by simp⟩ t (Array.mem_toList_iff.1 h)

end CodecCompiler.Yaml.Token
