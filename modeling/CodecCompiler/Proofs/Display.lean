/-
What is shown of texts: markup that stands for itself, and texts without styles that cannot be read.

- `Markup.Verbatim`: a text that is shown as it is. `Markup.verbatim_of_untagged`: a printable text is, where no
  brackets in it read as a style, none stand behind a backslash, and no two colons stand around the name of a picture.
- `Markup.render_unopened`: a text that closes a style before it opens one is not shown.
- `Styled.linesIn_of_printable`: a printable text that fits takes one line.
- `Styled.sound_linesIn`: a text without styles that cannot be read has no lines with such styles.
-/
import CodecCompiler.Text.Console
import Mathlib.Data.List.TakeWhile
import Mathlib.Tactic

namespace CodecCompiler

namespace Text

/-! ## Printable texts -/

/-- printable ASCII only -/
def Printable (cs : List Char) : Prop := ∀ c ∈ cs, 0x20 ≤ c.toNat ∧ c.toNat < 0x7F

-- by the characters in the text, not by all there are
instance : DecidablePred Printable := fun cs => List.decidableBAll _ cs

theorem Printable.ne {cs : List Char} (h : Printable cs) {c d : Char} (hc : c ∈ cs) (hd : d.toNat < 0x20) : c ≠ d := by
  rintro rfl
  exact absurd (h c hc).1 (Nat.not_le.2 hd)

theorem Printable.not_mem {cs : List Char} (h : Printable cs) {d : Char} (hd : d.toNat < 0x20) : d ∉ cs :=
  fun hmem => h.ne hmem hd rfl

end Text

namespace Styled

variable {overflow : Text.Overflow} {limit gap : Nat} {t : Styled}

/-- **A printable text that fits takes one line.** -/
theorem linesIn_of_printable (h : Text.Printable t.text) (hfits : t.text.length ≤ limit) :
    t.linesIn overflow limit = [t] :=
  linesIn_of_fits (h.not_mem (by decide)) (h.not_mem (by decide)) hfits (by rwa [Text.textWidth_of_ascii h])

/-! ## Texts without styles that cannot be read -/

theorem isSound_iff : t.isSound = true ↔ t.faults = [] := List.isEmpty_iff

theorem sound_become (h : t.isSound) (text : List Char) : (t.become text).isSound := by
  rw [isSound_iff] at h ⊢
  unfold become
  split_ifs
  · rw [h]
    rfl
  · exact h

theorem sound_partsFrom (gap start : Nat) (parts : List (List Char)) :
    ∀ part ∈ partsFrom gap [] start parts, part.isSound := by
  induction parts generalizing start with
  | nil => simp [partsFrom]
  | cons part parts ih =>
    simp only [partsFrom, List.forall_mem_cons]
    exact ⟨rfl, ih _⟩

theorem sound_divide (h : t.isSound) (parts : List (List Char)) : ∀ part ∈ t.divide gap parts, part.isSound := by
  rw [isSound_iff] at h
  unfold divide
  split
  · simp only [List.mem_singleton, forall_eq, h]
    rfl
  · rw [h]
    exact sound_partsFrom gap 0 _

theorem sound_expanded (h : t.isSound) : t.expanded.isSound := by
  unfold expanded
  split_ifs
  · rw [isSound_iff] at h ⊢
    simp only [h, List.filter_nil, List.map_nil]
  · exact h

theorem sound_broken (h : t.isSound) : ∀ part ∈ t.broken overflow limit, part.isSound := by
  intro part hpart
  obtain ⟨line, hline, hpart⟩ := List.mem_flatMap.1 hpart
  obtain ⟨whole, hwhole, rfl⟩ := List.mem_map.1 hpart
  exact sound_become (sound_divide (sound_expanded (sound_divide h _ line hline)) _ whole hwhole) _

/-- **A text without styles that cannot be read has no lines with such styles.** -/
theorem sound_linesIn (h : t.isSound) : ∀ line ∈ t.linesIn overflow limit, line.isSound := by
  intro line hline
  obtain ⟨part, hpart, rfl⟩ := List.mem_map.1 hline
  exact sound_become (sound_broken h part hpart) _

theorem sound_centred (h : t.isSound) (cells : Nat) : (t.centred cells).isSound := by
  have hline := isSound_iff.1 (sound_become (sound_become h (Text.trimEnd t.text))
    (Text.shorten .fold cells (t.become (Text.trimEnd t.text)).text))
  rw [isSound_iff]
  simp only [centred, shortened, hline, List.map_nil]

end Styled

namespace Markup

/-! ## Markup that stands for itself -/

/-- it is shown as it is -/
def Verbatim (evaluates : List Char → Bool) (cs : List Char) : Prop := render evaluates cs = .ok ⟨cs, []⟩

/-- no brackets in it are read as a style, and none stand behind a backslash -/
structure Untagged (cs : List Char) : Prop where
  unbracketed : ∀ part, part <:+ cs → bracketed? part = none
  unslashed : ¬ ['\\', '['] <:+: cs

variable {cs : List Char}

theorem Untagged.suffix (h : Untagged cs) {part : List Char} (hpart : part <:+ cs) : Untagged part :=
  ⟨fun p hp => h.unbracketed p (hp.trans hpart), fun hinside => h.unslashed (hinside.trans hpart.isInfix)⟩

theorem untagged_iff :
    Untagged cs ↔ (∀ part ∈ cs.tails, bracketed? part = none) ∧ ¬ ['\\', '['] <:+: cs := by
  simp only [List.mem_tails]
  exact ⟨fun h => ⟨h.unbracketed, h.unslashed⟩, fun h => ⟨h.1, h.2⟩⟩

instance : DecidablePred Untagged := fun _ => decidable_of_iff _ untagged_iff.symm

/-- without a bracket there is no style -/
theorem untagged_of_not_mem (h : '[' ∉ cs) : Untagged cs := by
  refine ⟨fun part hpart => ?_, fun hinside => h (hinside.subset (by simp))⟩
  unfold bracketed?
  split
  · exact absurd (hpart.subset List.mem_cons_self) h
  · rfl

/-- what is read at the front is what stands there -/
theorem readOne_of_untagged (h : Untagged cs) :
    ∃ front, (readOne cs).1 = [.text front] ∧ front ++ (readOne cs).2 = cs := by
  have happend := List.takeWhile_append_dropWhile (p := fun c => decide (c = '\\')) (l := cs)
  have hnone := h.unbracketed _ (List.dropWhile_suffix fun c => decide (c = '\\'))
  unfold readOne
  simp only [hnone]
  split
  · rename_i behind hrest
    rw [hrest] at happend
    -- a backslash in front of the bracket would have to be the last of those that were taken
    have hnil : cs.takeWhile (fun c => decide (c = '\\')) = [] := by
      by_contra hne
      obtain ⟨init, last, hlast⟩ := List.eq_nil_or_concat _ |>.resolve_left hne
      have hslash : last = '\\' := by
        have hmem : last ∈ cs.takeWhile fun c => decide (c = '\\') := by simp [hlast]
        simpa using List.mem_takeWhile_imp hmem
      refine h.unslashed ⟨init, behind, ?_⟩
      rw [← happend, hlast, hslash]
      simp
    rw [hnil] at happend ⊢
    exact ⟨['['], rfl, happend⟩
  · rename_i c behind hbracket hrest
    rw [hrest] at happend
    refine ⟨_, rfl, ?_⟩
    simpa using happend
  · rename_i hrest
    rw [hrest] at happend
    exact ⟨_, rfl, happend⟩

theorem read_of_untagged (h : Untagged cs) (hne : cs ≠ []) : read cs = [.text cs] := by
  -- by induction on the length: reading goes on behind what was read
  induction hlength : cs.length using Nat.strong_induction_on generalizing cs with
  | _ length ih =>
    obtain ⟨front, hfront, happend⟩ := readOne_of_untagged h
    have hless : (readOne cs).2.length < length := hlength ▸ length_readOne hne
    rw [read, dif_neg hne, hfront]
    change join [.text front] (read (readOne cs).2) = [.text cs]
    by_cases hrest : (readOne cs).2 = []
    · rw [hrest, List.append_nil] at happend
      rw [hrest, read, dif_pos rfl, happend]
      rfl
    · rw [ih _ hless (h.suffix ⟨front, happend⟩) hrest rfl]
      exact congrArg (fun cs => [Piece.text cs]) happend

variable {evaluates : List Char → Bool}

/-- **Markup that stands for itself**: printable, without styles and backslashes in front of brackets, and without
names of pictures. -/
theorem verbatim_of_untagged (h : Untagged cs) (hprintable : Text.Printable cs)
    (hpictures : Text.Emoji.replace cs = cs) : Verbatim evaluates cs := by
  have hshown : shown cs = cs := by
    rw [shown, hpictures, List.filter_eq_self]
    intro c hc
    have hlow := (hprintable c hc).1
    have hkept : c.toNat ∉ [7, 8, 11, 12, 13] := by
      simp only [List.mem_cons, List.not_mem_nil, or_false]
      omega
    simp [isDropped, hkept]
  unfold Verbatim render
  by_cases hne : cs = []
  · rw [hne, read, dif_pos rfl]
    rfl
  · rw [read_of_untagged h hne, List.foldlM_cons, Making.step, hshown]
    rfl

/-- such are printable texts without brackets and colons -/
theorem verbatim_of_not_mem (hprintable : Text.Printable cs) (hbracket : '[' ∉ cs) (hcolon : ':' ∉ cs) :
    Verbatim evaluates cs :=
  verbatim_of_untagged (untagged_of_not_mem hbracket) hprintable (Text.Emoji.replace_of_not_mem hcolon)

/-! ## Markup that is not in order -/

/-- where no style is open, none can be closed -/
theorem step_closing {m : Making} (h : m.tags = []) (name : List Char) :
    ∃ failure, Making.step evaluates m (.closing name) = .error failure := by
  cases name with
  | nil =>
    simp only [Making.step, h]
    exact ⟨.unopened, rfl⟩
  | cons c name =>
    cases hname : Style.normal? (c :: name) with
    | none =>
      simp only [Making.step, hname]
      exact ⟨.number, rfl⟩
    | some normal =>
      simp only [Making.step, hname, h, List.find?_nil]
      exact ⟨.unopened, rfl⟩

theorem foldlM_closing {m : Making} (h : m.tags = []) {parts : List Piece}
    (hparts : ∀ part ∈ parts, ∃ cs, part = .text cs ∨ part = .literal cs) (name : List Char) (pieces : List Piece) :
    ∃ failure, (parts ++ .closing name :: pieces).foldlM (Making.step evaluates) m = .error failure := by
  induction parts generalizing m with
  | nil =>
    obtain ⟨failure, hstep⟩ := step_closing h name
    rw [List.nil_append, List.foldlM_cons, hstep]
    exact ⟨failure, rfl⟩
  | cons part parts ih =>
    rw [List.forall_mem_cons] at hparts
    obtain ⟨⟨cs, hpart⟩, hrest⟩ := hparts
    have hstep : Making.step evaluates m part = .ok (m.append (shown cs)) := by
      rcases hpart with rfl | rfl <;> rfl
    rw [List.cons_append, List.foldlM_cons, hstep]
    exact ih h hrest

/-- **A text that closes a style before it opens one is not shown.** -/
theorem render_unopened {parts pieces : List Piece} {name : List Char}
    (hparts : ∀ part ∈ parts, ∃ cs, part = .text cs ∨ part = .literal cs)
    (h : read cs = parts ++ .closing name :: pieces) : ∃ failure, render evaluates cs = .error failure := by
  obtain ⟨failure, hfold⟩ := foldlM_closing (show Making.tags {} = [] from rfl) hparts name pieces
  unfold render
  rw [h, hfold]
  exact ⟨failure, rfl⟩

end Markup

end CodecCompiler
