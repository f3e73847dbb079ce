/-
Reading at a cursor: marks, block scalars, plain and quoted ones.

A cursor only moves on, so that what it stands before is always an end of the text (`Cursor.Within`). All that is read
at it keeps it so. Where reading fails, the failure is one that is reported, except at an escape by a number of more
than 31 bits.

- `IsScanFailure`: the failures of reading at a cursor.
- `Plain.scan_within`: a plain scalar ends with no blank, and without blanks it stands in the text as it is (`IsPlain`).
- `Quoted.scan_ensures`: a quoted scalar fails apart only at a huge escape.
-/
import CodecCompiler.Proofs.Spelling
import CodecCompiler.Yaml.Token.Block
import CodecCompiler.Yaml.Token.Mark
import CodecCompiler.Yaml.Token.Plain
import CodecCompiler.Yaml.Token.Quoted

namespace CodecCompiler.Yaml

variable {cs : List Char} {c : Cursor}

/-! ## Failures -/

/-- an escape by a number of more than 31 bits -/
def HasHugeEscape (cs : List Char) : Prop :=
  ∃ digits n, '\\' :: 'U' :: digits <:+: cs ∧ digits.length = 8 ∧ Text.numeral? 16 digits = some n ∧ 0x80000000 ≤ n

/-- the failures of scanning: those that are reported, and that of a huge escape -/
def IsScanFailure (cs : List Char) (f : Failure) : Prop := f.IsReported ∨ f = .tooLarge ∧ HasHugeEscape cs

theorem isScanFailure_malformed : IsScanFailure cs .malformed := .inl Failure.isReported_malformed

/-! ## Cursors -/

namespace Cursor

/-- it stands before an end of the text -/
def Within (cs : List Char) (c : Cursor) : Prop := c.rest <:+ cs

theorem Within.next (h : c.Within cs) : c.next.Within cs := by
  unfold Cursor.next
  split
  · exact h
  · rename_i ch rest hrest
    have hbehind : rest <:+ cs := (List.suffix_cons ch rest).trans (hrest ▸ h)
    split
    · exact hbehind
    split
    · exact hbehind
    · exact hbehind

theorem Within.skip (h : c.Within cs) (n : Nat) : (c.skip n).Within cs := by
  induction n generalizing c with
  | zero => exact h
  | succ n ih => exact ih h.next

theorem Within.skipWhile (h : c.Within cs) (p : Char → Bool) : (c.skipWhile p).Within cs := h.skip _

/-- a comment, if there is one -/
theorem Within.skipComment (h : c.Within cs) (p : Char → Bool) :
    (if c.peek = '#' then c.skipWhile p else c).Within cs := by
  split
  · exact h.skipWhile p
  · exact h

theorem Within.span (h : c.Within cs) (p : Char → Bool) : (c.span p).2.Within cs := h.skip _

theorem Within.lineBreak? (h : c.Within cs) {ch : Char} {c' : Cursor} (hbreak : c.lineBreak? = some (ch, c')) :
    c'.Within cs ∧ isBreak ch = true := by
  simp only [Cursor.lineBreak?] at hbreak
  split at hbreak
  · cases hbreak
    exact ⟨h.skip 2, rfl⟩
  split at hbreak
  · cases hbreak
    exact ⟨h.next, rfl⟩
  split at hbreak
  · cases hbreak
    exact ⟨h.next, by assumption⟩
  · cases hbreak

/-- what the next character is, if it is one of the text -/
theorem rest_of_peek {ch : Char} (h : c.peek = ch) (hch : ch ≠ endMark) : ∃ rest, c.rest = ch :: rest := by
  unfold peek at h
  cases hrest : c.rest with
  | nil => exact absurd (by simpa [hrest] using h.symm) hch
  | cons d rest => exact ⟨rest, by simpa [hrest] using h⟩

theorem rest_next {ch : Char} {rest : List Char} (h : c.rest = ch :: rest) : c.next.rest = rest := by
  unfold next
  rw [h]
  simp only []
  split
  · rfl
  split
  · rfl
  · rfl

end Cursor

namespace Token

/-! ## Marks -/

namespace Mark

theorem anchorName_ensures (h : c.Within cs) : Ensures Failure.IsReported (·.2.Within cs) (anchorName c) := by
  simp only [anchorName]
  split
  · exact .error Failure.isReported_malformed
  split
  · exact .ok (h.span isWordChar)
  · exact .error Failure.isReported_malformed

theorem tagText_ensures (fuel : Nat) (h : c.Within cs) (found : List Char) :
    Ensures Failure.IsReported (·.2.Within cs) (tagText fuel c found) := by
  induction fuel generalizing c found with
  | zero => exact .error Failure.isReported_malformed
  | succ fuel ih =>
    have hplain := h.span isTagChar
    simp only [tagText]
    split
    · split
      · exact .error Failure.isReported_malformed
      · split
        · exact .error Failure.isReported_malformed
        · exact ih (hplain.skip _) _
    · exact .ok hplain

theorem tagText?_ensures (fuel : Nat) (h : c.Within cs) :
    Ensures Failure.IsReported (·.2.Within cs) (tagText? fuel c) := by
  unfold tagText?
  refine (tagText_ensures fuel h []).bind fun r hr => ?_
  simp only []
  split
  · exact .error Failure.isReported_malformed
  · exact .ok hr

theorem handle_ensures (h : c.Within cs) : Ensures Failure.IsReported (·.2.Within cs) (handle c) := by
  simp only [handle]
  split
  · exact .error Failure.isReported_malformed
  split
  · exact .ok h.next
  split
  · exact .ok (h.next.span isWordChar).next
  · exact .error Failure.isReported_malformed

theorem tag_ensures (fuel : Nat) (h : c.Within cs) :
    Ensures Failure.IsReported (fun r => r.2.Within cs ∧ ∃ handle suffix, r.1 = .tag handle suffix) (tag fuel c) := by
  have hend : ∀ (handle : Option String) (suffix : String) {c : Cursor}, c.Within cs →
      Ensures Failure.IsReported (fun r => r.2.Within cs ∧ ∃ handle suffix, r.1 = .tag handle suffix)
        (if isSpaceOrEnd c.peek then pure (Token.tag handle suffix, c) else throw .malformed) := by
    intro handle suffix c hc
    split
    · exact .ok ⟨hc, handle, suffix, rfl⟩
    · exact .error Failure.isReported_malformed
  simp only [tag, pure_bind]
  split
  · refine (tagText?_ensures fuel (h.skip 2)).bind fun r hr => ?_
    split
    · exact hend _ _ hr.next
    · exact .error Failure.isReported_malformed
  split
  · exact hend _ _ h.next
  split
  · exact (handle_ensures h).bind fun r hr => (tagText?_ensures fuel hr).bind fun r hr => hend _ _ hr
  · exact (tagText?_ensures fuel h.next).bind fun r hr => hend _ _ hr

theorem number_ensures (h : c.Within cs) : Ensures Failure.IsReported (·.2.Within cs) (number c) := by
  simp only [number]
  split
  · exact .error Failure.isReported_malformed
  split
  · exact .error Failure.isReported_noValue
  · exact .ok (h.span isDigit)

theorem version_ensures (h : c.Within cs) : Ensures Failure.IsReported (·.2.Within cs) (version c) := by
  unfold version
  refine (number_ensures (h.skipWhile _)).bind fun r hr => ?_
  simp only []
  split
  · exact .error Failure.isReported_malformed
  · refine (number_ensures hr.next).bind fun r hr => ?_
    split
    · exact .ok hr
    · exact .error Failure.isReported_malformed

theorem handleMeaning_ensures (fuel : Nat) (h : c.Within cs) :
    Ensures Failure.IsReported (·.2.Within cs) (handleMeaning fuel c) := by
  unfold handleMeaning
  refine (handle_ensures (h.skipWhile _)).bind fun r hr => ?_
  simp only []
  split
  · exact .error Failure.isReported_malformed
  · refine (tagText?_ensures fuel (hr.skipWhile _)).bind fun r hr => ?_
    split
    · exact .ok hr
    · exact .error Failure.isReported_malformed

theorem lineEnd_ensures (h : c.Within cs) : Ensures Failure.IsReported (·.Within cs) (lineEnd c) := by
  unfold lineEnd
  extract_lets spaces comment
  have hcomment : comment.Within cs := (h.skipWhile _).skipComment _
  split
  · exact .ok hcomment
  split
  · rename_i hbreak
    exact .ok (hcomment.lineBreak? hbreak).1
  · exact .error Failure.isReported_malformed

theorem directive_ensures (fuel : Nat) (h : c.Within cs) :
    Ensures Failure.IsReported (fun r => r.2.Within cs ∧ ∃ d, r.1 = .directive d) (directive fuel c) := by
  have hend : ∀ r : Directive × Cursor, r.2.Within cs → Ensures Failure.IsReported
      (fun r => r.2.Within cs ∧ ∃ d, r.1 = .directive d)
      (lineEnd r.2 >>= fun c => pure (Token.directive r.1, c)) := fun r hr =>
    (lineEnd_ensures hr).bind fun c hc => .ok ⟨hc, r.1, rfl⟩
  have hname := h.next.span isWordChar
  simp only [directive, pure_bind]
  split
  · exact .error Failure.isReported_malformed
  split
  · exact (version_ensures hname).bind hend
  · exact (handleMeaning_ensures fuel hname).bind hend
  · exact hend (_, _) (hname.skipWhile _)

end Mark

/-! ## Block scalars -/

namespace Block

theorem chomping?_within (h : c.Within cs) {r : Chomping × Cursor} (hr : chomping? c = some r) : r.2.Within cs := by
  unfold chomping? at hr
  split at hr
  · cases hr
    exact h.next
  split at hr
  · cases hr
    exact h.next
  · cases hr

theorem increment?_ensures (h : c.Within cs) : Ensures Failure.IsReported (·.2.Within cs) (increment? c) := by
  unfold increment?
  split
  · split
    · exact .error Failure.isReported_malformed
    · exact .ok h.next
  · exact .ok h

theorem header_ensures (h : c.Within cs) : Ensures Failure.IsReported (·.2.Within cs) (header c) := by
  have hend : ∀ (found : Header) {c : Cursor}, c.Within cs → Ensures Failure.IsReported (·.2.Within cs)
      (if isSpaceOrEnd c.peek then .ok (found, c) else .error .malformed) := fun found {c} hc => by
    split
    · exact .ok hc
    · exact .error Failure.isReported_malformed
  simp only [header, pure_bind]
  split
  · rename_i hchomping
    exact (increment?_ensures (chomping?_within h hchomping)).bind fun r hr => hend _ hr
  · refine (increment?_ensures h).bind fun r hr => ?_
    split
    · rename_i hchomping
      exact hend _ (chomping?_within hr hchomping)
    · exact hend _ hr

theorem emptyRest_ensures (h : c.Within cs) : Ensures Failure.IsReported (·.Within cs) (emptyRest c) :=
  Mark.lineEnd_ensures h

theorem leading_within (fuel : Nat) (h : c.Within cs) (breaks : List Char) (widest : Nat) :
    (leading fuel c breaks widest).2.2.Within cs := by
  induction fuel generalizing c breaks widest with
  | zero => exact h
  | succ fuel ih =>
    simp only [leading]
    split
    · exact ih h.next _ _
    · split
      · rename_i hbreak
        exact ih (h.lineBreak? hbreak).1 _ _
      · exact h

theorem emptyLines_within (indent fuel : Nat) (h : c.Within cs) (breaks : List Char) :
    (emptyLines indent fuel c breaks).2.Within cs := by
  induction fuel generalizing c breaks with
  | zero => exact h
  | succ fuel ih =>
    simp only [emptyLines]
    have hindented : (indentation indent c).Within cs := h.skip _
    split
    · rename_i hbreak
      exact ih (hindented.lineBreak? hbreak).1 _
    · exact hindented

theorem lines_within (folded : Bool) (indent fuel : Nat) (h : c.Within cs) (breaks text : List Char) :
    (lines folded indent fuel c breaks text).2.2.2.Within cs := by
  induction fuel generalizing c breaks text with
  | zero => exact h
  | succ fuel ih =>
    simp only [lines]
    split
    · exact h
    have hline := h.span (!isBreakOrEnd ·)
    split
    · rename_i hbreak
      have hlast := (hline.lineBreak? hbreak).1
      split
      · exact ih (emptyLines_within indent fuel hlast []) _ _
      · exact emptyLines_within indent fuel hlast []
    · split
      · exact ih (emptyLines_within indent fuel hline []) _ _
      · exact emptyLines_within indent fuel hline []

theorem scan_ensures (fuel : Nat) (folded : Bool) (indent : Int) (h : c.Within cs) :
    Ensures Failure.IsReported (·.2.Within cs) (scan fuel folded indent c) := by
  unfold scan
  refine (header_ensures h).bind fun ⟨header, c⟩ hc => (emptyRest_ensures hc).bind fun c hc => ?_
  simp only []
  split
  · exact .ok (lines_within folded _ fuel (leading_within fuel hc [] 0) _ _)
  · exact .ok (lines_within folded _ fuel (emptyLines_within _ fuel hc []) _ _)

end Block

/-! ## Plain scalars -/

/-- a plain scalar does not end with a blank, and without blanks it stands in the text as it is -/
structure IsPlain (cs text : List Char) : Prop where
  getLast?_ne : ∀ c, text.getLast? = some c → isBlankOrEnd c = false
  isInfix : Solid text → text <:+: cs

namespace Plain

theorem solid_word (inFlow : Bool) (cs : List Char) : Solid (word inFlow cs) := by
  induction cs with
  | nil => exact fun c hc => absurd hc List.not_mem_nil
  | cons ch rest ih =>
    unfold word
    split
    · exact fun c hc => absurd hc List.not_mem_nil
    · rename_i hends
      refine .cons ?_ ih
      by_contra hblank
      exact hends (by simp [endsAt, Bool.not_eq_false _ ▸ hblank])

theorem word_front (inFlow : Bool) (cs : List Char) : word inFlow cs <+: cs := by
  induction cs with
  | nil => exact List.prefix_rfl
  | cons ch rest ih =>
    unfold word
    split
    · exact List.nil_prefix
    · exact (List.prefix_cons_inj ch).2 ih

theorem isBlankOrEnd_of_isBreak {ch : Char} (h : isBreak ch = true) : isBlankOrEnd ch = true := by
  simp [isBlankOrEnd, isSpaceOrEnd, isBreakOrEnd, h]

/-- blanks, line breaks and ends only -/
def Blank (cs : List Char) : Prop := ∀ ch ∈ cs, isBlankOrEnd ch = true

theorem breaks_within (fuel : Nat) (h : c.Within cs) {found : List Char} (hfound : Blank found) :
    (breaks fuel c found).2.Within cs ∧ ∀ more, (breaks fuel c found).1 = some more → Blank more := by
  induction fuel generalizing c found with
  | zero => exact ⟨h, fun more hmore => Option.some.inj hmore ▸ hfound⟩
  | succ fuel ih =>
    simp only [breaks]
    have hspaces := h.skipWhile (· = ' ')
    split
    · exact ⟨hspaces, fun more hmore => Option.some.inj hmore ▸ hfound⟩
    · rename_i ch c' hbreak
      obtain ⟨hbehind, hch⟩ := hspaces.lineBreak? hbreak
      split
      · exact ⟨hbehind, fun more hmore => absurd hmore (by simp)⟩
      · exact ih hbehind (List.forall_mem_append.2 ⟨hfound, by simpa using isBlankOrEnd_of_isBreak hch⟩)

theorem gap_within (fuel : Nat) (h : c.Within cs) : (gap fuel c).2.Within cs ∧ Blank (gap fuel c).1.text := by
  have hspaces : Blank (c.span (· = ' ')).1 := fun ch hch => by
    have hspace : ch = ' ' := by simpa using List.mem_takeWhile_imp hch
    exact hspace ▸ by decide
  have hnone : Blank [] := fun ch hch => absurd hch List.not_mem_nil
  have hbehind := h.span (· = ' ')
  simp only [gap]
  split
  · exact ⟨hbehind, hspaces⟩
  · rename_i ch c' hbreak
    obtain ⟨hbehind, hch⟩ := hbehind.lineBreak? hbreak
    split
    · exact ⟨hbehind, hnone⟩
    have hmore := breaks_within fuel hbehind hnone
    split
    · rename_i hbreaks
      rw [hbreaks] at hmore
      exact ⟨hmore.1, hnone⟩
    · rename_i more c'' hbreaks
      rw [hbreaks] at hmore
      refine ⟨hmore.1, List.forall_mem_append.2 ⟨?_, hmore.2 more rfl⟩⟩
      split
      · simpa using isBlankOrEnd_of_isBreak hch
      split
      · exact fun ch hch => by rw [List.mem_singleton.1 hch]; decide
      · exact hnone

/-- a word behind others, with blanks between, or behind none -/
theorem isPlain_append {found between taken : List Char} (hfront : taken <+: c.rest) (h : c.Within cs)
    (hsolid : Solid taken) (htaken : taken ≠ [])
    (hbetween : found = [] ∧ between = [] ∨ between ≠ [] ∧ Blank between) : IsPlain cs (found ++ between ++ taken) where
  getLast?_ne ch hch := by
    obtain ⟨before, last, rfl⟩ := List.eq_nil_or_concat taken |>.resolve_left htaken
    have hlast : last = ch := by simpa [← List.append_assoc] using hch
    exact hsolid ch (by simp [hlast])
  isInfix hall := by
    rcases hbetween with ⟨rfl, rfl⟩ | ⟨hne, hblank⟩
    · exact hfront.isInfix.trans h.isInfix
    · obtain ⟨ch, rest, rfl⟩ := List.exists_cons_of_ne_nil hne
      have hch := hall ch (by simp)
      exact absurd (hblank ch List.mem_cons_self) (by simp [hch])

theorem words_within (inFlow : Bool) (indent : Int) (fuel : Nat) (h : c.Within cs) {between found : List Char}
    (hfound : IsPlain cs found) (hbetween : found = [] ∧ between = [] ∨ between ≠ [] ∧ Blank between) (broken : Bool) :
    IsPlain cs (words inFlow indent fuel c between found broken).1 ∧
      (words inFlow indent fuel c between found broken).2.2.Within cs := by
  induction fuel generalizing c between found broken with
  | zero => exact ⟨hfound, h⟩
  | succ fuel ih =>
    simp only [words]
    have htaken : (if c.peek = '#' then [] else word inFlow c.rest) <+: c.rest ∧
        Solid (if c.peek = '#' then [] else word inFlow c.rest) := by
      split
      · exact ⟨List.nil_prefix, fun ch hch => absurd hch List.not_mem_nil⟩
      · exact ⟨word_front inFlow c.rest, solid_word inFlow c.rest⟩
    generalize (if c.peek = '#' then [] else word inFlow c.rest) = taken at htaken
    split
    · exact ⟨hfound, h⟩
    rename_i hempty
    obtain ⟨hbehind, hblank⟩ := gap_within fuel (h.skip taken.length)
    have hplain : IsPlain cs (found ++ between ++ taken) :=
      isPlain_append htaken.1 h htaken.2 (by simpa using hempty) hbetween
    split
    · exact ⟨hplain, hbehind⟩
    · rename_i hends
      refine ih hbehind hplain (.inr ⟨fun hnil => hends ?_, hblank⟩) _
      simp [hnil]

theorem scan_within (fuel : Nat) (inFlow : Bool) (indent : Int) (h : c.Within cs) :
    IsPlain cs (scan fuel inFlow indent c).1.toList ∧ (scan fuel inFlow indent c).2.2.Within cs := by
  have hnone : IsPlain cs [] := ⟨fun _ hch => absurd hch (by simp), fun _ => List.nil_infix⟩
  have hwords := words_within inFlow (indent + 1) fuel h hnone (.inl ⟨rfl, rfl⟩) false
  simpa only [scan, String.toList_ofList] using hwords

end Plain

/-! ## Quoted scalars -/

/-- digits of a base stay below the power of it that has one place more -/
theorem numeral?_lt {base n : Nat} {digits : List Char} (h : Text.numeral? base digits = some n) :
    n < base ^ digits.length := by
  have hfrom : ∀ (digits : List Char) (start : Nat),
      digits.foldlM (fun n c => (Text.hexValue c).bind fun d => if d < base then some (n * base + d) else none) start =
        some n → n < (start + 1) * base ^ digits.length := by
    intro digits
    induction digits with
    | nil =>
      intro start h
      have hn : start = n := Option.some.inj h
      simp [hn]
    | cons c digits ih =>
      intro start h
      rw [List.foldlM_cons] at h
      obtain ⟨m, hm, hrest⟩ := Option.bind_eq_some_iff.1 h
      obtain ⟨d, -, hd⟩ := Option.bind_eq_some_iff.1 hm
      split at hd
      · rename_i hlt
        have hnext : m + 1 ≤ (start + 1) * base := by
          rw [← Option.some.inj hd, Nat.add_mul, Nat.one_mul, Nat.add_assoc]
          exact Nat.add_le_add_left hlt _
        calc n < (m + 1) * base ^ digits.length := ih m hrest
          _ ≤ (start + 1) * base * base ^ digits.length := Nat.mul_le_mul_right _ hnext
          _ = (start + 1) * base ^ (c :: digits).length := by rw [List.length_cons, pow_succ', Nat.mul_assoc]
      · exact absurd hd (by simp)
  simpa using hfrom digits 0 h

namespace Quoted

theorem breaks_ensures (fuel : Nat) (h : c.Within cs) (found : List CodePoint) :
    Ensures (IsScanFailure cs) (·.2.Within cs) (breaks fuel c found) := by
  induction fuel generalizing c found with
  | zero => exact .error isScanFailure_malformed
  | succ fuel ih =>
    simp only [breaks]
    split
    · exact .error isScanFailure_malformed
    have hblanks := h.skipWhile isSpaceOrTab
    split
    · rename_i hbreak
      exact ih (hblanks.lineBreak? hbreak).1 _
    · exact .ok hblanks

theorem spaces_ensures (fuel : Nat) (h : c.Within cs) :
    Ensures (IsScanFailure cs) (·.2.Within cs) (spaces fuel c) := by
  have hblanks := h.span isSpaceOrTab
  simp only [spaces]
  split
  · exact .error isScanFailure_malformed
  split
  · exact .ok hblanks
  · rename_i hbreak
    exact (breaks_ensures fuel (hblanks.lineBreak? hbreak).1 []).bind fun r hr => .ok hr

/-- an escape by number fails in a way that is not reported only if it is huge -/
theorem codePoint_ensures {count n : Nat} {letter : Char} {digits : List Char}
    (hcount : digitCount? letter = some count) (hlength : digits.length = count)
    (hn : Text.numeral? 16 digits = some n) (h : '\\' :: letter :: digits <:+: cs) :
    FailsWith (IsScanFailure cs) (codePoint n) := by
  unfold codePoint
  split
  · exact .ok trivial
  split
  · exact .error (.inl Failure.isReported_noValue)
  · rename_i hsize
    have hlt := numeral?_lt hn
    unfold digitCount? at hcount
    rw [hlength] at hlt
    split at hcount
    · cases hcount
      exact absurd hlt (by omega)
    · cases hcount
      exact absurd hlt (by omega)
    · cases hcount
      exact .error (.inr ⟨rfl, digits, n, h, hlength, hn, Nat.le_of_not_lt hsize⟩)
    · cases hcount

theorem escape_ensures (fuel : Nat) (h : '\\' :: c.rest <:+ cs) :
    Ensures (IsScanFailure cs) (·.2.Within cs) (escape fuel c) := by
  have hwithin : c.Within cs := (List.suffix_cons _ _).trans h
  simp only [escape]
  split
  · exact .ok hwithin.next
  · rename_i count _ hcount
    split
    · rename_i n hn hlength
      have hletter : ∃ rest, c.rest = c.peek :: rest := Cursor.rest_of_peek rfl fun hend => by
        rw [hend] at hcount
        exact absurd hcount (by simp [digitCount?, endMark])
      obtain ⟨rest, hrest⟩ := hletter
      rw [Cursor.rest_next hrest] at hn hlength
      refine Ensures.map (codePoint_ensures hcount (by simpa using hlength) hn ?_) fun _ _ => hwithin.next.skip _
      rw [hrest] at h
      have hdigits : '\\' :: c.peek :: rest.take count <+: '\\' :: c.peek :: rest := by
        simpa using List.take_prefix count rest
      exact hdigits.isInfix.trans h.isInfix
    · exact .error isScanFailure_malformed
  · split
    · rename_i hbreak
      exact breaks_ensures fuel (hwithin.lineBreak? hbreak).1 []
    · exact .error isScanFailure_malformed

theorem nonSpaces_ensures (double : Bool) (fuel : Nat) (h : c.Within cs) (found : List CodePoint) :
    Ensures (IsScanFailure cs) (·.2.Within cs) (nonSpaces double fuel c found) := by
  induction fuel generalizing c found with
  | zero => exact .error isScanFailure_malformed
  | succ fuel ih =>
    have hordinary := h.span isOrdinary
    simp only [nonSpaces]
    split
    · exact ih (hordinary.skip 2) _
    split
    · exact ih hordinary.next _
    split
    · rename_i hslash
      have hpeek : (c.span isOrdinary).2.peek = '\\' := by simp_all
      obtain ⟨rest, hrest⟩ := Cursor.rest_of_peek hpeek (by decide)
      refine (escape_ensures fuel ?_).bind fun r hr => ih hr _
      rw [Cursor.rest_next hrest, ← hrest]
      exact hordinary
    · exact .ok hordinary

theorem body_ensures (double : Bool) (fuel : Nat) (h : c.Within cs) (found : List CodePoint) :
    Ensures (IsScanFailure cs) (·.2.Within cs) (body double fuel c found) := by
  induction fuel generalizing c found with
  | zero => exact .error isScanFailure_malformed
  | succ fuel ih =>
    unfold body
    generalize (if double then '"' else '\'') = quote
    split
    · exact .ok h.next
    · exact (spaces_ensures fuel h).bind fun r hr => (nonSpaces_ensures double fuel hr _).bind fun r hr => ih hr _

theorem scan_ensures (fuel : Nat) (double : Bool) (h : c.Within cs) :
    Ensures (IsScanFailure cs) (·.2.Within cs) (scan fuel double c) :=
  (nonSpaces_ensures double fuel h.next []).bind fun r hr => (body_ensures double fuel hr r.1).bind fun _ hr => .ok hr

end Quoted

end Token

end CodecCompiler.Yaml
