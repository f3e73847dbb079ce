/-
Strings and integers in JSON texts: what is written for one is read back, whatever follows it.

- `Text.Unsplit`: the texts in which no two halves of surrogate pairs stand side by side that a reader would join.
- `Json.Reading.stringBody_escape`: the escapes of a code point are read as the code point, unless it is joined with
  what follows.
- `Json.Reading.string_quoted`: a text that is unsplit is read back.
- `Json.Reading.number_intDigits`: so is an integer, if it has not too many digits and nothing follows that belongs to a
  number.
-/
import CodecCompiler.Json.Reading
import CodecCompiler.Json.Writing
import Mathlib.Tactic

namespace CodecCompiler

/-! ## Texts -/

namespace CodePoint

/-- is it the first half of a pair -/
def isHigh : CodePoint → Bool
  | .char _ => false
  | .half n => n.val < 0x400

/-- is it the second half of a pair -/
def isLow : CodePoint → Bool
  | .char _ => false
  | .half n => 0x400 ≤ n.val

theorem ofNat_toNat (c : Char) : ofNat c.toNat = .char c := by
  have hvalid : c.toNat < 0xD800 ∨ 0xDFFF < c.toNat ∧ c.toNat < 0x110000 := c.valid
  have hnone : ¬ (firstHalf ≤ c.toNat ∧ c.toNat < firstHalf + 0x800) := by
    unfold firstHalf
    omega
  rw [ofNat, if_neg hnone, Char.ofNat_toNat]

theorem ofNat_half (n : Fin 0x800) : ofNat (firstHalf + n) = .half n := by
  have hhalf : firstHalf ≤ firstHalf + n.val ∧ firstHalf + n.val < firstHalf + 0x800 := by
    have hn := n.isLt
    omega
  rw [ofNat, if_pos hhalf, Nat.add_sub_cancel_left]
  exact congrArg half (Fin.ofNat_val_eq_self n)

end CodePoint

/-- no first half of a surrogate pair stands directly before a second half -/
def Text.Unsplit (t : Text) : Prop := t.points.IsChain fun p q => ¬ (p.isHigh = true ∧ q.isLow = true)

/-- strings have no halves at all -/
theorem Text.unsplit_ofString (s : String) : (Text.ofString s).Unsplit := by
  unfold Text.Unsplit
  change (s.toList.map CodePoint.char).IsChain _
  induction s.toList with
  | nil => exact .nil
  | cons c cs ih =>
    cases cs with
    | nil => exact .singleton _
    | cons d cs => exact .cons_cons (by simp [CodePoint.isHigh]) ih

namespace Json.Escape

/-! ## Units -/

theorem hexValue_hexDigit : ∀ n < 16, Text.hexValue (hexDigit n) = some n := by decide

theorem unitValue_hexDigits {n : Nat} (h : n < 0x10000) :
    unitValue (hexDigit (n / 4096 % 16)) (hexDigit (n / 256 % 16)) (hexDigit (n / 16 % 16)) (hexDigit (n % 16)) =
      some n := by
  have hdigit : ∀ m, Text.hexValue (hexDigit (m % 16)) = some (m % 16) :=
    fun m => hexValue_hexDigit _ (Nat.mod_lt m (by decide))
  have hvalue : ((n / 4096 % 16 * 16 + n / 256 % 16) * 16 + n / 16 % 16) * 16 + n % 16 = n := by omega
  simp only [unitValue, hdigit, Option.bind_eq_bind, Option.bind_some, Option.pure_def, hvalue]

theorem ofPair_halves {c : Char} (h : 0x10000 ≤ c.toNat) :
    ofPair (0xD800 + (c.toNat - 0x10000) / 0x400) (0xDC00 + (c.toNat - 0x10000) % 0x400) = c := by
  have hcode : 0x10000 + (0xD800 + (c.toNat - 0x10000) / 0x400 - 0xD800) * 0x400
      + (0xDC00 + (c.toNat - 0x10000) % 0x400 - 0xDC00) = c.toNat := by omega
  rw [ofPair, hcode, Char.ofNat_toNat]

theorem isHigh_iff {n : Nat} : isHigh n = true ↔ 0xD800 ≤ n ∧ n < 0xDC00 := decide_eq_true_iff

theorem isLow_iff {n : Nat} : isLow n = true ↔ 0xDC00 ≤ n ∧ n < 0xE000 := decide_eq_true_iff

/-- characters begin with the escape of a second half -/
def BeginsLow (cs : List Char) : Prop :=
  ∃ a b c d rest n, cs = '\\' :: 'u' :: a :: b :: c :: d :: rest ∧ unitValue a b c d = some n ∧ isLow n = true

theorem beginsLow_unit {n : Nat} (hn : n < 0x10000) {rest : List Char} (h : BeginsLow (unit n ++ rest)) :
    isLow n = true := by
  obtain ⟨a, b, c, d, rest', m, heq, hm, hlow⟩ := h
  cases heq
  rw [unitValue_hexDigits hn] at hm
  cases hm
  exact hlow

end Json.Escape

namespace Json.Reading

open Escape

variable {rest : List Char}

/-! ## Strings -/

theorem stringBody_unit {n : Nat} (hn : n < 0x10000) (hrest : isHigh n = true → ¬ BeginsLow rest) :
    stringBody (unit n ++ rest) = (stringBody rest).map fun r => (CodePoint.ofNat n :: r.1, r.2) := by
  change stringBody ('\\' :: 'u' :: hexDigit (n / 4096 % 16) :: hexDigit (n / 256 % 16) :: hexDigit (n / 16 % 16) ::
    hexDigit (n % 16) :: rest) = _
  by_cases hsplit : ∃ e f g h rest', rest = '\\' :: 'u' :: e :: f :: g :: h :: rest'
  · obtain ⟨e, f, g, h, rest', rfl⟩ := hsplit
    have hnone : (if isHigh n = true then (unitValue e f g h).filter isLow else none) = none := by
      split_ifs with hhigh
      · refine Option.filter_eq_none_iff.2 fun m hm hlow => hrest hhigh ?_
        exact ⟨e, f, g, h, rest', m, rfl, hm, hlow⟩
      · rfl
    rw [stringBody, unitValue_hexDigits hn]
    simp only [hnone]
  · rw [stringBody, unitValue_hexDigits hn]
    exact fun e f g h rest' hrest' => hsplit ⟨e, f, g, h, rest', hrest'⟩

theorem stringBody_pair {high low : Nat} (hhigh : isHigh high = true) (hlow : isLow low = true) :
    stringBody (unit high ++ (unit low ++ rest)) =
      (stringBody rest).map fun r => (CodePoint.char (ofPair high low) :: r.1, r.2) := by
  have hhighLt : high < 0x10000 := (isHigh_iff.1 hhigh).2.trans (by decide)
  have hlowLt : low < 0x10000 := (isLow_iff.1 hlow).2.trans (by decide)
  change stringBody ('\\' :: 'u' :: hexDigit (high / 4096 % 16) :: hexDigit (high / 256 % 16) ::
    hexDigit (high / 16 % 16) :: hexDigit (high % 16) :: '\\' :: 'u' :: hexDigit (low / 4096 % 16) ::
    hexDigit (low / 256 % 16) :: hexDigit (low / 16 % 16) :: hexDigit (low % 16) :: rest) = _
  rw [stringBody, unitValue_hexDigits hhighLt, unitValue_hexDigits hlowLt]
  simp only [hhigh, if_true, Option.filter_some, hlow]

theorem stringBody_escapeChar (c : Char) :
    stringBody (escapeChar c ++ rest) = (stringBody rest).map fun r => (CodePoint.char c :: r.1, r.2) := by
  have hvalid : c.toNat < 0xD800 ∨ 0xDFFF < c.toNat ∧ c.toNat < 0x110000 := c.valid
  unfold escapeChar
  split_ifs with hquote hbackslash hb hf hn hr ht hplain hunit
  · subst hquote
    rfl
  · subst hbackslash
    rfl
  · subst hb
    rfl
  · subst hf
    rfl
  · subst hn
    rfl
  · subst hr
    rfl
  · subst ht
    rfl
  · have hnul : c ≠ '\x00' := by
      rintro rfl
      exact absurd hplain.1 (by decide)
    change stringBody (c :: rest) = _
    rw [stringBody]
    · simp [hnul, hbackslash]
    · exact hquote
    · exact fun _ _ _ _ _ _ _ _ _ h => absurd h hbackslash
    · exact fun _ _ _ _ _ h => absurd h hbackslash
    · exact fun _ _ h => absurd h hbackslash
  · have hhigh : ¬ isHigh c.toNat = true := by
      rw [isHigh_iff]
      omega
    rw [stringBody_unit hunit fun h => absurd h hhigh, CodePoint.ofNat_toNat]
  · rw [List.append_assoc, stringBody_pair, ofPair_halves (Nat.le_of_not_lt hunit)]
    · rw [isHigh_iff]
      omega
    · rw [isLow_iff]
      omega

/-- only a second half is written so that a first half before it would be joined with it -/
theorem isLow_of_beginsLow {p : CodePoint} (h : BeginsLow (escape p ++ rest)) : p.isLow = true := by
  cases p with
  | half n =>
    have hn := n.isLt
    have hlow := isLow_iff.1 (beginsLow_unit (by unfold CodePoint.firstHalf; omega) h)
    unfold CodePoint.firstHalf at hlow
    simp only [CodePoint.isLow, decide_eq_true_eq]
    omega
  | char c =>
    exfalso
    have hvalid : c.toNat < 0xD800 ∨ 0xDFFF < c.toNat ∧ c.toNat < 0x110000 := c.valid
    have hother : ∀ {d : Char}, d ≠ 'u' → ¬ BeginsLow ('\\' :: d :: rest) := by
      rintro d hd ⟨_, _, _, _, _, _, heq, _⟩
      exact hd (List.cons.inj (List.cons.inj heq).2).1
    change BeginsLow (escapeChar c ++ rest) at h
    unfold escapeChar at h
    split_ifs at h with hquote hbackslash hb hf hn hr ht hplain hunit
    · exact hother (by decide) h
    · exact hother (by decide) h
    · exact hother (by decide) h
    · exact hother (by decide) h
    · exact hother (by decide) h
    · exact hother (by decide) h
    · exact hother (by decide) h
    · obtain ⟨_, _, _, _, _, _, heq, _⟩ := h
      exact hbackslash (List.cons.inj heq).1
    · have hlow := isLow_iff.1 (beginsLow_unit hunit h)
      omega
    · rw [List.append_assoc] at h
      have hlow := isLow_iff.1 (beginsLow_unit (by omega) h)
      omega

/-- a code point is read back, unless it is joined with what follows -/
theorem stringBody_escape {p : CodePoint} (h : p.isHigh = true → ¬ BeginsLow rest) :
    stringBody (escape p ++ rest) = (stringBody rest).map fun r => (p :: r.1, r.2) := by
  cases p with
  | char c => exact stringBody_escapeChar c
  | half n =>
    have hn := n.isLt
    have hlt : CodePoint.firstHalf + n.val < 0x10000 := by
      unfold CodePoint.firstHalf
      omega
    have hhigh : isHigh (CodePoint.firstHalf + n.val) = true → (CodePoint.half n).isHigh = true := by
      rw [isHigh_iff, CodePoint.isHigh, decide_eq_true_eq]
      unfold CodePoint.firstHalf
      omega
    rw [escape, stringBody_unit hlt fun hunit => h (hhigh hunit), CodePoint.ofNat_half]

/-- **The code points of an unsplit text are read back** up to the closing quote. -/
theorem stringBody_points {points : List CodePoint}
    (h : points.IsChain fun p q => ¬ (p.isHigh = true ∧ q.isLow = true)) :
    stringBody (points.flatMap escape ++ '"' :: rest) = .ok (points, rest) := by
  induction points with
  | nil => rfl
  | cons p points ih =>
    have hnext : p.isHigh = true → ¬ BeginsLow (points.flatMap escape ++ '"' :: rest) := by
      intro hhigh hlow
      cases points with
      | nil =>
        obtain ⟨_, _, _, _, _, _, heq, _⟩ := hlow
        cases heq
      | cons q points =>
        rw [List.flatMap_cons, List.append_assoc] at hlow
        exact (List.isChain_cons_cons.1 h).1 ⟨hhigh, isLow_of_beginsLow hlow⟩
    rw [List.flatMap_cons, List.append_assoc, stringBody_escape hnext, ih h.tail]
    rfl

theorem string_quoted {s : Text} (h : s.Unsplit) : string (s.points.flatMap escape ++ '"' :: rest) = .ok (s, rest) := by
  unfold string
  rw [stringBody_points h]
  rfl

/-! ## Integers -/

/-- nothing that belongs to a number stands at the front -/
def Stops (rest : List Char) : Prop := ∀ c ∈ rest.head?, isDigit c = false ∧ c ≠ '.' ∧ c ≠ 'e' ∧ c ≠ 'E'

theorem mem_of_isDigit {c : Char} (h : isDigit c = true) : c ∈ ['0', '1', '2', '3', '4', '5', '6', '7', '8', '9'] := by
  have hrange : 48 ≤ c.toNat ∧ c.toNat ≤ 57 := by
    simpa [isDigit, Char.le_def, UInt32.le_iff_toNat_le] using h
  obtain ⟨hlow, hhigh⟩ := hrange
  rw [← Char.ofNat_toNat c]
  generalize c.toNat = n at hlow hhigh
  interval_cases n <;> decide

theorem isDigit_of_mem_toDigits {m : Nat} {c : Char} (h : c ∈ Nat.toDigits 10 m) : isDigit c = true := by
  have hdigit : c.isDigit = true := Nat.isDigit_of_mem_toDigits (by decide) (by decide) h
  simpa [isDigit, Char.isDigit, Char.le_def] using hdigit

theorem digits_toDigits (m : Nat) (h : Stops rest) : digits (Nat.toDigits 10 m ++ rest) = (Nat.toDigits 10 m, rest) := by
  have hall : ∀ c ∈ Nat.toDigits 10 m, isDigit c = true := fun c hc => isDigit_of_mem_toDigits hc
  have hrest : rest.takeWhile isDigit = [] ∧ rest.dropWhile isDigit = rest := by
    cases rest with
    | nil => exact ⟨rfl, rfl⟩
    | cons c rest =>
      have hc : isDigit c = false := (h c rfl).1
      simp [hc]
  unfold digits
  rw [List.takeWhile_append_of_pos hall, List.dropWhile_append_of_pos hall, hrest.1, hrest.2, List.append_nil]

theorem integer_toDigits {negative : Bool} {m : Nat} (h : m < Nat.pow 10 mostDigits) :
    integer negative (Nat.toDigits 10 m) = .ok (if negative then -(m : Int) else m) := by
  have hlength : ∀ k, 0 < k → m < Nat.pow 10 k → (Nat.toDigits 10 m).length ≤ k :=
    fun k hk => (Nat.length_toDigits_le_iff (by decide) hk).2
  unfold integer
  rw [Nat.ofDigitChars_toDigits (by decide) (by decide)]
  simp only
  rw [if_neg fun hlong => Nat.not_lt.2 (hlength mostDigits (by decide) h) hlong.2]

theorem unsigned_toDigits {negative : Bool} {m : Nat} (hm : m < Nat.pow 10 mostDigits) (h : Stops rest) :
    unsigned negative (Nat.toDigits 10 m ++ rest) = .ok (.int (if negative then -(m : Int) else m), rest) := by
  unfold unsigned
  rw [digits_toDigits m h]
  simp only
  cases rest with
  | nil =>
    rw [integer_toDigits hm]
    rfl
  | cons c rest =>
    obtain ⟨-, hpoint, he, hE⟩ := h c rfl
    split
    · rename_i heq
      exact absurd (List.cons.inj heq).1 hpoint
    · rename_i heq
      exact absurd (List.cons.inj heq).1 he
    · rename_i heq
      exact absurd (List.cons.inj heq).1 hE
    · rw [integer_toDigits hm]
      rfl

theorem toDigits_begin (m : Nat) : ∃ c cs, Nat.toDigits 10 m = c :: cs ∧ isDigit c = true := by
  cases hcs : Nat.toDigits 10 m with
  | nil => exact absurd hcs Nat.toDigits_ne_nil
  | cons c cs => exact ⟨c, cs, rfl, isDigit_of_mem_toDigits (hcs ▸ List.mem_cons_self)⟩

theorem intDigits_begin (n : Int) : ∃ c cs, intDigits n = c :: cs ∧ (c = '-' ∨ isDigit c = true) := by
  cases n with
  | ofNat m =>
    obtain ⟨c, cs, hcs, hc⟩ := toDigits_begin m
    exact ⟨c, cs, hcs, .inr hc⟩
  | negSucc m => exact ⟨_, _, rfl, .inl rfl⟩

theorem isLong_eq_false_iff {n : Int} : isLong n = false ↔ n.natAbs < Nat.pow 10 mostDigits := by
  rw [isLong, decide_eq_false_iff_not, Nat.not_le]

/-- **An integer is read back** if it has not too many digits and nothing follows that belongs to a number. -/
theorem number_intDigits {n : Int} (hn : isLong n = false) (h : Stops rest) :
    number (intDigits n ++ rest) = .ok (.int n, rest) := by
  have hlt : n.natAbs < Nat.pow 10 mostDigits := isLong_eq_false_iff.1 hn
  have hdigit : ∀ {c d : Char}, isDigit d = false → isDigit c = true → c ≠ d := by
    rintro c d hd hc rfl
    exact absurd (hd.symm.trans hc) (by decide)
  cases n with
  | ofNat m =>
    obtain ⟨c, cs, hcs, hc⟩ := toDigits_begin m
    have hsign : c ≠ '-' := hdigit (by decide) hc
    have hnumber : number (Nat.toDigits 10 m ++ rest) = unsigned false (Nat.toDigits 10 m ++ rest) := by
      rw [hcs, List.cons_append, number]
      · exact fun _ heq => hsign (List.cons.inj heq).1
      · exact fun _ heq => hsign (List.cons.inj heq).1
    exact hnumber.trans (unsigned_toDigits hlt h)
  | negSucc m =>
    obtain ⟨c, cs, hcs, hc⟩ := toDigits_begin (m + 1)
    have hword : c ≠ 'I' := hdigit (by decide) hc
    have hnumber : number ('-' :: (Nat.toDigits 10 (m + 1) ++ rest)) =
        unsigned true (Nat.toDigits 10 (m + 1) ++ rest) := by
      rw [hcs, List.cons_append, number]
      exact fun _ heq => hword (List.cons.inj heq).1
    exact hnumber.trans (unsigned_toDigits hlt h)

end Json.Reading

end CodecCompiler
