/-
Spelled scalars: a scalar whose type is that of its spelling can nearly always be read.

A reading fails in ways of its own where a scalar has a type that its spelling would not give it: a truth value that is
no known word, a number without a character, a date that looks like none. Spelling rules all of them out. What it does
not rule out is a float in base sixty of so many places that the weight of the highest is beyond all floats.

- `Failure.IsReported`: the failures that are reported as an invalid document.
- `Spelling.float?_of_isFloat`, `Spelling.int?_of_isInt`: what is spelled like a number has a digit or a point in it.
- `Spelling.nearest_sixty_pow`: the weights of the first 174 places are finite.
- `scalarValue_ofString`: the reading of a spelled scalar is a value, a reported failure, or too large.
- `scalarValue_of_not_reliesOnSpelling`: that of a type with a value for every text is a value or a reported failure.
-/
import CodecCompiler.Proofs.Ensures
import CodecCompiler.Yaml.Value
import Mathlib.Data.List.TakeWhile
import Mathlib.Tactic

namespace CodecCompiler.Yaml

/-- a failure that is reported as an invalid document: the text is not YAML, or a scalar has no value -/
def Failure.IsReported (f : Failure) : Prop := f = .malformed ∨ f = .noValue

theorem Failure.isReported_malformed : Failure.IsReported .malformed := .inl rfl

theorem Failure.isReported_noValue : Failure.IsReported .noValue := .inr rfl

/-! ## Blanks -/

/-- the characters that end a word -/
def blanks : List Char := ['\t', ' ', '\n', '\r', '\x85', '\u2028', '\u2029', '\x00']

theorem isBlankOrEnd_iff {c : Char} : isBlankOrEnd c = true ↔ c ∈ blanks := by
  simp only [isBlankOrEnd, isSpaceOrEnd, isBreakOrEnd, isBreak, Bool.or_eq_true, decide_eq_true_eq]
  simp [endMark, blanks, or_assoc]

/-- no blank, no line break and no end in it -/
def Solid (cs : List Char) : Prop := ∀ c ∈ cs, isBlankOrEnd c = false

instance : DecidablePred Solid := fun cs => List.decidableBAll _ cs

/-- characters of a class that holds no blank -/
theorem Solid.of_forall {p : Char → Bool} {cs : List Char} (h : ∀ c ∈ cs, p c = true)
    (hp : blanks.any p = false) : Solid cs := fun c hc => by
  by_contra hblank
  rw [Bool.not_eq_false, isBlankOrEnd_iff] at hblank
  exact absurd (h c hc) (List.any_eq_false.1 hp c hblank)

theorem Solid.append {cs ds : List Char} (hcs : Solid cs) (hds : Solid ds) : Solid (cs ++ ds) :=
  List.forall_mem_append.2 ⟨hcs, hds⟩

theorem Solid.cons {c : Char} {cs : List Char} (hc : isBlankOrEnd c = false) (hcs : Solid cs) : Solid (c :: cs) :=
  List.forall_mem_cons.2 ⟨hc, hcs⟩

/-- what is spelled as one of some words without blanks -/
theorem Solid.of_mem {cs : List Char} {words : List String} (h : String.ofList cs ∈ words)
    (hwords : ∀ word ∈ words, Solid word.toList) : Solid cs := by
  simpa using hwords _ h

namespace Spelling

open Value

/-! ## Pieces -/

/-- the first piece is either empty, in front of a colon, or begins as the whole does -/
theorem pieces_cons (c : Char) (cs : List Char) :
    pieces (c :: cs) = if c = ':' then [] :: pieces cs else (pieces cs).modifyHead (c :: ·) := by
  unfold pieces
  rw [List.splitOn_cons_eq_if_modifyHead]
  simp only [beq_iff_eq]

theorem exists_pieces (cs : List Char) : ∃ first parts, pieces cs = first :: parts :=
  List.exists_cons_of_ne_nil (List.splitOn_ne_nil ':' cs)

theorem length_pieces (cs : List Char) : (pieces cs).length = cs.count ':' + 1 := by
  induction cs with
  | nil => rfl
  | cons c cs ih =>
    rw [pieces_cons, List.count_cons]
    split <;> simp_all

/-- what holds of a colon and of all characters of the pieces holds of all characters -/
theorem forall_of_pieces {P : Char → Prop} {cs : List Char} (hcolon : P ':')
    (h : ∀ piece ∈ pieces cs, ∀ c ∈ piece, P c) : ∀ c ∈ cs, P c := by
  induction cs with
  | nil => simp
  | cons c cs ih =>
    obtain ⟨first, parts, hparts⟩ := exists_pieces cs
    rw [pieces_cons, hparts] at h
    rw [hparts] at ih
    split at h
    · rename_i hc
      subst hc
      exact List.forall_mem_cons.2 ⟨hcolon, ih fun piece hpiece => h piece (List.mem_cons_of_mem [] hpiece)⟩
    · have hfirst := h (c :: first) List.mem_cons_self
      refine List.forall_mem_cons.2 ⟨hfirst c List.mem_cons_self, ih ?_⟩
      refine List.forall_mem_cons.2 ⟨fun d hd => hfirst d (List.mem_cons_of_mem c hd), fun piece hpiece => ?_⟩
      exact h piece (List.mem_cons_of_mem (c :: first) hpiece)

/-! ## What is spelled like a number -/

theorem unsigned_eq (cs : List Char) : unsigned cs = cs ∨ ∃ s, (s = '+' ∨ s = '-') ∧ cs = s :: unsigned cs := by
  unfold unsigned
  split
  · exact .inr ⟨_, .inl rfl, rfl⟩
  · exact .inr ⟨_, .inr rfl, rfl⟩
  · exact .inl rfl

theorem exists_digit_of_isGrouped {cs : List Char} (h : isGrouped cs = true) :
    ∃ d rest, cs = d :: rest ∧ isDigit d = true := by
  cases cs with
  | nil => exact absurd h (by decide)
  | cons d rest => exact ⟨d, rest, rfl, (Bool.and_eq_true_iff.1 h).1⟩

/-- a number begins with a digit, behind its sign -/
theorem exists_digit_of_isInt {cs : List Char} (h : isInt cs = true) :
    ∃ d rest, unsigned cs = d :: rest ∧ isDigit d = true := by
  have hbegins : ∀ {body first : List Char} {parts : List (List Char)}, pieces body = first :: parts →
      isGrouped first = true → ∃ d rest, body = d :: rest ∧ isDigit d = true := by
    intro body first parts hpieces hfirst
    obtain ⟨d, rest, rfl, hd⟩ := exists_digit_of_isGrouped hfirst
    cases body with
    | nil => exact absurd hpieces (by simp [pieces])
    | cons c cs =>
      obtain ⟨before, behind, hcs⟩ := exists_pieces cs
      rw [pieces_cons, hcs] at hpieces
      split at hpieces
      · exact absurd hpieces (by simp)
      · obtain ⟨hc, -⟩ : c = d ∧ before = rest := by simpa using (List.cons.inj hpieces).1
        exact ⟨c, cs, rfl, hc ▸ hd⟩
  unfold isInt at h
  split at h
  · exact ⟨'0', [], by assumption, rfl⟩
  · exact ⟨'0', _, by assumption, rfl⟩
  · exact ⟨'0', _, by assumption, rfl⟩
  · exact ⟨'0', _, by assumption, rfl⟩
  · split at h
    · exact hbegins (by assumption) h
    · exact hbegins (by assumption) (Bool.and_eq_true_iff.1 h).1
    · exact absurd h (by decide)

/-- a float has a point -/
theorem point_mem_unsigned {cs : List Char} (h : isFloat cs = true) : '.' ∈ unsigned cs := by
  by_contra hpoint
  have hwhole : (unsigned cs).takeWhile (· ≠ '.') = unsigned cs :=
    List.takeWhile_eq_self_iff.2 fun c hc => by simpa using ne_of_mem_of_not_mem hc hpoint
  simp only [isFloat, hwhole, if_true] at h
  exact absurd h (by decide)

theorem point_mem_of_isFloat {cs : List Char} (h : isFloat cs = true) : '.' ∈ cs := by
  have hpoint := point_mem_unsigned h
  rcases unsigned_eq cs with heq | ⟨s, -, heq⟩
  · rwa [heq] at hpoint
  · rw [heq]
    exact List.mem_cons_of_mem s hpoint

/-- a text around a character in it -/
theorem eq_around {c : Char} {cs : List Char} (h : c ∈ cs) :
    cs = cs.takeWhile (· ≠ c) ++ c :: (cs.dropWhile (· ≠ c)).drop 1 := by
  induction cs with
  | nil => exact absurd h List.not_mem_nil
  | cons d cs ih =>
    rcases eq_or_ne d c with rfl | hd
    · simp
    · have hc : c ∈ cs := (List.mem_cons.1 h).resolve_left hd.symm
      simpa [hd] using ih hc

theorem solid_of_isExponent {cs : List Char} (h : isExponent cs = true) : Solid cs := by
  unfold isExponent at h
  split at h
  · exact fun c hc => absurd hc List.not_mem_nil
  · rename_i e sign rest
    simp only [Bool.and_eq_true, Bool.or_eq_true, decide_eq_true_eq, List.all_eq_true] at h
    obtain ⟨⟨⟨he, hsign⟩, -⟩, hrest⟩ := h
    refine .cons ?_ (.cons ?_ (.of_forall hrest (by decide)))
    · rcases he with rfl | rfl <;> decide
    · rcases hsign with rfl | rfl <;> decide
  · exact absurd h (by decide)

theorem solid_of_isFraction {cs : List Char} (h : isFraction cs = true) : Solid cs := by
  rw [← List.takeWhile_append_dropWhile (p := isDigitOr_) (l := cs)]
  exact .append (.of_forall (fun c hc => List.mem_takeWhile_imp hc) (by decide)) (solid_of_isExponent h)

theorem solid_of_isGrouped {cs : List Char} (h : isGrouped cs = true) : Solid cs := by
  obtain ⟨d, rest, rfl, hd⟩ := exists_digit_of_isGrouped h
  have hrest : rest.all isDigitOr_ = true := (Bool.and_eq_true_iff.1 h).2
  refine .of_forall (p := isDigitOr_) (List.forall_mem_cons.2 ⟨?_, List.all_eq_true.1 hrest⟩) (by decide)
  simp [isDigitOr_, hd]

theorem solid_of_isSixtieth {cs : List Char} (h : isSixtieth cs = true) : Solid cs := by
  unfold isSixtieth at h
  refine .of_forall (p := isDigit) ?_ (by decide)
  split at h
  · simpa using h
  · rename_i a b
    simp only [Bool.and_eq_true, decide_eq_true_eq] at h
    have ha : isDigit a = true := by
      simp only [isDigit, Bool.and_eq_true, decide_eq_true_eq]
      exact ⟨h.1.1, Char.le_trans h.1.2 (by decide)⟩
    simpa using ⟨ha, h.2⟩
  · exact absurd h (by decide)

/-- a float has no blank in it -/
theorem solid_of_isFloat {cs : List Char} (h : isFloat cs = true) : Solid cs := by
  have hunsigned : Solid (unsigned cs) → Solid cs := fun hbody => by
    rcases unsigned_eq cs with heq | ⟨s, hs, heq⟩
    · rwa [heq] at hbody
    · rw [heq]
      exact .cons (by rcases hs with rfl | rfl <;> decide) hbody
  have haround := eq_around (point_mem_unsigned h)
  refine hunsigned ?_
  simp only [isFloat] at h
  generalize unsigned cs = body at h haround
  generalize body.takeWhile (· ≠ '.') = whole at h haround
  generalize (body.dropWhile (· ≠ '.')).drop 1 = rest at h haround
  suffices hparts : Solid whole ∧ Solid rest from haround ▸ hparts.1.append (hparts.2.cons (by decide))
  split at h
  · exact absurd h (by decide)
  split at h
  · rename_i hwhole
    refine ⟨by simp_all [Solid], ?_⟩
    simp only [Bool.or_eq_true, Bool.and_eq_true, decide_eq_true_eq] at h
    rcases h with hword | ⟨-, hword | ⟨-, hfraction⟩⟩
    · exact .of_mem hword (by decide)
    · exact .of_mem hword (by decide)
    · exact solid_of_isFraction hfraction
  · split at h
    · rename_i piece hpieces
      rw [Bool.and_eq_true] at h
      refine ⟨forall_of_pieces (by decide) ?_, solid_of_isFraction h.2⟩
      rw [hpieces]
      exact List.forall_mem_singleton.2 (solid_of_isGrouped h.1)
    · rename_i first parts hpieces
      simp only [areSixtieths, Bool.and_eq_true, List.all_eq_true] at h
      refine ⟨forall_of_pieces (by decide) ?_, .of_forall h.2 (by decide)⟩
      rw [hpieces]
      refine List.forall_mem_cons.2 ⟨solid_of_isGrouped h.1.1, fun part hpart => ?_⟩
      exact solid_of_isSixtieth (h.1.2.2 part hpart)
    · exact absurd h (by decide)

end Spelling

/-! ## Readings of numbers -/

namespace Value

open Spelling

theorem digitsOf_ensures (base : Nat) (cs : List Char) :
    FailsWith Failure.IsReported (digitsOf base cs) := by
  simp only [digitsOf]
  split
  · exact .error Failure.isReported_noValue
  split
  · exact .ok trivial
  · exact .error Failure.isReported_noValue

/-- a digit behind the sign stays there when underscores go -/
theorem sign_filter {cs rest : List Char} {d : Char} (h : unsigned cs = d :: rest) (hd : isDigit d = true) :
    (sign (cs.filter (· ≠ '_'))).2 = d :: rest.filter (· ≠ '_') := by
  have hne : ∀ {c : Char}, isDigit c = false → d ≠ c := by rintro c hc rfl; simp [hd] at hc
  have hkept : d ≠ '_' := hne (by decide)
  rcases unsigned_eq cs with heq | ⟨c, hc, heq⟩
  · rw [← heq, h, List.filter_cons_of_pos (by simpa using hkept)]
    unfold sign
    split
    · rename_i hminus
      exact absurd (List.cons.inj hminus).1 (hne (by decide))
    · rename_i hplus
      exact absurd (List.cons.inj hplus).1 (hne (by decide))
    · rfl
  · rw [heq, h]
    rcases hc with rfl | rfl <;> simp [sign, hkept]

/-- what is spelled like an integer has a character to read -/
theorem int?_of_isInt {s : String} (h : isInt s.toList = true) :
    FailsWith Failure.IsReported (int? s) := by
  obtain ⟨d, rest, hunsigned, hd⟩ := exists_digit_of_isInt h
  have hsign := sign_filter hunsigned hd
  simp only [int?]
  split
  · rename_i hempty
    rw [List.isEmpty_iff.1 hempty] at hsign
    exact absurd hsign (by simp [sign])
  · refine FailsWith.map ?_
    rw [hsign]
    split
    · simp_all
    · exact .ok trivial
    · exact digitsOf_ensures _ _
    · exact digitsOf_ensures _ _
    · exact digitsOf_ensures _ _
    · split
      · exact (Ensures.mapM fun piece _ => digitsOf_ensures 10 piece).map fun _ _ => trivial
      · exact digitsOf_ensures _ _

theorem decimal?_ensures (cs : List Char) : FailsWith Failure.IsReported (decimal? cs) := by
  simp only [decimal?]
  split
  · exact .ok trivial
  · exact .ok trivial
  · exact .ok trivial
  · -- with a point and without one
    split
    all_goals
      split
      · exact .error Failure.isReported_noValue
      split
      · exact .ok trivial
      split
      · exact .ok trivial
      · exact .error Failure.isReported_noValue

/-- the weights of the first 174 places in base sixty are finite -/
theorem nearest_sixty_pow : ∀ k < 174, (Binary64.nearest false (60 ^ k) 1).magnitude ≠ .infinite := by
  decide +kernel

theorem toLower_eq_colon (c : Char) : c.toLower = ':' ↔ c = ':' := by
  unfold Char.toLower
  split
  · -- a capital letter stays a letter
    rename_i hcapital
    obtain ⟨hleast, hmost⟩ := hcapital
    simp only [ge_iff_le, UInt32.le_iff_toNat_le] at hleast hmost
    constructor
    · intro heq
      have hval : (c.val + ('a'.val - 'A'.val)).toNat = ':'.val.toNat := congrArg (·.val.toNat) heq
      rw [UInt32.toNat_add, show ('a'.val - 'A'.val).toNat = 32 from rfl, show ':'.val.toNat = 58 from rfl] at hval
      rw [show 'A'.val.toNat = 65 from rfl] at hleast
      rw [show 'Z'.val.toNat = 90 from rfl] at hmost
      omega
    · rintro rfl
      exact absurd hleast (by decide)
  · rfl

theorem count_lower (cs : List Char) : (lower cs).count ':' = cs.count ':' := by
  unfold lower
  induction cs with
  | nil => rfl
  | cons c cs ih => simp [List.count_cons, ih, toLower_eq_colon]

/-- without its sign a float has no more colons than it is spelled with -/
theorem count_floatText (s : String) : (floatText s).2.toList.count ':' ≤ s.toList.count ':' := by
  have hsign : ∀ cs : List Char, (sign cs).2.count ':' ≤ cs.count ':' := fun cs => by
    unfold sign
    split
    · exact List.count_le_count_cons
    · exact List.count_le_count_cons
    · exact le_rfl
  calc (floatText s).2.toList.count ':'
      = (sign (lower (s.toList.filter (· ≠ '_')))).2.count ':' := by simp [floatText]
    _ ≤ (lower (s.toList.filter (· ≠ '_'))).count ':' := hsign _
    _ = s.toList.count ':' := by rw [count_lower, List.count_filter (by decide)]

/-- a sum is too large at most where there are more than 174 places -/
theorem sumOfSixties_ensures (places : List Binary64) :
    FailsWith (fun f => f = .tooLarge ∧ 174 < places.length) (sumOfSixties places 1 0) := by
  have hfrom : ∀ (places : List Binary64) (k : Nat) (sum : Float),
      FailsWith (fun f => f = .tooLarge ∧ 174 < k + places.length) (sumOfSixties places (60 ^ k) sum) := by
    intro places
    induction places with
    | nil => exact fun _ _ => .ok trivial
    | cons place places ih =>
      intro k sum
      simp only [sumOfSixties]
      split
      · rename_i hinfinite
        have hk : ¬ k < 174 := fun hk => nearest_sixty_pow k hk hinfinite
        exact .error ⟨rfl, by rw [List.length_cons]; omega⟩
      · rw [← pow_succ]
        refine (ih (k + 1) _).weaken fun f hf => ⟨hf.1, ?_⟩
        rw [List.length_cons]
        omega
  simpa using hfrom places 0 0

/-- what is spelled like a float is too large at most where it has more than 174 places in base sixty -/
theorem float?_of_isFloat {s : String} (h : isFloat s.toList = true) :
    FailsWith (fun f => f.IsReported ∨ f = .tooLarge ∧ 174 ≤ s.toList.count ':') (float? s) := by
  have hpoint : ¬ s.toList.all (· = '_') = true := fun hall => by
    have := List.all_eq_true.1 hall '.' (point_mem_of_isFloat h)
    simp at this
  simp only [float?]
  rw [if_neg hpoint]
  refine FailsWith.map ?_
  split
  · exact .ok trivial
  split
  · exact .ok trivial
  split
  · have hplaces := Ensures.mapM fun piece (_ : piece ∈ pieces (floatText s).2.toList) => decimal?_ensures piece
    refine (hplaces.weaken (fun _ => .inl)).bind fun places ⟨hlength, _⟩ => ?_
    refine (sumOfSixties_ensures places.reverse).weaken fun f ⟨hf, hmany⟩ => .inr ⟨hf, ?_⟩
    have hcount := count_floatText s
    rw [List.length_reverse, hlength, length_pieces] at hmany
    omega
  · exact (decimal?_ensures _).weaken fun _ => .inl

theorem truth?_of_mem {s : String} (h : s ∈ truthWords) : FailsWith Failure.IsReported (truth? s) := by
  have hall : ∀ word ∈ truthWords, (truth? word).isOk = true := by decide +kernel
  cases hread : truth? s with
  | error f => exact absurd (hall s h) (by simp [hread, Except.isOk, Except.toBool])
  | ok b => exact .ok trivial

end Value

/-! ## Readings of scalars -/

open Spelling Value

theorem withoutLastBreak_eq_self {cs : List Char} (h : cs.getLast? ≠ some '\n') : withoutLastBreak cs = cs := by
  unfold withoutLastBreak
  split
  · contradiction
  · rfl

theorem moment?_of_isTimestamp {s : String} (h : isTimestamp (withoutLastBreak s.toList) = true) :
    FailsWith Failure.IsReported (moment? s) := by
  have hdate : ∀ d, FailsWith Failure.IsReported (validDate? d) := fun d => by
    unfold validDate?
    split
    · exact .ok trivial
    · exact .error Failure.isReported_noValue
  have hoffset : ∀ zone, FailsWith Failure.IsReported (offset? zone) := fun zone => by
    unfold offset?
    split
    · exact .ok trivial
    · simp only []
      split
      · exact .ok trivial
      · exact .error Failure.isReported_noValue
  unfold isTimestamp at h
  unfold moment?
  split
  · rename_i hnone
    simp [hnone] at h
  · exact (hdate _).map
  · refine (hoffset _).bind fun _ _ => (hdate _).bind fun _ _ => ?_
    split
    · exact .ok trivial
    · exact .error Failure.isReported_noValue

/-- a float in base sixty of more than 174 places -/
def Spelling.IsTooLong (cs : List Char) : Prop := isFloat cs = true ∧ 174 ≤ cs.count ':'

/-- **A scalar of the type of its spelling is read, or fails in a way that is reported, or is a float of too many
places.** -/
theorem scalarValue_ofString {s : String} (h : s.toList.getLast? ≠ some '\n') :
    FailsWith (fun f => f.IsReported ∨ f = .tooLarge ∧ IsTooLong s.toList)
      (scalarValue (.ofString s) (.ofString s)) := by
  have hreported : ∀ {x : Except Failure Datum}, FailsWith Failure.IsReported x →
      FailsWith (fun f => f.IsReported ∨ f = .tooLarge ∧ IsTooLong s.toList) x :=
    fun hx => hx.weaken (fun _ => .inl)
  simp only [NodeType.ofString, withoutLastBreak_eq_self h, String.ofList_toList]
  split
  · rename_i hword
    rw [scalarValue, Text.lossy_ofString]
    exact hreported (truth?_of_mem hword).map
  split
  · rename_i hfloat
    rw [scalarValue, Text.lossy_ofString]
    refine FailsWith.map ((float?_of_isFloat hfloat).weaken fun f hf => hf.imp_right ?_)
    exact fun ⟨hf, hcount⟩ => ⟨hf, hfloat, hcount⟩
  split
  · rename_i hint
    rw [scalarValue, Text.lossy_ofString]
    exact hreported (int?_of_isInt hint).map
  split
  · exact hreported (.error Failure.isReported_malformed)
  split
  · exact .ok trivial
  split
  · rename_i hdate
    rw [scalarValue, Text.lossy_ofString]
    refine hreported (moment?_of_isTimestamp ?_)
    rwa [withoutLastBreak_eq_self h]
  split
  · exact hreported (.error Failure.isReported_malformed)
  split
  · exact hreported (.error Failure.isReported_malformed)
  · exact .ok trivial

/-- does the reading of a type rely on the spelling of its scalars -/
def NodeType.reliesOnSpelling (type : NodeType) : Bool := type ∈ [bool, int, float, timestamp]

/-- a type that does not rely on it reads any text, or fails in a way that is reported -/
theorem scalarValue_of_not_reliesOnSpelling {type : NodeType} (h : type.reliesOnSpelling = false) (t : Text) :
    FailsWith Failure.IsReported (scalarValue type t) := by
  cases type with
  | bool | int | float | timestamp => exact absurd h (by decide)
  | null | str => exact .ok trivial
  | binary =>
    rw [scalarValue]
    refine FailsWith.map ?_
    simp only [octets?]
    split
    · split
      · exact .ok trivial
      · exact .error Failure.isReported_malformed
    · exact .error Failure.isReported_malformed
  | seq | map | set | omap | pairs | merge | value | unknown => exact .error Failure.isReported_malformed

end CodecCompiler.Yaml
