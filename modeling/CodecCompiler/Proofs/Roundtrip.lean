/-
The round trip of JSON values: a value that is written is read back from its text, in either form.

- `Json.Lossless`: the values that a text can hold, less floats: integers of not too many digits, texts that are unsplit,
  and objects with distinct names.
- `Json.Reading.value_chars`: the characters of such a value are read as the value, whatever follows that does not belong
  to a number.
- `Json.printed_chars`: they are printable ASCII, and line breaks.
- `Json.read_text`: hence the text of a value is read back.
-/
import CodecCompiler.Proofs.Tokens
import CodecCompiler.Proofs.Tree

namespace CodecCompiler

open Entries (names)

namespace Json

/-- a value without floats that a text can hold -/
inductive Lossless : Json → Prop
  | null : Lossless .null
  | bool (b : Bool) : Lossless (.bool b)
  | int {n : Int} : isLong n = false → Lossless (.int n)
  | str {s : Text} : s.Unsplit → Lossless (.str s)
  | arr {items : List Json} : (∀ v ∈ items, Lossless v) → Lossless (.arr items)
  | obj {fields : Fields} : Entries.Distinct fields → (∀ e ∈ fields, e.1.Unsplit) → (∀ e ∈ fields, Lossless e.2) →
      Lossless (.obj fields)

namespace Reading

/-! ## Blanks -/

theorem skipBlanks_cons {c : Char} (h : isBlank c = false) (cs : List Char) : skipBlanks (c :: cs) = c :: cs := by
  simp [skipBlanks, h]

theorem skipBlanks_lineBreak (pretty : Bool) (level : Nat) (cs : List Char) :
    skipBlanks (lineBreak pretty level ++ cs) = skipBlanks cs := by
  have hblank : ∀ c ∈ lineBreak pretty level, isBlank c = true := by
    intro c hc
    cases pretty with
    | false => cases hc
    | true =>
      rcases List.mem_cons.1 hc with rfl | hc
      · rfl
      · rw [List.eq_of_mem_replicate hc]
        rfl
  exact List.dropWhile_append_of_pos hblank

theorem value_congr {fuel : Nat} {cs ds : List Char} (h : skipBlanks cs = skipBlanks ds) :
    value fuel cs = value fuel ds := by
  cases fuel with
  | zero => rfl
  | succ fuel => rw [value, value, h]

theorem items_congr {fuel : Nat} {cs ds : List Char} (h : skipBlanks cs = skipBlanks ds) :
    items fuel cs = items fuel ds := by
  cases fuel with
  | zero => rfl
  | succ fuel => rw [items, items, value_congr h]

theorem fields_congr {fuel : Nat} {seen : Fields} {cs ds : List Char} (h : skipBlanks cs = skipBlanks ds) :
    fields fuel seen cs = fields fuel seen ds := by
  cases fuel with
  | zero => rfl
  | succ fuel => rw [fields, fields, h]

theorem stops_cons {c : Char} (h : isDigit c = false ∧ c ≠ '.' ∧ c ≠ 'e' ∧ c ≠ 'E') (cs : List Char) :
    Stops (c :: cs) := by
  intro d hd
  cases hd
  exact h

theorem stops_lineBreak {c : Char} (h : isDigit c = false ∧ c ≠ '.' ∧ c ≠ 'e' ∧ c ≠ 'E') (pretty : Bool) (level : Nat)
    (cs : List Char) : Stops (lineBreak pretty level ++ c :: cs) := by
  cases pretty with
  | false => exact stops_cons h cs
  | true => exact stops_cons (by decide) _

/-! ## Values -/

/-- the characters of a value are read as the value, if the fuel covers them -/
def Reads (v : Json) : Prop :=
  ∀ (pretty : Bool) (level fuel : Nat) (rest : List Char), Stops rest → (chars pretty level v).length ≤ fuel →
    value fuel (chars pretty level v ++ rest) = .ok (v, rest)

theorem items_chars {v : Json} {vs : List Json} (hv : Reads v) (hvs : ∀ w ∈ vs, Reads w) (pretty : Bool)
    (level outer : Nat) (rest : List Char) (fuel : Nat)
    (hfuel : (chars pretty level v).length + (charsItems pretty level vs).length < fuel) :
    items fuel (chars pretty level v ++ (charsItems pretty level vs ++ (lineBreak pretty outer ++ ']' :: rest))) =
      .ok (v :: vs, rest) := by
  induction vs generalizing v fuel with
  | nil =>
    cases fuel with
    | zero => omega
    | succ fuel =>
      have hstops : Stops (lineBreak pretty outer ++ ']' :: rest) := stops_lineBreak (by decide) pretty outer rest
      have hfirst := hv pretty level fuel _ hstops (by omega)
      have hclose : skipBlanks (lineBreak pretty outer ++ ']' :: rest) = ']' :: rest := by
        rw [skipBlanks_lineBreak, skipBlanks_cons (by decide)]
      rw [charsItems, List.nil_append, items, hfirst]
      simp only [bind, Except.bind, hclose]
      rfl
  | cons w ws ih =>
    cases fuel with
    | zero => omega
    | succ fuel =>
      rw [charsItems] at hfuel ⊢
      simp only [List.length_cons, List.length_append] at hfuel
      simp only [List.cons_append, List.append_assoc]
      have hfirst := hv pretty level fuel (',' :: (lineBreak pretty level ++ (chars pretty level w ++
        (charsItems pretty level ws ++ (lineBreak pretty outer ++ ']' :: rest))))) (stops_cons (by decide) _) (by omega)
      have hrest := ih (hvs w List.mem_cons_self) (fun u hu => hvs u (List.mem_cons_of_mem w hu)) fuel
        (by omega)
      rw [items, hfirst]
      simp only [bind, Except.bind, skipBlanks_cons (show isBlank ',' = false by decide)]
      rw [items_congr (skipBlanks_lineBreak pretty level _), hrest]
      rfl

/-- a field is read as such; a brace behind it ends the object, a comma leads to the next field -/
theorem fields_first {pretty : Bool} {level : Nat} {name : Text} {v : Json} {seen : Fields} (hname : name.Unsplit)
    (hv : Reads v) (hnew : name ∉ names seen) {rest tail : List Char} (hrest : Stops rest) (fuel : Nat)
    (hfuel : (chars pretty level v).length ≤ fuel) :
    (skipBlanks rest = '\x7d' :: tail →
      fields (fuel + 1) seen (quoted name ++ (colon pretty ++ (chars pretty level v ++ rest))) =
        .ok (seen ++ [(name, v)], tail)) ∧
    (skipBlanks rest = ',' :: tail →
      fields (fuel + 1) seen (quoted name ++ (colon pretty ++ (chars pretty level v ++ rest))) =
        fields fuel (seen ++ [(name, v)]) tail) := by
  have hquote : skipBlanks (quoted name ++ (colon pretty ++ (chars pretty level v ++ rest))) =
      '"' :: (name.points.flatMap Escape.escape ++ '"' :: (colon pretty ++ (chars pretty level v ++ rest))) := by
    rw [quoted, List.cons_append, List.append_assoc, skipBlanks_cons (by decide)]
    rfl
  have hcolon : ∃ blank, skipBlanks (colon pretty ++ (chars pretty level v ++ rest)) =
      ':' :: (blank ++ (chars pretty level v ++ rest)) ∧
      skipBlanks (blank ++ (chars pretty level v ++ rest)) = skipBlanks (chars pretty level v ++ rest) := by
    cases pretty with
    | false => exact ⟨[], skipBlanks_cons (by decide) _, rfl⟩
    | true => exact ⟨[' '], skipBlanks_cons (by decide) _, rfl⟩
  obtain ⟨blank, hcolon, hblank⟩ := hcolon
  have hvalue : value fuel (blank ++ (chars pretty level v ++ rest)) = .ok (v, rest) := by
    rw [value_congr hblank]
    exact hv pretty level fuel rest hrest hfuel
  have hset : Entries.set seen name v = seen ++ [(name, v)] := Entries.names_set_of_not_mem hnew v
  constructor
  · intro hclose
    rw [fields, hquote]
    simp only [string_quoted hname, bind, Except.bind, hcolon, hvalue, hset, hclose]
    rfl
  · intro hcomma
    rw [fields, hquote]
    simp only [string_quoted hname, bind, Except.bind, hcolon, hvalue, hset, hcomma]

theorem fields_chars {es seen : Fields} {name : Text} {v : Json} (hname : name.Unsplit) (hv : Reads v)
    (hnames : ∀ e ∈ es, e.1.Unsplit) (hes : ∀ e ∈ es, Reads e.2)
    (hdistinct : Entries.Distinct (seen ++ (name, v) :: es)) (pretty : Bool) (level outer : Nat) (rest : List Char)
    (fuel : Nat) (hfuel : (chars pretty level v).length + (charsFields pretty level es).length < fuel) :
    fields fuel seen (quoted name ++ (colon pretty ++ (chars pretty level v ++ (charsFields pretty level es ++
      (lineBreak pretty outer ++ '\x7d' :: rest))))) = .ok (seen ++ (name, v) :: es, rest) := by
  induction es generalizing name v seen fuel with
  | nil =>
    cases fuel with
    | zero => omega
    | succ fuel =>
      have hnew : name ∉ names seen := Entries.not_mem_names_of_distinct hdistinct
      have hstops : Stops (lineBreak pretty outer ++ '\x7d' :: rest) := stops_lineBreak (by decide) pretty outer rest
      have hclose : skipBlanks (lineBreak pretty outer ++ '\x7d' :: rest) = '\x7d' :: rest := by
        rw [skipBlanks_lineBreak, skipBlanks_cons (by decide)]
      rw [charsFields, List.nil_append]
      exact (fields_first hname hv hnew hstops fuel (by omega)).1 hclose
  | cons e es ih =>
    obtain ⟨other, w⟩ := e
    cases fuel with
    | zero => omega
    | succ fuel =>
      have hnew : name ∉ names seen := Entries.not_mem_names_of_distinct hdistinct
      have hdistinct' : Entries.Distinct ((seen ++ [(name, v)]) ++ (other, w) :: es) := by
        rwa [List.append_assoc, List.singleton_append]
      rw [charsFields] at hfuel ⊢
      simp only [List.length_cons, List.length_append] at hfuel
      simp only [List.cons_append, List.append_assoc]
      have hcover : (chars pretty level v).length ≤ fuel := by omega
      have hcover' : (chars pretty level w).length + (charsFields pretty level es).length < fuel := by omega
      have hfirst := (fields_first hname hv hnew (stops_cons (by decide) _) fuel hcover).2
        (skipBlanks_cons (show isBlank ',' = false by decide) (lineBreak pretty level ++ (quoted other ++ (colon pretty ++
          (chars pretty level w ++ (charsFields pretty level es ++ (lineBreak pretty outer ++ '\x7d' :: rest)))))))
      have hrest := ih (hnames _ List.mem_cons_self) (hes _ List.mem_cons_self)
        (fun e he => hnames e (List.mem_cons_of_mem _ he)) (fun e he => hes e (List.mem_cons_of_mem _ he)) hdistinct' fuel
        hcover'
      rw [hfirst, fields_congr (skipBlanks_lineBreak pretty level _), hrest, List.append_assoc, List.singleton_append]

/-- the text of a value begins with what is neither blank nor the end of an array -/
theorem chars_begin {v : Json} (h : Lossless v) (pretty : Bool) (level : Nat) :
    ∃ c cs, chars pretty level v = c :: cs ∧ isBlank c = false ∧ c ≠ ']' := by
  cases h with
  | null => exact ⟨_, _, rfl, by decide, by decide⟩
  | bool b => cases b <;> exact ⟨_, _, rfl, by decide, by decide⟩
  | @int n hn =>
    obtain ⟨c, cs, hcs, hc⟩ := intDigits_begin n
    have hplain : ∀ d ∈ ['-', '0', '1', '2', '3', '4', '5', '6', '7', '8', '9'], isBlank d = false ∧ d ≠ ']' := by
      simp [isBlank]
    obtain ⟨hblank, hclose⟩ := hplain c (List.mem_cons.2 (hc.imp_right mem_of_isDigit))
    exact ⟨c, cs, hcs, hblank, hclose⟩
  | str hs => exact ⟨_, _, rfl, by decide, by decide⟩
  | @arr items _ => cases items <;> exact ⟨_, _, rfl, by decide, by decide⟩
  | @obj fields _ _ _ =>
    cases fields with
    | nil => exact ⟨_, _, rfl, by decide, by decide⟩
    | cons e fields => exact ⟨_, _, rfl, by decide, by decide⟩

theorem value_number {c : Char} (hc : c = '-' ∨ isDigit c = true) (fuel : Nat) (cs : List Char) :
    value (fuel + 1) (c :: cs) = number (c :: cs) := by
  have hmem := hc.imp_right mem_of_isDigit
  simp only [List.mem_cons, List.not_mem_nil, or_false] at hmem
  rcases hmem with rfl | rfl | rfl | rfl | rfl | rfl | rfl | rfl | rfl | rfl | rfl <;> rfl

theorem value_bracket {cs ds : List Char} {c : Char} (h : skipBlanks cs = c :: ds) (hc : c ≠ ']') (fuel : Nat) :
    value (fuel + 1) ('[' :: cs) = (items fuel (c :: ds)).map fun r => (.arr r.1, r.2) := by
  rw [value, skipBlanks_cons (by decide)]
  simp only [h]
  split
  · rename_i heq
    exact absurd (List.cons.inj heq).1 hc
  · rfl

theorem value_brace {cs ds : List Char} {c : Char} (h : skipBlanks cs = c :: ds) (hc : c ≠ '\x7d') (fuel : Nat) :
    value (fuel + 1) ('\x7b' :: cs) = (fields fuel [] (c :: ds)).map fun r => (.obj r.1, r.2) := by
  rw [value, skipBlanks_cons (by decide)]
  simp only [h]
  split
  · rename_i heq
    exact absurd (List.cons.inj heq).1 hc
  · rfl

/-- **The characters of a value are read as the value**, whatever follows that does not belong to a number. -/
theorem value_chars {v : Json} (h : Lossless v) : Reads v := by
  induction h with
  | null =>
    intro pretty level fuel rest hrest hfuel
    cases fuel with
    | zero => cases hfuel
    | succ fuel => rfl
  | bool b =>
    intro pretty level fuel rest hrest hfuel
    cases fuel with
    | zero => cases b <;> cases hfuel
    | succ fuel => cases b <;> rfl
  | @int n hn =>
    intro pretty level fuel rest hrest hfuel
    obtain ⟨c, cs, hcs, hc⟩ := intDigits_begin n
    have hnumber := number_intDigits hn hrest
    rw [chars, hcs] at hfuel ⊢
    rw [hcs] at hnumber
    cases fuel with
    | zero => cases hfuel
    | succ fuel => exact (value_number hc fuel _).trans hnumber
  | @str s hs =>
    intro pretty level fuel rest hrest hfuel
    cases fuel with
    | zero => cases hfuel
    | succ fuel =>
      have hstring : string (s.points.flatMap Escape.escape ++ ['"'] ++ rest) = .ok (s, rest) := by
        rw [List.append_assoc]
        exact string_quoted hs
      rw [chars, quoted, List.cons_append, value, skipBlanks_cons (by decide)]
      simp only [hstring]
      rfl
  | @arr items hitems ih =>
    intro pretty level fuel rest hrest hfuel
    cases fuel with
    | zero => cases items <;> cases hfuel
    | succ fuel =>
      cases items with
      | nil => rfl
      | cons v vs =>
        obtain ⟨c, cs, hcs, hblank, hclose⟩ := chars_begin (hitems v List.mem_cons_self) pretty (level + 1)
        rw [chars] at hfuel ⊢
        simp only [List.length_cons, List.length_append] at hfuel
        simp only [List.cons_append, List.append_assoc, List.nil_append]
        have hread := items_chars (ih v List.mem_cons_self) (fun w hw => ih w (List.mem_cons_of_mem v hw)) pretty
          (level + 1) level rest fuel (by omega)
        rw [hcs, List.cons_append] at hread ⊢
        have hfirst := (skipBlanks_lineBreak pretty (level + 1) _).trans (skipBlanks_cons hblank (cs ++
          (charsItems pretty (level + 1) vs ++ (lineBreak pretty level ++ ']' :: rest))))
        rw [value_bracket hfirst hclose, hread]
        rfl
  | @obj es hdistinct hnames _ ih =>
    intro pretty level fuel rest hrest hfuel
    cases fuel with
    | zero => cases es <;> cases hfuel
    | succ fuel =>
      cases es with
      | nil => rfl
      | cons e es =>
        obtain ⟨name, v⟩ := e
        rw [chars] at hfuel ⊢
        simp only [List.length_cons, List.length_append] at hfuel
        simp only [List.cons_append, List.append_assoc, List.nil_append]
        have hname : name.Unsplit := hnames (name, v) List.mem_cons_self
        have hv : Reads v := ih (name, v) List.mem_cons_self
        have hdistinct' : Entries.Distinct ([] ++ (name, v) :: es) := hdistinct
        have hread := fields_chars hname hv (fun e he => hnames e (List.mem_cons_of_mem _ he))
          (fun e he => ih e (List.mem_cons_of_mem _ he)) hdistinct' pretty (level + 1) level rest fuel (by omega)
        rw [quoted, List.cons_append] at hread ⊢
        have hfirst := (skipBlanks_lineBreak pretty (level + 1) _).trans (skipBlanks_cons (show isBlank '"' = false by decide)
          (name.points.flatMap Escape.escape ++ ['"'] ++ (colon pretty ++ (chars pretty (level + 1) v ++
            (charsFields pretty (level + 1) es ++ (lineBreak pretty level ++ '\x7d' :: rest))))))
        rw [value_brace hfirst (by decide), hread]
        rfl

end Reading

/-! ## Texts -/

/-- a line break, or printable ASCII -/
def Printed (c : Char) : Prop := c = '\n' ∨ 0x20 ≤ c.toNat ∧ c.toNat < 0x80

theorem printed_unit (n : Nat) : ∀ c ∈ Escape.unit n, Printed c := by
  have hdigits : ∀ m < 16, 0x20 ≤ (Escape.hexDigit m).toNat ∧ (Escape.hexDigit m).toNat < 0x80 := by decide
  have hdigit : ∀ m, Printed (Escape.hexDigit (m % 16)) := fun m => .inr (hdigits _ (Nat.mod_lt m (by decide)))
  intro c hc
  simp only [Escape.unit, Escape.hexDigits, List.mem_cons, List.not_mem_nil, or_false] at hc
  rcases hc with rfl | rfl | rfl | rfl | rfl | rfl
  · exact .inr (by decide)
  · exact .inr (by decide)
  · exact hdigit _
  · exact hdigit _
  · exact hdigit _
  · exact hdigit _

theorem printed_escape (p : CodePoint) : ∀ c ∈ Escape.escape p, Printed c := by
  have hnamed : ∀ d, Printed d → ∀ c ∈ ['\\', d], Printed c := by
    intro d hd c hc
    rcases List.mem_cons.1 hc with rfl | hc
    · exact .inr (by decide)
    · rwa [List.mem_singleton.1 hc]
  cases p with
  | half n => exact printed_unit _
  | char c =>
    change ∀ d ∈ Escape.escapeChar c, Printed d
    unfold Escape.escapeChar
    split_ifs with hquote hbackslash hb hf hn hr ht hplain hunit
    · exact hnamed '"' (.inr (by decide))
    · exact hnamed '\\' (.inr (by decide))
    · exact hnamed 'b' (.inr (by decide))
    · exact hnamed 'f' (.inr (by decide))
    · exact hnamed 'n' (.inr (by decide))
    · exact hnamed 'r' (.inr (by decide))
    · exact hnamed 't' (.inr (by decide))
    · exact List.forall_mem_singleton.2 (.inr hplain)
    · exact printed_unit _
    · exact List.forall_mem_append.2 ⟨printed_unit _, printed_unit _⟩

theorem printed_quoted (s : Text) : ∀ c ∈ quoted s, Printed c := by
  have hquote : Printed '"' := .inr (by decide)
  intro c hc
  rcases List.mem_cons.1 hc with rfl | hc
  · exact hquote
  rcases List.mem_append.1 hc with hc | hc
  · obtain ⟨p, -, hc⟩ := List.mem_flatMap.1 hc
    exact printed_escape p c hc
  · rwa [List.mem_singleton.1 hc]

theorem printed_intDigits (n : Int) : ∀ c ∈ intDigits n, Printed c := by
  have hdigits : ∀ d ∈ ['0', '1', '2', '3', '4', '5', '6', '7', '8', '9'], 0x20 ≤ d.toNat ∧ d.toNat < 0x80 := by simp
  have hall : ∀ m, ∀ c ∈ Nat.toDigits 10 m, Printed c := by
    intro m c hc
    exact .inr (hdigits c (Reading.mem_of_isDigit (Reading.isDigit_of_mem_toDigits hc)))
  cases n with
  | ofNat m => exact hall m
  | negSucc m => exact List.forall_mem_cons.2 ⟨.inr (by decide), hall (m + 1)⟩

theorem printed_lineBreak (pretty : Bool) (level : Nat) : ∀ c ∈ lineBreak pretty level, Printed c := by
  cases pretty with
  | false => exact fun c hc => absurd hc List.not_mem_nil
  | true =>
    refine List.forall_mem_cons.2 ⟨.inl rfl, fun c hc => ?_⟩
    rw [List.eq_of_mem_replicate hc]
    exact .inr (by decide)

theorem printed_colon (pretty : Bool) : ∀ c ∈ colon pretty, Printed c := by
  have hall : ∀ c ∈ [':', ' '], 0x20 ≤ c.toNat ∧ c.toNat < 0x80 := by simp
  intro c hc
  cases pretty with
  | false => exact .inr (hall c (List.mem_cons.2 (.inl (List.mem_singleton.1 hc))))
  | true => exact .inr (hall c hc)

theorem printed_charsItems {vs : List Json} {pretty : Bool} {level : Nat}
    (h : ∀ v ∈ vs, ∀ c ∈ chars pretty level v, Printed c) : ∀ c ∈ charsItems pretty level vs, Printed c := by
  induction vs with
  | nil => exact fun c hc => absurd hc List.not_mem_nil
  | cons v vs ih =>
    have hrest := ih fun w hw => h w (List.mem_cons_of_mem v hw)
    have hfirst := List.forall_mem_append.2 ⟨printed_lineBreak pretty level, h v List.mem_cons_self⟩
    exact List.forall_mem_cons.2 ⟨.inr (by decide), List.forall_mem_append.2 ⟨hfirst, hrest⟩⟩

theorem printed_charsFields {es : Fields} {pretty : Bool} {level : Nat}
    (h : ∀ e ∈ es, ∀ c ∈ chars pretty level e.2, Printed c) : ∀ c ∈ charsFields pretty level es, Printed c := by
  induction es with
  | nil => exact fun c hc => absurd hc List.not_mem_nil
  | cons e es ih =>
    have hrest := ih fun f hf => h f (List.mem_cons_of_mem e hf)
    have hname := List.forall_mem_append.2 ⟨printed_lineBreak pretty level, printed_quoted e.1⟩
    have hcolon := List.forall_mem_append.2 ⟨hname, printed_colon pretty⟩
    have hfirst := List.forall_mem_append.2 ⟨hcolon, h e List.mem_cons_self⟩
    exact List.forall_mem_cons.2 ⟨.inr (by decide), List.forall_mem_append.2 ⟨hfirst, hrest⟩⟩

/-- **A written value is printable ASCII**, apart from line breaks. -/
theorem printed_chars {v : Json} (h : Lossless v) (pretty : Bool) (level : Nat) :
    ∀ c ∈ chars pretty level v, Printed c := by
  have hall : ∀ cs ∈ ["null".toList, "true".toList, "false".toList, ['[', ']'], ['\x7b', '\x7d']],
      ∀ c ∈ cs, 0x20 ≤ c.toNat ∧ c.toNat < 0x80 := by simp
  have hword : ∀ cs ∈ ["null".toList, "true".toList, "false".toList, ['[', ']'], ['\x7b', '\x7d']],
      ∀ c ∈ cs, Printed c := fun cs hcs c hc => .inr (hall cs hcs c hc)
  induction h generalizing level with
  | null => exact hword "null".toList (by decide)
  | bool b =>
    cases b with
    | true => exact hword "true".toList (by decide)
    | false => exact hword "false".toList (by decide)
  | @int n _ => exact printed_intDigits n
  | @str s _ => exact printed_quoted s
  | @arr items _ ih =>
    cases items with
    | nil => exact hword ['[', ']'] (by decide)
    | cons v vs =>
      have hfirst := List.forall_mem_append.2 ⟨printed_lineBreak pretty (level + 1), ih v List.mem_cons_self (level + 1)⟩
      have hrest := printed_charsItems fun w hw => ih w (List.mem_cons_of_mem v hw) (level + 1)
      have hitems := List.forall_mem_append.2 ⟨hfirst, hrest⟩
      have hbreak := List.forall_mem_append.2 ⟨hitems, printed_lineBreak pretty level⟩
      have hclose : ∀ c ∈ [']'], Printed c := List.forall_mem_singleton.2 (.inr (by decide))
      exact List.forall_mem_cons.2 ⟨.inr (by decide), List.forall_mem_append.2 ⟨hbreak, hclose⟩⟩
  | @obj fields _ _ _ ih =>
    cases fields with
    | nil => exact hword ['\x7b', '\x7d'] (by decide)
    | cons e es =>
      have hname := List.forall_mem_append.2 ⟨printed_lineBreak pretty (level + 1), printed_quoted e.1⟩
      have hcolon := List.forall_mem_append.2 ⟨hname, printed_colon pretty⟩
      have hfirst := List.forall_mem_append.2 ⟨hcolon, ih e List.mem_cons_self (level + 1)⟩
      have hrest := printed_charsFields fun f hf => ih f (List.mem_cons_of_mem e hf) (level + 1)
      have hfields := List.forall_mem_append.2 ⟨hfirst, hrest⟩
      have hbreak := List.forall_mem_append.2 ⟨hfields, printed_lineBreak pretty level⟩
      have hclose : ∀ c ∈ ['\x7d'], Printed c := List.forall_mem_singleton.2 (.inr (by decide))
      exact List.forall_mem_cons.2 ⟨.inr (by decide), List.forall_mem_append.2 ⟨hbreak, hclose⟩⟩

theorem areWritable_iff {items : List Json} : areWritable items = true ↔ ∀ v ∈ items, v.isWritable = true := by
  induction items with
  | nil => simp [areWritable]
  | cons v items ih => simp [areWritable, ih]

theorem areWritableFields_iff {fields : Fields} :
    areWritableFields fields = true ↔ ∀ e ∈ fields, e.2.isWritable = true := by
  induction fields with
  | nil => simp [areWritableFields]
  | cons e fields ih =>
    rw [areWritableFields, Bool.and_eq_true, ih, List.forall_mem_cons]

theorem isWritable_of_lossless {v : Json} (h : Lossless v) : v.isWritable = true := by
  induction h with
  | null | bool | str => rfl
  | int hn =>
    rw [isWritable, hn]
    rfl
  | arr _ ih => exact areWritable_iff.2 ih
  | obj _ _ _ ih => exact areWritableFields_iff.2 ih

/-- **What is written is read back.** A value without floats has a text in either form, if no integer in it has too many
digits; the text is ASCII without carriage returns, and it reads as the value. -/
theorem read_text {v : Json} (h : Lossless v) (pretty : Bool) :
    ∃ text, v.text? pretty = some text ∧ (∀ c ∈ text.toList, Printed c) ∧ read text = .ok v := by
  have hwritable := isWritable_of_lossless h
  have htext : v.text? pretty = some (v.text pretty) := by
    rw [text?, if_pos hwritable]
  have hchars : (v.text pretty).toList = chars pretty 0 v := by
    rw [text, String.toList_ofList]
  refine ⟨v.text pretty, htext, ?_, ?_⟩
  · rw [hchars]
    exact printed_chars h pretty 0
  · have hvalue := Reading.value_chars h pretty 0 ((chars pretty 0 v).length + 1) [] (fun c hc => by cases hc) (by omega)
    rw [List.append_nil] at hvalue
    unfold read
    rw [hchars]
    simp only [hvalue, bind, Except.bind]
    rfl

end Json

end CodecCompiler
