/-
Styled texts: texts with the places where styles stand that cannot be read. Where a text is broken into lines, its
places go with their characters: a line has those that it has characters of. A place without characters is lost where
the text is divided, and every place is lost that stands behind what is left of a line.

- `Styled.lines` are the lines of a text, `Styled.broken` the parts that they are broken into.
- `Styled.linesIn` makes them fit, `Styled.centred` puts one into the middle.
- `linesIn_of_fits`: a text that fits takes one line, itself.
-/
import CodecCompiler.Text.Wrap

namespace CodecCompiler

structure Styled where
  text : List Char
  /-- from which character on, and before which one, a style stands that cannot be read -/
  faults : List (Nat × Nat) := []
  deriving DecidableEq, Repr

namespace Styled

open Text

/-- there is no place in it -/
def isSound (t : Styled) : Bool := t.faults.isEmpty

/-! ## Dividing -/

/-- the places of a part, from a character on and before another one -/
def between (start stop : Nat) (faults : List (Nat × Nat)) : List (Nat × Nat) :=
  (faults.map fun f => (max f.1 start - start, min f.2 stop - start)).filter fun f => f.1 < f.2

/-- parts of a text with their places; each begins so many characters behind the one before -/
def partsFrom (gap : Nat) (faults : List (Nat × Nat)) (start : Nat) : List (List Char) → List Styled
  | [] => []
  | part :: parts =>
    let stop := start + part.length
    ⟨part, between start stop faults⟩ :: partsFrom gap faults (stop + gap) parts

/-- a text divided into parts; one that is its only part keeps all places -/
def divide (gap : Nat) (t : Styled) : List (List Char) → List Styled
  | [part] => [⟨part, t.faults⟩]
  | parts => partsFrom gap t.faults 0 parts

/-- another text in place of one; if it is shorter, the places behind its end are lost -/
def become (t : Styled) (text : List Char) : Styled :=
  if text.length < t.text.length then
    ⟨text, (t.faults.filter fun f => f.1 < text.length).map fun f => (f.1, min f.2 text.length)⟩
  else ⟨text, t.faults⟩

/-! ## Lines -/

/-- the lines of a text -/
def lines (t : Styled) : List Styled := t.divide 1 (t.text.splitOn '\n')

/-- a line with blanks for its tabs, which divide it -/
def expanded (t : Styled) : Styled :=
  if '\t' ∈ t.text then
    let place (n : Nat) := (expandTabs (t.text.take n)).length
    ⟨expandTabs t.text, (t.faults.filter fun f => f.1 < f.2).map fun f => (place f.1, place f.2)⟩
  else t

/-- the parts that a line is broken into -/
def parts (overflow : Overflow) (limit : Nat) (line : Styled) : List Styled :=
  (line.divide 0 (Text.broken overflow limit line.text)).map fun part => part.become (dropExcess limit part.text)

/-- the parts that the lines of a text are broken into -/
def broken (overflow : Overflow) (limit : Nat) (t : Styled) : List Styled :=
  t.lines.flatMap fun line => line.expanded.parts overflow limit

/-- a line shortened to the limit if need be -/
def shortened (overflow : Overflow) (limit : Nat) (line : Styled) : Styled :=
  line.become (shorten overflow limit line.text)

/-- the lines that a text takes, with the breaks that it has -/
def linesIn (overflow : Overflow) (limit : Nat) (t : Styled) : List Styled :=
  (t.broken overflow limit).map (shortened overflow limit)

/-- blanks on both sides of a line; one that is over goes behind it -/
def centred (cells : Nat) (line : Styled) : Styled :=
  let line := (line.become (trimEnd line.text)).shortened .fold cells
  let left := (cells - textWidth line.text) / 2
  ⟨padded cells (blanks left ++ line.text), line.faults.map fun f => (f.1 + left, f.2 + left)⟩

/-! ## Texts that fit -/

variable {overflow : Overflow} {limit gap : Nat} {t : Styled}

@[simp] theorem text_become (text : List Char) : (t.become text).text = text := by
  unfold become
  split <;> rfl

@[simp] theorem become_text : t.become t.text = t := by
  unfold become
  rw [if_neg (Nat.lt_irrefl _)]

theorem linesIn_of_fits (hbreak : '\n' ∉ t.text) (htab : '\t' ∉ t.text) (hshort : t.text.length ≤ limit)
    (hfits : textWidth t.text ≤ limit) : t.linesIn overflow limit = [t] := by
  have hlines : t.lines = [t] := by
    have hsplit : t.text.splitOn '\n' = [t.text] :=
      List.splitOnP_eq_singleton fun c hc => by simpa using ne_of_mem_of_not_mem hc hbreak
    rw [lines, hsplit, divide]
  have hexpanded : t.expanded = t := if_neg htab
  have hparts : t.parts overflow limit = [t] := by
    rw [parts, broken_of_fits hfits, divide, List.map_singleton, dropExcess_of_short hshort, become_text]
  rw [linesIn, broken, hlines, List.flatMap_singleton, hexpanded, hparts, List.map_singleton, shortened,
    shorten_of_fits hfits, become_text]

end Styled

end CodecCompiler
