/-
Breaking lines: a line that is too wide for its place is broken between words into parts that fit. A word that is too
wide by itself is either cut into pieces or shortened, with an ellipsis for what is missing.

- `expandTabs` replaces tabs by blanks.
- `wordsOf` cuts a line into words, `chop` a word into pieces, `broken` a line into parts; all keep every character.
- `dropExcess` and `shorten` make a part fit: `textWidth_shorten`.
- `padded` fills a line up: `textWidth_padded`.
-/
import CodecCompiler.Text.Spaces
import CodecCompiler.Text.Width

namespace CodecCompiler.Text

def blanks (n : Nat) : List Char := List.replicate n ' '

@[simp] theorem textWidth_blanks (n : Nat) : textWidth (blanks n) = n := by
  induction n with
  | zero => rfl
  | succ n ih =>
    change width ' ' + textWidth (blanks n) = n + 1
    rw [width_of_blank, ih, Nat.add_comm]

/-! ## Tabs -/

/-- a line from a column on: each tab becomes a blank and as many more as lead to the next multiple of eight -/
def expandTabsFrom (column : Nat) : List Char → List Char
  | [] => []
  | '\t' :: cs =>
    let next := (column / 8 + 1) * 8
    blanks (next - column) ++ expandTabsFrom next cs
  | c :: cs => c :: expandTabsFrom (column + width c) cs

def expandTabs (line : List Char) : List Char := expandTabsFrom 0 line

/-! ## Words -/

/-- the runs of a line: a new one begins where a separator comes before another character -/
def runs : List Char → List (List Char)
  | [] => []
  | c :: cs =>
    match runs cs with
    | [] => [[c]]
    | run :: rest =>
      if isSpace c && run.head?.any fun d => !isSpace d then [c] :: run :: rest else (c :: run) :: rest

/-- separators in front of the first word belong to it -/
def joinLead : List (List Char) → List (List Char)
  | lead :: word :: words => if lead.all isSpace then (lead ++ word) :: words else lead :: word :: words
  | words => words

/-- the words of a line, each with the separators behind it; the first also has those in front -/
def wordsOf (line : List Char) : List (List Char) := joinLead (runs line)

/-! ## Breaking -/

/-- what is done with a word that is too wide for a line -/
inductive Overflow where
  /-- it is cut into pieces -/
  | fold
  /-- its end is left out -/
  | ellipsis
  deriving DecidableEq, Repr

/-- a text cut into pieces that fit; a character too wide by itself is a piece, and nothing stands before it -/
def chop (limit : Nat) (cs : List Char) : List (List Char) := go [] 0 cs
where
  go (piece : List Char) (used : Nat) : List Char → List (List Char)
    | [] => [piece]
    | c :: cs => if used + width c ≤ limit then go (piece ++ [c]) (used + width c) cs else piece :: go [c] (width c) cs

/-- lines while they are filled -/
structure Filling where
  closed : List (List Char) := []
  /-- the line that is filled -/
  line : List Char := []
  deriving Repr

namespace Filling

/-- a new line begins, unless there is nothing yet -/
def breakLine (f : Filling) : Filling := if f.closed = [] ∧ f.line = [] then f else ⟨f.closed ++ [f.line], []⟩

def append (f : Filling) (cs : List Char) : Filling := { f with line := f.line ++ cs }

/-- a word goes on the current line if it fits there, otherwise on a new one -/
def add (overflow : Overflow) (limit : Nat) (f : Filling) (word : List Char) : Filling :=
  let cells := textWidth (trimEnd word)
  if textWidth f.line + cells ≤ limit then f.append word
  else if limit < cells ∧ overflow = .fold then (chop limit word).foldl (fun f piece => f.breakLine.append piece) f
  else f.breakLine.append word

def lines (f : Filling) : List (List Char) := f.closed ++ [f.line]

end Filling

/-- a line without the separators at its end that do not fit -/
def dropExcess (limit : Nat) (line : List Char) : List Char :=
  let separators := (line.reverse.takeWhile isSpace).length
  line.take (line.length - min separators (line.length - limit))

/-- the front of a text that takes just so many cells, looked for by halving between two places; half of a wide
character counts as a blank, and characters without a cell at the end are kept if the place that was found is behind
them -/
def frontBetween (limit : Nat) (text : List Char) (start stop : Nat) : List Char :=
  let middle := (start + stop) / 2
  let front := text.take (middle + 1)
  if textWidth front = limit + 1 ∧ front.getLast?.map width = some 2 then front.dropLast ++ [' ']
  else if textWidth front = limit then front
  else if limit < textWidth front then if start < stop then frontBetween limit text start middle else []
  else if start < middle then frontBetween limit text middle stop else front
termination_by stop - start

/-- as much of a text that does not fit as fits -/
def cut (limit : Nat) (text : List Char) : List Char :=
  if limit = 0 then [] else frontBetween limit text 0 text.length

theorem textWidth_frontBetween (limit : Nat) (text : List Char) (start stop : Nat) :
    textWidth (frontBetween limit text start stop) ≤ limit := by
  fun_induction frontBetween limit text start stop with
  | case1 start stop middle front h =>
    obtain ⟨cells, wide⟩ := h
    obtain ⟨last, eq, two⟩ := Option.map_eq_some_iff.1 wide
    rw [List.getLast?_eq_some_iff] at eq
    obtain ⟨before, eq⟩ := eq
    rw [eq, textWidth_append, textWidth_cons, textWidth_nil] at cells
    rw [eq, List.dropLast_concat, textWidth_append, textWidth_cons, textWidth_nil, width_of_blank]
    omega
  | case2 => omega
  | case3 _ _ _ _ _ _ _ _ ih => exact ih
  | case4 => simp
  | case5 _ _ _ _ _ _ _ _ ih => exact ih
  | case6 => omega

/-- what is left fits -/
theorem textWidth_cut (limit : Nat) (text : List Char) : textWidth (cut limit text) ≤ limit := by
  unfold cut
  split
  · simp
  · exact textWidth_frontBetween ..

/-- a line shortened to the limit if need be -/
def shorten (overflow : Overflow) (limit : Nat) (line : List Char) : List Char :=
  if textWidth line ≤ limit then line
  else
    match overflow with
    | .fold => cut limit line
    | .ellipsis => cut (limit - 1) line ++ ['…']

/-- what is left fits -/
theorem textWidth_shorten {overflow : Overflow} {limit : Nat} (hlimit : 0 < limit) (line : List Char) :
    textWidth (shorten overflow limit line) ≤ limit := by
  unfold shorten
  split
  · assumption
  · have hfold := textWidth_cut limit line
    have hellipsis := textWidth_cut (limit - 1) line
    cases overflow with
    | fold => exact hfold
    | ellipsis =>
      have hwidth : textWidth (cut (limit - 1) line ++ ['…']) = textWidth (cut (limit - 1) line) + 1 := by
        rw [textWidth_append, textWidth_cons, width_of_ellipsis, textWidth_nil]
      exact Nat.le_trans (Nat.le_of_eq hwidth) (by omega)

theorem shorten_of_fits {overflow : Overflow} {limit : Nat} {line : List Char} (h : textWidth line ≤ limit) :
    shorten overflow limit line = line := by
  unfold shorten
  rw [if_pos h]

/-- the parts that a line is broken into -/
def broken (overflow : Overflow) (limit : Nat) (line : List Char) : List (List Char) :=
  if textWidth line ≤ limit then [line] else ((wordsOf line).foldl (Filling.add overflow limit) {}).lines

theorem broken_of_fits {overflow : Overflow} {limit : Nat} {line : List Char} (h : textWidth line ≤ limit) :
    broken overflow limit line = [line] := by
  rw [broken, if_pos h]

theorem dropExcess_of_short {limit : Nat} {line : List Char} (h : line.length ≤ limit) :
    dropExcess limit line = line := by
  simp [dropExcess, Nat.sub_eq_zero_of_le h]

/-! ## Filling up -/

/-- blanks behind a line up to a number of cells -/
def padded (cells : Nat) (line : List Char) : List Char := line ++ blanks (cells - textWidth line)

/-- a line that fits gets exactly the cells -/
theorem textWidth_padded {cells : Nat} {line : List Char} (fits : textWidth line ≤ cells) :
    textWidth (padded cells line) = cells := by
  simp [padded, Nat.add_sub_cancel' fits]

end CodecCompiler.Text
