/-
Markup: text with styles in square brackets, as terminals are given it. `[bold]` opens a style, `[/bold]` closes the
last open one of that name, `[/]` the last open one whatever its name. A backslash in front makes the brackets text.
Of the styles only the places are kept where one cannot be read; a style that is closed must be open. Names of pictures
in the text stand for the pictures. A tag that begins with `@` has values behind an equals sign, which are read when it
is closed.

- `Markup.read`: the pieces of a text.
- `Markup.render`: the text that is shown, or why it cannot be.
-/
import CodecCompiler.Text.Emoji
import CodecCompiler.Text.Style
import CodecCompiler.Text.Styled

namespace CodecCompiler.Markup

/-- what stands in brackets: a name, and what is said behind an equals sign -/
structure Tag where
  name : List Char
  parameters : Option (List Char)
  deriving DecidableEq, Repr

/-- a part of a text, or a change of style -/
inductive Piece where
  /-- a part of the text between changes of style -/
  | text (cs : List Char)
  /-- what backslashes make of the brackets behind them, or of each other; no name reaches across its ends -/
  | literal (cs : List Char)
  | opening (tag : Tag)
  /-- closes the style of a name, or the last one if the name is empty -/
  | closing (name : List Char)
  deriving DecidableEq, Repr

/-! ## Reading -/

/-- can a style's brackets begin with the character -/
def beginsTag (c : Char) : Bool := ('a' ≤ c && c ≤ 'z') || c ∈ ['#', '/', '@']

/-- what stands in brackets at the front of a text, and what is behind them -/
def bracketed? : List Char → Option (List Char × List Char)
  | '[' :: c :: cs =>
    if beginsTag c then
      match cs.dropWhile fun d => d ≠ '[' ∧ d ≠ ']' with
      | ']' :: rest => some (c :: cs.takeWhile (fun d => d ≠ '[' ∧ d ≠ ']'), rest)
      | _ => none
    else none
  | _ => none

/-- the change of style that brackets stand for -/
def change (inside : List Char) : Piece :=
  let parameters :=
    match inside.dropWhile (· ≠ '=') with
    | '=' :: parameters => some parameters
    | _ => none
  match inside.takeWhile (· ≠ '=') with
  | '/' :: name => .closing (Text.trim name)
  | name => .opening ⟨name, parameters⟩

/-- the pieces at the front of a text, and what is behind them: two backslashes in front of a style are one, a single
one makes it text; elsewhere a backslash only disappears in front of a bracket -/
def readOne (cs : List Char) : List Piece × List Char :=
  let slashes := cs.takeWhile (· = '\\')
  let rest := cs.dropWhile (· = '\\')
  match bracketed? rest with
  | some (inside, behind) =>
    let shown := Piece.literal (List.replicate (slashes.length / 2) '\\')
    if slashes.length % 2 = 1 then ([shown, .literal ('[' :: inside ++ [']'])], behind)
    else ([shown, change inside], behind)
  | none =>
    match rest with
    | '[' :: behind => ([.text (slashes.dropLast ++ ['['])], behind)
    | c :: behind => ([.text (slashes ++ [c])], behind)
    | [] => ([.text slashes], [])

theorem length_bracketed {cs inside behind : List Char} (h : bracketed? cs = some (inside, behind)) :
    behind.length < cs.length := by
  unfold bracketed? at h
  split at h
  · rename_i c cs
    split at h
    · split at h
      · rename_i rest eq
        simp only [Option.some.injEq, Prod.mk.injEq] at h
        have := congrArg List.length eq
        have le := (List.dropWhile_suffix (fun d => decide (d ≠ '[' ∧ d ≠ ']')) (l := cs)).length_le
        simp only [List.length_cons] at this ⊢
        rw [← h.2]
        omega
      · simp at h
    · simp at h
  · simp at h

/-- reading goes on -/
theorem length_readOne {cs : List Char} (h : cs ≠ []) : (readOne cs).2.length < cs.length := by
  have le := (List.dropWhile_suffix (fun c => decide (c = '\\')) (l := cs)).length_le
  unfold readOne
  simp only
  split
  · rename_i inside behind eq
    have := length_bracketed eq
    split <;> (simp only; omega)
  · split
    · rename_i behind eq
      rw [eq] at le
      simp only [List.length_cons] at le ⊢
      omega
    · rename_i c behind _ eq
      rw [eq] at le
      simp only [List.length_cons] at le ⊢
      omega
    · simpa using List.length_pos_iff.2 h

/-- pieces with others in front of them, where parts of the text that meet are one -/
def join : List Piece → List Piece → List Piece
  | [.text cs], .text ds :: pieces => .text (cs ++ ds) :: pieces
  | front, pieces => front ++ pieces

/-- the pieces of a text -/
def read (cs : List Char) : List Piece :=
  if h : cs = [] then []
  else
    have := length_readOne h
    join (readOne cs).1 (read (readOne cs).2)
termination_by cs.length

/-! ## Showing -/

/-- controls that move the cursor are not shown: bell, backspace, and the breaks other than the line feed -/
def isDropped (c : Char) : Bool := c.toNat ∈ [7, 8, 11, 12, 13]

/-- what is shown of a part of a text -/
def shown (cs : List Char) : List Char := (Text.Emoji.replace cs).filter fun c => !isDropped c

/-- why a text cannot be shown -/
inductive Failure where
  /-- a style is closed that is not open -/
  | unopened
  /-- the values of a tag cannot be read -/
  | values
  /-- a colour has a number that cannot be read -/
  | number
  deriving DecidableEq, Repr

/-- the style that a tag says -/
def Tag.style (tag : Tag) : List Char := tag.name ++ tag.parameters.elim [] (' ' :: ·)

/-- a text while it is put together -/
structure Making where
  /-- the text, with the places of the closed styles that cannot be read -/
  shown : Styled := ⟨[], []⟩
  /-- the open tags, the last one first, with the places where they were opened -/
  tags : List (Nat × Tag) := []
  deriving Repr

namespace Making

def append (m : Making) (cs : List Char) : Making := { m with shown := { m.shown with text := m.shown.text ++ cs } }

/-- the place of a tag that reaches up to here, if its style cannot be read -/
def faultsOf (m : Making) (tag : Nat × Tag) : List (Nat × Nat) :=
  if Style.isFaulty tag.2.style then [(tag.1, m.shown.text.length)] else []

/-- a tag that was opened at some place is closed -/
def close (evaluates : List Char → Bool) (m : Making) (tag : Nat × Tag) : Except Failure Making :=
  if tag.2.name.head? = some '@' then
    if tag.2.parameters.all fun cs => cs = [] || evaluates (Text.trim cs) then .ok m else .error .values
  else .ok { m with shown := { m.shown with faults := m.shown.faults ++ m.faultsOf tag } }

/-- one piece more -/
def step (evaluates : List Char → Bool) (m : Making) : Piece → Except Failure Making
  | .text cs | .literal cs => .ok (m.append (Markup.shown cs))
  | .opening tag =>
    match Style.normal? tag.name with
    | some name => .ok { m with tags := (m.shown.text.length, { tag with name }) :: m.tags }
    | none => .error .number
  | .closing [] =>
    match m.tags with
    | tag :: tags => close evaluates { m with tags } tag
    | [] => .error .unopened
  | .closing name =>
    match Style.normal? name with
    | some name =>
      match m.tags.find? fun tag => tag.2.name = name with
      | some tag => close evaluates { m with tags := m.tags.eraseP fun tag => tag.2.name = name } tag
      | none => .error .unopened
    | none => .error .number

/-- the text in the end; the styles that are still open reach up to there -/
def finish (m : Making) : Styled := { m.shown with faults := m.shown.faults ++ m.tags.flatMap m.faultsOf }

end Making

/-- the text that is shown, where a function tells which values can be read -/
def render (evaluates : List Char → Bool) (cs : List Char) : Except Failure Styled :=
  ((read cs).foldlM (Making.step evaluates) {}).map Making.finish

end CodecCompiler.Markup
