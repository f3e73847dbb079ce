/-
Tables of text in a box: a title in the middle above, a header with heavy lines, and rows below. A column is as wide as
its widest cell, and cells have one blank on both sides. A cell with several lines makes its row as high. Where a table
would be wider than its place, its widest columns give way; a column without room for a character stays empty.

- `Table.wanted` and `Table.columns`: the cells that each column asks for and gets.
- `Table.narrowed`: the widest columns become narrower.
- `Table.row` is one row, `Table.lines` the lines of the whole; all have the width of the table.
- `Table.isSound`: there is no style in what is shown of the table that cannot be read.
-/
import CodecCompiler.Text.Styled

namespace CodecCompiler

structure Table where
  title : Styled
  header : List Styled
  rows : List (List Styled)
  deriving Repr

namespace Table

open Text

/-- the signs of a horizontal line: left end, filling, crossing, right end -/
structure Rule where
  left : Char
  fill : Char
  cross : Char
  right : Char

/-- the line above the header -/
def above : Rule := ⟨'┏', '━', '┳', '┓'⟩

/-- the line under the header -/
def under : Rule := ⟨'┡', '━', '╇', '┩'⟩

/-- the line under the rows -/
def below : Rule := ⟨'└', '─', '┴', '┘'⟩

/-- the characters that end a line when a cell is measured -/
def endsLine (c : Char) : Bool :=
  c = '\n' || (0x1C ≤ c.toNat && c.toNat ≤ 0x1E) || c.toNat = 0x85 || c.toNat = 0x2028 || c.toNat = 0x2029

/-- the width of a cell: that of its widest line -/
def cellWidth (cell : Styled) : Nat := ((cell.text.splitOnP endsLine).map textWidth).max?.getD 0

/-- the cells of a place that are left for columns between their borders -/
def room (limit : Nat) (t : Table) : Nat := limit - (t.header.length + 1)

/-- the cells that each column asks for: those of its widest cell and of the blanks on both sides -/
def wanted (limit : Nat) (t : Table) : List Nat :=
  (t.rows.foldl (fun ws row => List.zipWith max ws (row.map cellWidth)) (t.header.map cellWidth)).map fun n =>
    min (n + 2) (t.room limit)

/-- an equal share, rounded to the nearest number, and to the even one of two that are as near -/
def share (total count : Nat) : Nat :=
  let low := total / count
  let rest := total % count * 2
  if rest > count ∨ rest = count ∧ low % 2 = 1 then low + 1 else low

/-- columns of one width give up cells in equal shares, each of them at most so many -/
def giveUp (width most : Nat) : (total count : Nat) → List Nat → List Nat
  | _, _, [] => []
  | total, count, w :: ws =>
    if w = width then
      let part := min most (share total count)
      (w - part) :: giveUp width most (total - part) (count - 1) ws
    else w :: giveUp width most total count ws

/-- the cells of the widest columns -/
def widest (ws : List Nat) : Nat := ws.max?.getD 0

/-- the widest columns give up what is too much, until they are as wide as the next ones -/
def narrowed (room : Nat) (ws : List Nat) : List Nat :=
  let next := widest (ws.filter (· ≠ widest ws))
  let excess := ws.foldl (· + ·) 0 - room
  giveUp (widest ws) (min excess (widest ws - next)) excess (ws.count (widest ws)) ws

/-- the cells of each column, with the blanks on both sides; each narrowing makes at least one more column as wide as
the widest, or ends the excess -/
def columns (limit : Nat) (t : Table) : List Nat :=
  Nat.repeat (narrowed (t.room limit)) t.header.length (t.wanted limit)

/-- the width of the whole -/
def width (limit : Nat) (t : Table) : Nat := (t.columns limit).foldl (fun cells n => cells + n + 1) 1

/-- parts with a sign between them and at both ends -/
def framed (left cross right : Char) : List (List Char) → List Char
  | [] => [left, right]
  | part :: parts => left :: (part ++ parts.flatMap (cross :: ·) ++ [right])

/-- a horizontal line -/
def Rule.line (r : Rule) (columns : List Nat) : List Char :=
  framed r.left r.cross r.right (columns.map fun n => List.replicate n r.fill)

/-- the lines of a cell; there are none without room for a character -/
def cellLines (column : Nat) (cell : Styled) : List Styled :=
  if column ≤ 2 then [] else cell.linesIn .ellipsis (column - 2)

/-- a line of a cell, with the blanks on both sides -/
def part (column : Nat) (line : List Char) : List Char := ' ' :: (padded (column - 2) line ++ [' '])

/-- the parts of a cell's lines -/
def parts (column : Nat) (cell : Styled) : List (List Char) :=
  (cellLines column cell).map fun line => part column line.text

/-- a row, as high as its highest cell, between vertical signs -/
def row (sign : Char) (columns : List Nat) (cells : List Styled) : List (List Char) :=
  let cells := List.zipWith parts columns cells
  let height := (cells.map List.length).foldl max 1
  (List.range height).map fun i =>
    framed sign sign sign (List.zipWith (fun n parts => parts.getD i (blanks n)) columns cells)

/-- the lines of the title -/
def titleLines (limit : Nat) (t : Table) : List Styled :=
  (t.title.broken .fold (t.width limit)).map (Styled.centred (t.width limit))

/-- the lines of the whole -/
def lines (limit : Nat) (t : Table) : List (List Char) :=
  let columns := t.columns limit
  (t.titleLines limit).map Styled.text
    ++ [above.line columns] ++ row '┃' columns t.header ++ [under.line columns]
    ++ t.rows.flatMap (row '│' columns)
    ++ [below.line columns]

/-- can all styles be read in what is shown -/
def isSound (limit : Nat) (t : Table) : Bool :=
  (t.titleLines limit).all Styled.isSound &&
    (t.header :: t.rows).all fun cells => (List.zipWith cellLines (t.columns limit) cells).flatten.all Styled.isSound

end Table

end CodecCompiler
