/-
Consoles: places of some width where texts and tables are printed. All texts are markup.

What is printed are characters only: a console without colours, which can show the signs of boxes. Styles still count,
for a text with a style that cannot be read is not printed at all.

- `Console.message` are the lines of a text, `Console.table` those of a table, or why they cannot be printed. A console
  without a cell prints nothing. `Console.output` is what is printed of lines.
- `Console.readRows` reads the cells of a table, unless its columns have no room for a character.
-/
import CodecCompiler.Text.Markup
import CodecCompiler.Text.Table

namespace CodecCompiler

structure Console where
  /-- the cells of a line -/
  width : Nat
  /-- tells which values of tags can be read -/
  evaluates : List Char → Bool

namespace Console

/-- what is printed of lines -/
def output (lines : List (List Char)) : String := String.ofList (lines.flatMap (· ++ ['\n']))

variable (console : Console)

/-- what is shown of a text -/
def read (cs : List Char) : Except Markup.Failure Styled := Markup.render console.evaluates cs

/-- a line up to the end of the console -/
def cropped (line : List Char) : List Char :=
  if Text.textWidth line ≤ console.width then line else Text.cut console.width line

/-- the lines that a text takes -/
def message (cs : List Char) : Except Markup.Failure (List (List Char)) := do
  let text ← console.read cs
  if console.width = 0 then return []
  let lines := text.linesIn .fold console.width
  if lines.all Styled.isSound then return lines.map Styled.text else throw .number

/-- the cells of rows; of several that cannot be read the first one in the first column tells why -/
def readRows (columns : Nat) (rows : List (List (List Char))) : Except Markup.Failure (List (List Styled)) := do
  if console.width ≤ columns + 3 then return rows.map fun row => row.map fun _ => ⟨[], []⟩
  let _ ← ((List.range columns).flatMap fun i => rows.filterMap fun row => row[i]?).mapM console.read
  rows.mapM fun row => row.mapM console.read

/-- the lines of a table -/
def table (title : List Char) (header : List (List Char)) (rows : List (List (List Char))) :
    Except Markup.Failure (List (List Char)) := do
  if console.width = 0 then return []
  let rows ← console.readRows header.length rows
  let table : Table := ⟨← console.read title, header.map (⟨·, []⟩), rows⟩
  if table.isSound console.width then return (table.lines console.width).map console.cropped else throw .number

end Console

end CodecCompiler
