/-
Cursors: a place in a YAML text with the characters that follow it. A cursor knows its line and column, since YAML
gives meaning to indentation and to what stands on one line.

- `Cursor.next` steps over one character, `Cursor.skip` over several, `Cursor.skipWhile` over those of a class.
- `Cursor.lineBreak?` steps over a line break and gives the text that stands for it.
- `isReadable`: the characters that a YAML text may hold.
-/

namespace CodecCompiler.Yaml

/-! ## Classes of characters -/

/-- the characters that a text may hold -/
def isReadable (c : Char) : Bool :=
  let n := c.toNat
  n = 0x09 || n = 0x0A || n = 0x0D || (0x20 ≤ n && n ≤ 0x7E) || n = 0x85 || (0xA0 ≤ n && n ≤ 0xD7FF)
    || (0xE000 ≤ n && n ≤ 0xFFFD) || 0x10000 ≤ n

/-- stands for the end of the text -/
def endMark : Char := '\x00'

def isBreak (c : Char) : Bool := c = '\n' || c = '\r' || c = '\x85' || c = '\u2028' || c = '\u2029'

def isBreakOrEnd (c : Char) : Bool := isBreak c || c = endMark

/-- a space, a line break or the end -/
def isSpaceOrEnd (c : Char) : Bool := c = ' ' || isBreakOrEnd c

/-- a space, a tab, a line break or the end -/
def isBlankOrEnd (c : Char) : Bool := c = '\t' || isSpaceOrEnd c

def isDigit (c : Char) : Bool := '0' ≤ c && c ≤ '9'

/-- the letters of anchors, tag handles and directive names -/
def isWordChar (c : Char) : Bool :=
  isDigit c || ('A' ≤ c && c ≤ 'Z') || ('a' ≤ c && c ≤ 'z') || c = '-' || c = '_'

/-! ## Cursors -/

structure Cursor where
  rest : List Char
  index : Nat := 0
  line : Nat := 0
  column : Nat := 0
  deriving Repr, Inhabited

namespace Cursor

/-- the next character -/
def peek (c : Cursor) : Char := c.rest.headD endMark

/-- the character `n` places ahead -/
def peekAt (c : Cursor) (n : Nat) : Char := c.rest.getD n endMark

/-- steps over one character; a byte-order mark takes no column -/
def next (c : Cursor) : Cursor :=
  match c.rest with
  | [] => c
  | ch :: rest =>
    if isBreak ch then ⟨rest, c.index + 1, c.line + 1, 0⟩
    else if ch = '\ufeff' then ⟨rest, c.index + 1, c.line, c.column⟩
    else ⟨rest, c.index + 1, c.line, c.column + 1⟩

/-- steps over `n` characters -/
def skip : Nat → Cursor → Cursor
  | 0, c => c
  | n + 1, c => skip n c.next

/-- steps over the characters of a class at the front of the rest -/
def skipWhile (p : Char → Bool) (c : Cursor) : Cursor := skip (c.rest.takeWhile p).length c

/-- the characters of a class at the front of the rest, and the cursor behind them -/
def span (p : Char → Bool) (c : Cursor) : List Char × Cursor :=
  let taken := c.rest.takeWhile p
  (taken, skip taken.length c)

/-- steps over a line break; those of Unicode stand for themselves, all others for a line feed -/
def lineBreak? (c : Cursor) : Option (Char × Cursor) :=
  let ch := c.peek
  if ch = '\r' ∧ c.peekAt 1 = '\n' then some ('\n', skip 2 c)
  else if ch = '\r' ∨ ch = '\n' ∨ ch = '\x85' then some ('\n', c.next)
  else if isBreak ch then some (ch, c.next)
  else none

/-- does the text end here -/
def atEnd (c : Cursor) : Bool := c.rest.isEmpty

/-- does a separator of documents stand here: three dashes or dots, and a blank -/
def atSeparator (c : Cursor) (mark : Char) : Bool :=
  c.peek = mark && c.peekAt 1 = mark && c.peekAt 2 = mark && isBlankOrEnd (c.peekAt 3)

/-- does a separator of either kind stand here -/
def atAnySeparator (c : Cursor) : Bool := c.atSeparator '-' || c.atSeparator '.'

end Cursor

end CodecCompiler.Yaml
