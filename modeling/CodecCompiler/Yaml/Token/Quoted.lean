/-
Quoted scalars. Between single quotes only a doubled quote is special; between double quotes a backslash begins an
escape. Line breaks fold: a single one becomes a space, of several the first is dropped, and blanks around them go.
-/
import CodecCompiler.Text.Digits
import CodecCompiler.Yaml.Cursor
import CodecCompiler.Yaml.Token

namespace CodecCompiler.Yaml.Token.Quoted

/-- the character that an escape of one letter stands for -/
def named? (c : Char) : Option Char :=
  match c with
  | '0' => some '\x00'
  | 'a' => some '\x07'
  | 'b' => some '\x08'
  | 't' | '\t' => some '\t'
  | 'n' => some '\n'
  | 'v' => some '\x0b'
  | 'f' => some '\x0c'
  | 'r' => some '\r'
  | 'e' => some '\x1b'
  | ' ' => some ' '
  | '"' => some '"'
  | '\\' => some '\\'
  | '/' => some '/'
  | 'N' => some '\x85'
  | '_' => some '\xa0'
  | 'L' => some '\u2028'
  | 'P' => some '\u2029'
  | _ => none

/-- the number of hexadecimal digits behind the letter of an escape by number -/
def digitCount? (c : Char) : Option Nat :=
  match c with
  | 'x' => some 2
  | 'u' => some 4
  | 'U' => some 8
  | _ => none

/-- the code point of a number; numbers of more than 31 bits are not even compared with the last code point -/
def codePoint (n : Nat) : Except Failure CodePoint :=
  if n < 0x110000 then .ok (.ofNat n) else if n < 0x80000000 then .error .noValue else .error .tooLarge

def isSpaceOrTab (c : Char) : Bool := c = ' ' || c = '\t'

/-- the line breaks here, with the blanks around them; a separator of documents must not begin a line -/
def breaks : (fuel : Nat) → Cursor → List CodePoint → Except Failure (List CodePoint × Cursor)
  | 0, _, _ => .error .malformed
  | fuel + 1, c, found =>
    if c.atAnySeparator then .error .malformed
    else
      let c := c.skipWhile isSpaceOrTab
      match c.lineBreak? with
      | some (ch, c) => breaks fuel c (found ++ [.char ch])
      | none => .ok (found, c)

/-- blanks inside the text, where a line may end -/
def spaces (fuel : Nat) (c : Cursor) : Except Failure (List CodePoint × Cursor) :=
  let (blanks, c) := c.span isSpaceOrTab
  if c.atEnd then .error .malformed
  else
    match c.lineBreak? with
    | none => .ok (blanks.map .char, c)
    | some (ch, c) => do
      let (more, c) ← breaks fuel c []
      let first : List CodePoint := if ch ≠ '\n' then [.char ch] else if more.isEmpty then [.char ' '] else []
      return (first ++ more, c)

/-- a character that is not special between quotes of either kind -/
def isOrdinary (c : Char) : Bool := c ≠ '\'' && c ≠ '"' && c ≠ '\\' && !isBlankOrEnd c

/-- what an escape stands for, from the character behind the backslash on -/
def escape (fuel : Nat) (c : Cursor) : Except Failure (List CodePoint × Cursor) :=
  match named? c.peek, digitCount? c.peek with
  | some ch, _ => .ok ([.char ch], c.next)
  | none, some count =>
    let c := c.next
    match Text.numeral? 16 (c.rest.take count), decide ((c.rest.take count).length = count) with
    | some n, true => (codePoint n).map fun p => ([p], c.skip count)
    | _, _ => .error .malformed
  | none, none =>
    match c.lineBreak? with
    | some (_, c) => breaks fuel c []
    | none => .error .malformed

/-- the text up to a blank, a line break or the closing quote -/
def nonSpaces (double : Bool) : (fuel : Nat) → Cursor → List CodePoint → Except Failure (List CodePoint × Cursor)
  | 0, _, _ => .error .malformed
  | fuel + 1, c, found => do
    let (ordinary, c) := c.span isOrdinary
    let found := found ++ ordinary.map .char
    let ch := c.peek
    if !double && ch = '\'' && c.peekAt 1 = '\'' then nonSpaces double fuel (c.skip 2) (found ++ [.char '\''])
    else if (double && ch = '\'') || (!double && (ch = '"' || ch = '\\')) then
      nonSpaces double fuel c.next (found ++ [.char ch])
    else if double && ch = '\\' then
      let (more, c) ← escape fuel c.next
      nonSpaces double fuel c (found ++ more)
    else return (found, c)

/-- the text up to the closing quote -/
def body (double : Bool) : (fuel : Nat) → Cursor → List CodePoint → Except Failure (List CodePoint × Cursor)
  | 0, _, _ => .error .malformed
  | fuel + 1, c, found =>
    if c.peek = (if double then '"' else '\'') then .ok (found, c.next)
    else do
      let (blanks, c) ← spaces fuel c
      let (found, c) ← nonSpaces double fuel c (found ++ blanks)
      body double fuel c found

/-- a quoted scalar, from its opening quote on -/
def scan (fuel : Nat) (double : Bool) (c : Cursor) : Except Failure (Text × Cursor) := do
  let (found, c) ← nonSpaces double fuel c.next []
  let (found, c) ← body double fuel c found
  return (⟨found⟩, c)

end CodecCompiler.Yaml.Token.Quoted
