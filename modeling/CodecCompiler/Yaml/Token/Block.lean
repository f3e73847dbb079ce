/-
Block scalars: texts introduced by `|` or `>`, whose extent is given by indentation. A literal text keeps its line
breaks; in a folded one a single break between two lines that start without a blank becomes a space. The last line
break is kept once, dropped or kept with all that follow, as the indicator says.
-/
import CodecCompiler.Yaml.Cursor
import CodecCompiler.Yaml.Token

namespace CodecCompiler.Yaml.Token.Block

/-- which line breaks at the end are kept -/
inductive Chomping where
  | clip
  | strip
  | keep
  deriving DecidableEq, Repr

/-- what stands behind the introducing character: which breaks are kept, and the indentation if it is given -/
structure Header where
  chomping : Chomping
  increment : Option Nat
  deriving DecidableEq, Repr

/-- a mark for the breaks at the end -/
def chomping? (c : Cursor) : Option (Chomping × Cursor) :=
  if c.peek = '+' then some (.keep, c.next)
  else if c.peek = '-' then some (.strip, c.next)
  else none

/-- a digit for the indentation; zero is none -/
def increment? (c : Cursor) : Except Failure (Option Nat × Cursor) :=
  if isDigit c.peek then
    if c.peek = '0' then .error .malformed else .ok (some (c.peek.toNat - '0'.toNat), c.next)
  else .ok (none, c)

/-- both marks, in either order -/
def header (c : Cursor) : Except Failure (Header × Cursor) := do
  let (found, c) ← match chomping? c with
    | some (chomping, c) => do
      let (increment, c) ← increment? c
      pure (Header.mk chomping increment, c)
    | none => do
      let (increment, c) ← increment? c
      match increment, chomping? c with
      | some _, some (chomping, c) => pure (Header.mk chomping increment, c)
      | _, _ => pure (Header.mk .clip increment, c)
  if isSpaceOrEnd c.peek then .ok (found, c) else .error .malformed

/-- the rest of a line that may hold nothing but blanks and a comment -/
def emptyRest (c : Cursor) : Except Failure Cursor :=
  let c := c.skipWhile (· = ' ')
  let c := if c.peek = '#' then c.skipWhile (!isBreakOrEnd ·) else c
  if c.atEnd then .ok c
  else
    match c.lineBreak? with
    | some (_, c) => .ok c
    | none => .error .malformed

/-- the empty lines in front of a text whose indentation is not given, and the widest indentation among them -/
def leading : (fuel : Nat) → Cursor → List Char → Nat → List Char × Nat × Cursor
  | 0, c, breaks, widest => (breaks, widest, c)
  | fuel + 1, c, breaks, widest =>
    if c.peek = ' ' then
      let c := c.next
      leading fuel c breaks (max widest c.column)
    else
      match c.lineBreak? with
      | some (ch, c) => leading fuel c (breaks ++ [ch]) widest
      | none => (breaks, widest, c)

/-- steps over at most as many spaces as the indentation lacks -/
def indentation (indent : Nat) (c : Cursor) : Cursor :=
  let spaces := (c.rest.takeWhile (· = ' ')).length
  c.skip (min spaces (indent - c.column))

/-- the empty lines here -/
def emptyLines (indent : Nat) : (fuel : Nat) → Cursor → List Char → List Char × Cursor
  | 0, c, breaks => (breaks, c)
  | fuel + 1, c, breaks =>
    let c := indentation indent c
    match c.lineBreak? with
    | some (ch, c) => emptyLines indent fuel c (breaks ++ [ch])
    | none => (breaks, c)

/-- does a line of the text begin here -/
def atLine (indent : Nat) (c : Cursor) : Bool := c.column = indent && !c.atEnd

/-- a line that starts with a blank -/
def startsBlank (c : Cursor) : Bool := c.peek = ' ' || c.peek = '\t'

/-- the lines of the text: its characters, the last line break, and the empty lines behind it -/
def lines (folded : Bool) (indent : Nat) :
    (fuel : Nat) → Cursor → (breaks text : List Char) → List Char × List Char × List Char × Cursor
  | 0, c, breaks, text => (text, [], breaks, c)
  | fuel + 1, c, breaks, text =>
    if !atLine indent c then (text, [], breaks, c)
    else
      let blank := startsBlank c
      let (line, c) := c.span (!isBreakOrEnd ·)
      let text := text ++ breaks ++ line
      let (last, c) : List Char × Cursor := match c.lineBreak? with
        | some (ch, c) => ([ch], c)
        | none => ([], c)
      let (breaks, c) := emptyLines indent fuel c []
      if atLine indent c then
        let joint :=
          if folded && last = ['\n'] && !blank && !startsBlank c then (if breaks.isEmpty then [' '] else [])
          else last
        lines folded indent fuel c breaks (text ++ joint)
      else (text, last, breaks, c)

/-- a block scalar behind its introducing character, where `indent` is that of the enclosing block -/
def scan (fuel : Nat) (folded : Bool) (indent : Int) (c : Cursor) : Except Failure (String × Cursor) := do
  let (header, c) ← header c
  let c ← emptyRest c
  let least := (max (indent + 1) 1).toNat
  let (breaks, indent, c) : List Char × Nat × Cursor := match header.increment with
    | none =>
      let (breaks, widest, c) := leading fuel c [] 0
      (breaks, max least widest, c)
    | some n =>
      let indent := least + n - 1
      let (breaks, c) := emptyLines indent fuel c []
      (breaks, indent, c)
  let (text, last, breaks, c) := lines folded indent fuel c breaks []
  let kept := match header.chomping with
    | .strip => []
    | .clip => last
    | .keep => last ++ breaks
  return (String.ofList (text ++ kept), c)

end CodecCompiler.Yaml.Token.Block
