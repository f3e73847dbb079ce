/-
Splitting a YAML text into tokens.

Indentation is kept on a stack: a deeper column opens a block collection, a shallower one closes all that are deeper. A
scalar or collection may turn out to be a simple key when a colon follows it on its line; where one may stand its place
is remembered, one for each level of brackets, and the key's mark is put in front of it afterwards.

- `State` is where the scanner is; `State.step` scans what comes next.
- `scan` splits a whole text. What cannot be split ends in a failure behind the tokens settled so far, so that what
  stands before it is judged first. A token is settled when no key's mark can be put in front of it any more.
- The fuel is the length of the text, since every step but the last takes a character.
-/
import CodecCompiler.Yaml.Token.Block
import CodecCompiler.Yaml.Token.Mark
import CodecCompiler.Yaml.Token.Plain
import CodecCompiler.Yaml.Token.Quoted

namespace CodecCompiler.Yaml.Token

/-- a place where a simple key may begin -/
structure Candidate where
  /-- the number of tokens before it -/
  position : Nat
  /-- must it be a key, since nothing else may stand at that column -/
  required : Bool
  index : Nat
  line : Nat
  column : Nat
  deriving Repr

structure State where
  cursor : Cursor
  tokens : Array Token := #[]
  /-- the column of the innermost block collection, one left of the first outside of all -/
  indent : Int := -1
  /-- the columns of the enclosing ones -/
  indents : List Int := []
  /-- the candidates at each level of brackets, the innermost first -/
  candidates : List (Option Candidate) := [none]
  /-- may a simple key begin here -/
  allowKey : Bool := true
  deriving Repr

abbrev Scan := Except Failure State

namespace State

/-- is the scanner inside brackets -/
def inFlow (s : State) : Bool := s.candidates.length > 1

def push (s : State) (t : Token) : State := { s with tokens := s.tokens.push t }

/-- puts a token in front of the one at a position -/
def insert (s : State) (position : Nat) (t : Token) : State :=
  { s with tokens := s.tokens.extract 0 position ++ #[t] ++ s.tokens.extract position s.tokens.size }

/-- steps over `n` characters and adds a token -/
def take (s : State) (n : Nat) (t : Token) : State := { s.push t with cursor := s.cursor.skip n }

/-! ## Candidates for simple keys -/

/-- gives up a candidate, which must not be a required one -/
def dropCandidate : Option Candidate → Except Failure (Option Candidate)
  | some k => if k.required then .error .malformed else .ok none
  | none => .ok none

/-- gives up the candidate at this level -/
def forget (s : State) : Scan :=
  match s.candidates with
  | k :: ks => do return { s with candidates := (← dropCandidate k) :: ks }
  | [] => .ok s

/-- remembers that a simple key may begin here -/
def remember (s : State) : Scan :=
  if s.allowKey then do
    let s ← s.forget
    let c := s.cursor
    let k : Candidate := ⟨s.tokens.size, !s.inFlow && s.indent = c.column, c.index, c.line, c.column⟩
    return { s with candidates := some k :: s.candidates.drop 1 }
  else .ok s

/-- gives up the candidates that are on another line or too far back -/
def forgetStale (s : State) : Scan := do
  let keep (k : Option Candidate) : Except Failure (Option Candidate) :=
    match k with
    | some k =>
      if k.line ≠ s.cursor.line ∨ s.cursor.index - k.index > 1024 then dropCandidate (some k) else .ok (some k)
    | none => .ok none
  return { s with candidates := ← s.candidates.mapM keep }

/-! ## Indentation -/

/-- closes the block collections that are deeper than a column -/
def closeDeeper : (indents : List Int) → Int → State → State
  | [], column, s => if s.indent > column ∧ !s.inFlow then { s.push .blockEnd with indent := -1 } else s
  | outer :: indents, column, s =>
    if s.indent > column ∧ !s.inFlow then
      closeDeeper indents column { s.push .blockEnd with indent := outer, indents := indents }
    else s

def unwind (s : State) (column : Int) : State := closeDeeper s.indents column s

/-- opens a block collection at a column if it is deeper; tells whether it did -/
def deepen (s : State) (column : Nat) : Bool × State :=
  if s.indent < column then (true, { s with indent := column, indents := s.indent :: s.indents }) else (false, s)

/-! ## Tokens -/

/-- ends all block collections before something that stands outside of them -/
def leaveBlocks (s : State) : Scan := do
  let s ← (s.unwind (-1)).forget
  return { s with allowKey := false }

def streamEnd (s : State) : Scan := do return (← s.leaveBlocks).push .streamEnd

def directive (fuel : Nat) (s : State) : Scan := do
  let s ← s.leaveBlocks
  let (t, c) ← Mark.directive fuel s.cursor
  return { s.push t with cursor := c }

def documentMark (s : State) (t : Token) : Scan := do return (← s.leaveBlocks).take 3 t

def flowStart (s : State) (t : Token) : Scan := do
  let s ← s.remember
  return { s.take 1 t with candidates := none :: s.candidates, allowKey := true }

def flowEnd (s : State) (t : Token) : Scan := do
  let s ← s.forget
  let outer := s.candidates.drop 1
  return { s.take 1 t with candidates := if outer.isEmpty then [none] else outer, allowKey := false }

def flowEntry (s : State) : Scan := do return ({ ← s.forget with allowKey := true }).take 1 .flowEntry

/-- opens a block collection in front of an entry or key, where one may begin -/
def openBlock (s : State) (start : Token) : Scan :=
  if s.inFlow then .ok s
  else if !s.allowKey then .error .malformed
  else
    let (deeper, s) := s.deepen s.cursor.column
    .ok (if deeper then s.push start else s)

def blockEntry (s : State) : Scan := do
  let s ← (← s.openBlock .blockSequenceStart).forget
  return ({ s with allowKey := true }).take 1 .blockEntry

def key (s : State) : Scan := do
  let s ← (← s.openBlock .blockMappingStart).forget
  return ({ s with allowKey := !s.inFlow }).take 1 .key

/-- a colon: what the candidate begins is a key, or the value has no key -/
def value (s : State) : Scan := do
  match s.candidates with
  | some k :: ks =>
    let s := ({ s with candidates := none :: ks }).insert k.position .key
    let (deeper, s) := if s.inFlow then (false, s) else s.deepen k.column
    let s := if deeper then s.insert k.position .blockMappingStart else s
    return ({ s with allowKey := false }).take 1 .value
  | _ =>
    let s ← s.openBlock .blockMappingStart
    return (← ({ s with allowKey := !s.inFlow }).forget).take 1 .value

/-- adds a token that may begin a simple key -/
def node (s : State) (scanned : State → Except Failure (Token × Cursor)) : Scan := do
  let s ← s.remember
  let (t, c) ← scanned s
  return { s.push t with cursor := c, allowKey := false }

def blockScalar (fuel : Nat) (s : State) (folded : Bool) : Scan := do
  let s ← ({ s with allowKey := true }).forget
  let (text, c) ← Block.scan fuel folded s.indent s.cursor.next
  return { s.push (.scalar (.ofString text) false) with cursor := c }

def quoted (fuel : Nat) (s : State) (double : Bool) : Scan :=
  s.node fun s => do
    let (text, c) ← Quoted.scan fuel double s.cursor
    return (.scalar text false, c)

def plain (fuel : Nat) (s : State) : Scan := do
  let s ← s.remember
  let (text, broken, c) := Plain.scan fuel s.inFlow s.indent s.cursor
  return { s.push (.scalar (.ofString text) true) with cursor := c, allowKey := broken }

def named (s : State) (make : String → Token) : Scan :=
  s.node fun s => do
    let (name, c) ← Mark.anchorName s.cursor.next
    return (make name, c)

/-! ## Steps -/

/-- skips spaces, comments and line breaks; a key may begin on a new line outside of brackets -/
def skipToToken : (fuel : Nat) → State → State
  | 0, s => s
  | fuel + 1, s =>
    let c := s.cursor.skipWhile (· = ' ')
    let c := if c.peek = '#' then c.skipWhile (!isBreakOrEnd ·) else c
    match c.lineBreak? with
    | some (_, c) => skipToToken fuel { s with cursor := c, allowKey := s.allowKey || !s.inFlow }
    | none => { s with cursor := c }

/-- a byte-order mark at the front of the text is skipped -/
def skipOrderMark (s : State) : State :=
  if s.cursor.index = 0 ∧ s.cursor.peek = '\ufeff' then { s with cursor := s.cursor.next } else s

/-- scans what comes next -/
def step (fuel : Nat) (s : State) : Scan := do
  let s := skipToToken fuel s.skipOrderMark
  let s := (← s.forgetStale).unwind s.cursor.column
  let c := s.cursor
  let blankBehind := isBlankOrEnd (c.peekAt 1)
  if c.atEnd then s.streamEnd
  else if c.peek = '%' ∧ c.column = 0 then directive fuel s
  else if c.column = 0 ∧ c.atSeparator '-' then s.documentMark .documentStart
  else if c.column = 0 ∧ c.atSeparator '.' then s.documentMark .documentEnd
  else
    match c.peek with
    | '[' => s.flowStart .flowSequenceStart
    | '\x7b' => s.flowStart .flowMappingStart
    | ']' => s.flowEnd .flowSequenceEnd
    | '\x7d' => s.flowEnd .flowMappingEnd
    | ',' => s.flowEntry
    | '*' => s.named .alias
    | '&' => s.named .anchor
    | '!' => s.node fun s => Mark.tag fuel s.cursor
    | '\'' => quoted fuel s false
    | '"' => quoted fuel s true
    | ch =>
      if ch = '-' ∧ blankBehind then s.blockEntry
      else if ch = '?' ∧ (s.inFlow ∨ blankBehind) then s.key
      else if ch = ':' ∧ (s.inFlow ∨ blankBehind) then s.value
      else if ch = '|' ∧ !s.inFlow then blockScalar fuel s false
      else if ch = '>' ∧ !s.inFlow then blockScalar fuel s true
      else if Plain.starts s.inFlow c then plain fuel s
      else throw .malformed

/-- is the whole text split -/
def isDone (s : State) : Bool := s.tokens.back? = some .streamEnd

/-- scans what comes next, and gives up the candidates that it leaves too far back -/
def advance (fuel : Nat) (s : State) : Scan := do
  let s ← s.step fuel
  if s.isDone then return s else s.forgetStale

/-- the number of tokens in front of the first candidate, which no key's mark can come between any more -/
def settled (s : State) : Nat := (s.candidates.filterMap fun k => k.map (·.position)).foldl min s.tokens.size

/-- the settled tokens, and a failure behind them -/
def failed (s : State) (f : Failure) : Array Token := (s.tokens.extract 0 s.settled).push (.failure f)

/-- scans to the end of the text or the first failure -/
def steps (fuel : Nat) : (count : Nat) → State → Array Token
  | 0, s => s.failed .malformed
  | count + 1, s =>
    match s.advance fuel with
    | .error f => s.failed f
    | .ok s => if s.isDone then s.tokens else steps fuel count s

end State

/-- the tokens of a text -/
def scan (cs : List Char) : List Token :=
  let fuel := cs.length + 1
  (State.steps fuel (fuel + 1) { cursor := { rest := cs } }).toList

end CodecCompiler.Yaml.Token
