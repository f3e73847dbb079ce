/-
Marks of nodes and of the stream: anchors, aliases, tags and directives.

- `anchorName` reads the name of an anchor or alias, `tag` a tag, `directive` a directive.
- In tags, octets may be given by two hexadecimal digits behind a percent sign; together they have to be UTF-8.
-/
import CodecCompiler.Number.Layout
import CodecCompiler.Text.Digits
import CodecCompiler.Text.Utf8
import CodecCompiler.Yaml.Cursor
import CodecCompiler.Yaml.Token

namespace CodecCompiler.Yaml.Token.Mark

/-- the name of an anchor or alias, behind its mark -/
def anchorName (c : Cursor) : Except Failure (String × Cursor) :=
  let (name, c) := c.span isWordChar
  if name.isEmpty then .error .malformed
  else if isBlankOrEnd c.peek || c.peek ∈ "?:,]\x7d%@\x60".toList then .ok (String.ofList name, c)
  else .error .malformed

/-! ## Tags -/

/-- the characters of a tag that stand for themselves -/
def isTagChar (c : Char) : Bool :=
  isWordChar c || c ∈ ";/?:@&=+$,.!~*'()[]".toList

/-- the octets given behind percent signs -/
def escapedOctets : List Char → List UInt8 → Option (List UInt8 × List Char)
  | '%' :: a :: b :: rest, found =>
    match Text.hexValue a, Text.hexValue b with
    | some a, some b => escapedOctets rest (found ++ [UInt8.ofNat (a * 16 + b)])
    | _, _ => none
  | ['%'], _ | ['%', _], _ => none
  | rest, found => some (found, rest)

/-- the text of a tag's characters and escapes -/
def tagText : (fuel : Nat) → Cursor → List Char → Except Failure (List Char × Cursor)
  | 0, _, _ => .error .malformed
  | fuel + 1, c, found =>
    let (plain, c) := c.span isTagChar
    let found := found ++ plain
    if c.peek = '%' then
      match escapedOctets c.rest [] with
      | none => .error .malformed
      | some (octets, rest) =>
        match Text.Utf8.decode octets with
        | .error _ => .error .malformed
        | .ok s => tagText fuel (c.skip (c.rest.length - rest.length)) (found ++ s.toList)
    else .ok (found, c)

/-- the text of a tag, which must not be empty -/
def tagText? (fuel : Nat) (c : Cursor) : Except Failure (String × Cursor) := do
  let start := c.index
  let (found, c) ← tagText fuel c []
  if c.index = start then .error .malformed else return (String.ofList found, c)

/-- a handle: an exclamation mark, or a word between two of them -/
def handle (c : Cursor) : Except Failure (String × Cursor) :=
  if c.peek ≠ '!' then .error .malformed
  else if c.peekAt 1 = ' ' then .ok ("!", c.next)
  else
    let (name, behind) := c.next.span isWordChar
    if behind.peek = '!' then .ok (String.ofList ('!' :: (name ++ ['!'])), behind.next) else .error .malformed

/-- does a handle of its own stand in front: another exclamation mark before the tag ends -/
def hasHandle (c : Cursor) : Bool := ((c.rest.drop 1).takeWhile fun ch => !isSpaceOrEnd ch).contains '!'

/-- a tag, from its exclamation mark on -/
def tag (fuel : Nat) (c : Cursor) : Except Failure (Token × Cursor) := do
  let (found, c) ←
    if c.peekAt 1 = '<' then do
      let (suffix, c) ← tagText? fuel (c.skip 2)
      if c.peek = '>' then pure (Token.tag none suffix, c.next) else throw .malformed
    else if isBlankOrEnd (c.peekAt 1) then pure (Token.tag none "!", c.next)
    else do
      let (handle, c) ← if hasHandle c then handle c else pure ("!", c.next)
      let (suffix, c) ← tagText? fuel c
      pure (Token.tag (some handle) suffix, c)
  if isSpaceOrEnd c.peek then return (found, c) else throw .malformed

/-! ## Directives -/

/-- a natural number -/
def number (c : Cursor) : Except Failure (Nat × Cursor) :=
  let (digits, c) := c.span isDigit
  if digits.isEmpty then .error .malformed
  else if mostDigits < digits.length then .error .noValue
  else .ok (Nat.ofDigitChars 10 digits 0, c)

/-- a version: two numbers with a point between -/
def version (c : Cursor) : Except Failure (Directive × Cursor) := do
  let (major, c) ← number (c.skipWhile (· = ' '))
  if c.peek ≠ '.' then throw .malformed
  let (_, c) ← number c.next
  if isSpaceOrEnd c.peek then return (.version major, c) else throw .malformed

/-- what a handle stands for -/
def handleMeaning (fuel : Nat) (c : Cursor) : Except Failure (Directive × Cursor) := do
  let (name, c) ← handle (c.skipWhile (· = ' '))
  if c.peek ≠ ' ' then throw .malformed
  let (start, c) ← tagText? fuel (c.skipWhile (· = ' '))
  if isSpaceOrEnd c.peek then return (.handle name start, c) else throw .malformed

/-- the end of a directive's line, where only a comment may stand -/
def lineEnd (c : Cursor) : Except Failure Cursor :=
  let c := c.skipWhile (· = ' ')
  let c := if c.peek = '#' then c.skipWhile (!isBreakOrEnd ·) else c
  if c.atEnd then .ok c
  else
    match c.lineBreak? with
    | some (_, c) => .ok c
    | none => .error .malformed

/-- a directive, from its percent sign on -/
def directive (fuel : Nat) (c : Cursor) : Except Failure (Token × Cursor) := do
  let (name, c) := c.next.span isWordChar
  if name.isEmpty || !isSpaceOrEnd c.peek then throw .malformed
  let (found, c) ← match String.ofList name with
    | "YAML" => version c
    | "TAG" => handleMeaning fuel c
    | _ => pure (Directive.other, c.skipWhile (!isBreakOrEnd ·))
  return (.directive found, ← lineEnd c)

end CodecCompiler.Yaml.Token.Mark
