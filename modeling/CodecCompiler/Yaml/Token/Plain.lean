/-
Plain scalars: texts without quotes. They end at a colon with a blank behind it, at a comment, at a separator of
documents, inside brackets also at the characters that structure them, and inside a block at a line that is indented
less than the block. Line breaks fold as between quotes.
-/
import CodecCompiler.Yaml.Cursor
import CodecCompiler.Yaml.Token

namespace CodecCompiler.Yaml.Token.Plain

/-- may a plain scalar begin with the character here -/
def starts (inFlow : Bool) (c : Cursor) : Bool :=
  let ch := c.peek
  !(isBlankOrEnd ch || ch ∈ "-?:,[]\x7b\x7d#&*!|>'\"%@\x60".toList)
    || (!isBlankOrEnd (c.peekAt 1) && (ch = '-' || (!inFlow && (ch = '?' || ch = ':'))))

/-- does the text end before the first of these characters -/
def endsAt (inFlow : Bool) : List Char → Bool
  | [] => true
  | ch :: rest =>
    isBlankOrEnd ch
      || (ch = ':' && (isBlankOrEnd (rest.headD endMark)
        || (inFlow && (rest.headD endMark) ∈ ",[]\x7b\x7d".toList)))
      || (inFlow && ch ∈ ",?[]\x7b\x7d".toList)

/-- the characters up to a blank or the end of the text -/
def word (inFlow : Bool) : List Char → List Char
  | [] => []
  | ch :: rest => if endsAt inFlow (ch :: rest) then [] else ch :: word inFlow rest

/-- the line breaks here and the spaces between them, unless a separator of documents begins a line -/
def breaks : (fuel : Nat) → Cursor → List Char → Option (List Char) × Cursor
  | 0, c, found => (some found, c)
  | fuel + 1, c, found =>
    let c := c.skipWhile (· = ' ')
    match c.lineBreak? with
    | none => (some found, c)
    | some (ch, c) => if c.atAnySeparator then (none, c) else breaks fuel c (found ++ [ch])

/-- what stands between two words -/
structure Gap where
  /-- the text it becomes; empty if the scalar ends here -/
  text : List Char
  /-- does it hold a line break -/
  broken : Bool
  deriving Repr

/-- the spaces behind a word, where a line may end -/
def gap (fuel : Nat) (c : Cursor) : Gap × Cursor :=
  let (spaces, c) := c.span (· = ' ')
  match c.lineBreak? with
  | none => (⟨spaces, false⟩, c)
  | some (ch, c) =>
    if c.atAnySeparator then (⟨[], true⟩, c)
    else
      match breaks fuel c [] with
      | (none, c) => (⟨[], true⟩, c)
      | (some more, c) =>
        let first := if ch ≠ '\n' then [ch] else if more.isEmpty then [' '] else []
        (⟨first ++ more, true⟩, c)

/-- the words from here on; tells whether the scalar ended on a new line -/
def words (inFlow : Bool) (indent : Int) : (fuel : Nat) → Cursor → (between found : List Char) → (broken : Bool) →
    List Char × Bool × Cursor
  | 0, c, _, found, broken => (found, broken, c)
  | fuel + 1, c, between, found, broken =>
    let taken := if c.peek = '#' then [] else word inFlow c.rest
    if taken.isEmpty then (found, broken, c)
    else
      let (gap, c) := gap fuel (c.skip taken.length)
      let found := found ++ between ++ taken
      if gap.text.isEmpty || c.peek = '#' || (!inFlow && (c.column : Int) < indent) then (found, gap.broken, c)
      else words inFlow indent fuel c gap.text found gap.broken

/-- a plain scalar, where `indent` is that of the enclosing block; the flag tells whether it ended on a new line -/
def scan (fuel : Nat) (inFlow : Bool) (indent : Int) (c : Cursor) : String × Bool × Cursor :=
  let (found, broken, c) := words inFlow (indent + 1) fuel c [] [] false
  (String.ofList found, broken, c)

end CodecCompiler.Yaml.Token.Plain
