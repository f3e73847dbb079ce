/-
Quoted text, as messages show it: between single quotes, or between double quotes if the text has a single quote and no
double one. The backslash, the quote in use, line breaks, tabs and all that is not printable are escaped, by two, four
or eight hexadecimal digits where no letter stands for them. Halves of surrogate pairs are not printable.

- `quote` shows a text.
- `quoteOctets` shows octets, which may be no text at all.
-/
import CodecCompiler.Text.Basic
import CodecCompiler.Text.Printable

namespace CodecCompiler.Text

/-- the last `count` hexadecimal digits of a number -/
def lastHexDigits : (count : Nat) → Nat → List Char
  | 0, _ => []
  | count + 1, n => lastHexDigits count (n / 16) ++ [Nat.digitChar (n % 16)]

/-- the quote that needs fewer escapes -/
def quoteFor (cs : List Char) : Char := if '\'' ∈ cs ∧ '"' ∉ cs then '"' else '\''

/-- the escapes that are the same for text and for octets -/
def commonEscape? (mark : Char) (c : Char) : Option (List Char) :=
  if c = mark ∨ c = '\\' then some ['\\', c]
  else if c = '\n' then some ['\\', 'n']
  else if c = '\r' then some ['\\', 'r']
  else if c = '\t' then some ['\\', 't']
  else none

/-- a character between quotes -/
def quotedChar (mark c : Char) : List Char :=
  match commonEscape? mark c with
  | some escape => escape
  | none =>
    if isPrintable c then [c]
    else if c.toNat < 0x100 then '\\' :: 'x' :: lastHexDigits 2 c.toNat
    else if c.toNat < 0x10000 then '\\' :: 'u' :: lastHexDigits 4 c.toNat
    else '\\' :: 'U' :: lastHexDigits 8 c.toNat

/-- a code point between quotes -/
def quotedPoint (mark : Char) : CodePoint → List Char
  | .char c => quotedChar mark c
  | .half n => '\\' :: 'u' :: lastHexDigits 4 (CodePoint.firstHalf + n)

/-- a text between quotes -/
def quote (t : Text) : String :=
  let mark := quoteFor (t.points.filterMap CodePoint.char?)
  String.ofList (mark :: (t.points.flatMap (quotedPoint mark) ++ [mark]))

/-- octets between quotes, behind the letter that tells them from text -/
def quoteOctets (octets : List UInt8) : String :=
  let cs := octets.map fun o => Char.ofNat o.toNat
  let mark := quoteFor cs
  let shown (c : Char) : List Char :=
    match commonEscape? mark c with
    | some escape => escape
    | none => if 0x20 ≤ c.toNat ∧ c.toNat < 0x7F then [c] else '\\' :: 'x' :: lastHexDigits 2 c.toNat
  String.ofList ('b' :: mark :: (cs.flatMap shown ++ [mark]))

end CodecCompiler.Text
