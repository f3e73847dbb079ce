/-
Escaped characters of JSON strings. Writing keeps printable ASCII, except the quote and the backslash, and gives every
other character an escape, so that a written text is ASCII only; a character above U+FFFF is written as a pair of
surrogate escapes, and half of a pair that stands alone as a single one.

- `escapeChar` writes a character, `escape` any code point.
- `hexDigits` and `unitValue` write and read the four digits of a unit.
- `ofPair` joins the two halves of a pair.
-/
import CodecCompiler.Text.Basic
import CodecCompiler.Text.Digits

namespace CodecCompiler.Json.Escape

/-- the lower-case hexadecimal digit of a number below 16 -/
def hexDigit (n : Nat) : Char := Nat.digitChar n

/-- four hexadecimal digits -/
def hexDigits (n : Nat) : List Char :=
  [hexDigit (n / 4096 % 16), hexDigit (n / 256 % 16), hexDigit (n / 16 % 16), hexDigit (n % 16)]

/-- the escape of a 16-bit unit -/
def unit (n : Nat) : List Char := '\\' :: 'u' :: hexDigits n

/-- a character inside a string -/
def escapeChar (c : Char) : List Char :=
  if c = '"' then ['\\', '"']
  else if c = '\\' then ['\\', '\\']
  else if c = '\x08' then ['\\', 'b']
  else if c = '\x0c' then ['\\', 'f']
  else if c = '\n' then ['\\', 'n']
  else if c = '\r' then ['\\', 'r']
  else if c = '\t' then ['\\', 't']
  else if 0x20 ≤ c.toNat ∧ c.toNat < 0x80 then [c]
  else if c.toNat < 0x10000 then unit c.toNat
  else unit (0xD800 + (c.toNat - 0x10000) / 0x400) ++ unit (0xDC00 + (c.toNat - 0x10000) % 0x400)

/-- a code point inside a string -/
def escape : CodePoint → List Char
  | .char c => escapeChar c
  | .half n => unit (CodePoint.firstHalf + n)

/-- the unit written by four hexadecimal digits -/
def unitValue (a b c d : Char) : Option Nat := do
  let a ← Text.hexValue a
  let b ← Text.hexValue b
  let c ← Text.hexValue c
  let d ← Text.hexValue d
  return ((a * 16 + b) * 16 + c) * 16 + d

/-- the first half of a pair -/
def isHigh (n : Nat) : Bool := 0xD800 ≤ n ∧ n < 0xDC00

/-- the second half of a pair -/
def isLow (n : Nat) : Bool := 0xDC00 ≤ n ∧ n < 0xE000

/-- the character of a pair of units -/
def ofPair (high low : Nat) : Char := Char.ofNat (0x10000 + (high - 0xD800) * 0x400 + (low - 0xDC00))

/-- the character behind the backslash of a one-letter escape -/
def named? (c : Char) : Option Char :=
  match c with
  | '"' => some '"'
  | '\\' => some '\\'
  | '/' => some '/'
  | 'b' => some '\x08'
  | 'f' => some '\x0c'
  | 'n' => some '\n'
  | 'r' => some '\r'
  | 't' => some '\t'
  | _ => none

end CodecCompiler.Json.Escape
