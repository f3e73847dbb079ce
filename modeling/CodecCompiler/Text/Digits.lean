/-
Digits: the values of ASCII digits in bases up to sixteen, and the decimal digits of all scripts in Unicode 14. Each
script that counts by ten has its digits from zero to nine side by side, so that the places of the zeros are enough.

- `hexValue` is the value of a digit, `numeral?` that of digits one after another.
- `plainDigit` gives the ASCII digit of the same value.
-/

namespace CodecCompiler.Text

/-! ## Values -/

/-- the value of a hexadecimal digit of either case -/
def hexValue (c : Char) : Option Nat :=
  if '0' ≤ c ∧ c ≤ '9' then some (c.toNat - '0'.toNat)
  else if 'a' ≤ c ∧ c ≤ 'f' then some (c.toNat - 'a'.toNat + 10)
  else if 'A' ≤ c ∧ c ≤ 'F' then some (c.toNat - 'A'.toNat + 10)
  else none

/-- the number that digits of a base stand for, the highest first -/
def numeral? (base : Nat) (cs : List Char) : Option Nat :=
  cs.foldlM (fun n c => (hexValue c).bind fun d => if d < base then some (n * base + d) else none) 0

/-! ## Scripts -/

/-- the code points of the zeros -/
def zeros : List Nat := [
  0x30, 0x660, 0x6F0, 0x7C0, 0x966, 0x9E6, 0xA66, 0xAE6, 0xB66, 0xBE6, 0xC66, 0xCE6, 0xD66, 0xDE6, 0xE50, 0xED0, 0xF20,
  0x1040, 0x1090, 0x17E0, 0x1810, 0x1946, 0x19D0, 0x1A80, 0x1A90, 0x1B50, 0x1BB0, 0x1C40, 0x1C50, 0xA620, 0xA8D0,
  0xA900, 0xA9D0, 0xA9F0, 0xAA50, 0xABF0, 0xFF10, 0x104A0, 0x10D30, 0x11066, 0x110F0, 0x11136, 0x111D0, 0x112F0,
  0x11450, 0x114D0, 0x11650, 0x116C0, 0x11730, 0x118E0, 0x11950, 0x11C50, 0x11D50, 0x11DA0, 0x16A60, 0x16AC0, 0x16B50,
  0x1D7CE, 0x1D7D8, 0x1D7E2, 0x1D7EC, 0x1D7F6, 0x1E140, 0x1E2F0, 0x1E950, 0x1FBF0]

/-- a digit of any script as one of ASCII; other characters stay as they are -/
def plainDigit (c : Char) : Char :=
  if c.toNat < 0x80 then c
  else
    match zeros.find? fun first => first ≤ c.toNat && c.toNat < first + 10 with
    | some first => Nat.digitChar (c.toNat - first)
    | none => c

end CodecCompiler.Text
