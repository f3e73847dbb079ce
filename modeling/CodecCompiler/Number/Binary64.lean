/-
Binary64: 64-bit floating-point numbers, told apart by their bits, so that a value read from a text is the value
written. A finite number is a sign and `m * 2 ^ q`; all comparing and rounding is done on these natural numbers.

- `Binary64.magnitude` takes a number apart.
- `Binary64.nearest` is the number closest to a ratio, ties to the even significand.
- `Binary64.ofDecimal` reads decimal digits and a power of ten.
- `Binary64.toInt?` is the integer that a number equals.
-/

namespace CodecCompiler

/-- a 64-bit floating-point number by its bits: sign, eleven of exponent, fifty-two of fraction -/
structure Binary64 where
  bits : UInt64
  deriving DecidableEq, Repr, Inhabited

namespace Binary64

/-- what a number is, apart from its sign -/
inductive Magnitude where
  | nan
  | infinite
  /-- the number `m * 2 ^ q` -/
  | finite (m : Nat) (q : Int)
  deriving DecidableEq, Repr

/-- is the sign bit set -/
def negative (x : Binary64) : Bool := x.bits.toNat / 0x8000000000000000 = 1

def magnitude (x : Binary64) : Magnitude :=
  let exponent : Nat := x.bits.toNat / 0x10000000000000 % 0x800
  let fraction : Nat := x.bits.toNat % 0x10000000000000
  if exponent = 0x7FF then if fraction = 0 then .infinite else .nan
  else if exponent = 0 then .finite fraction (-1074)
  else .finite (0x10000000000000 + fraction) ((exponent : Int) - 1075)

/-- the number with a sign and the remaining 63 bits -/
def ofSigned (negative : Bool) (rest : Nat) : Binary64 :=
  ⟨UInt64.ofNat (if negative then 0x8000000000000000 + rest else rest)⟩

def infinity (negative : Bool) : Binary64 := ofSigned negative 0x7FF0000000000000

def nan : Binary64 := ofSigned false 0x7FF8000000000000

def zero : Binary64 := ofSigned false 0

/-- the quotient of two natural numbers rounded to the nearest, a tie to the even one -/
def roundedQuotient (num den : Nat) : Nat :=
  let quotient := num / den
  let twice := 2 * (num % den)
  if twice < den then quotient
  else if twice > den then quotient + 1
  else if quotient % 2 = 0 then quotient else quotient + 1

/-- `num / 2 ^ q` as a ratio -/
def scaled (num den : Nat) (q : Int) : Nat × Nat :=
  if 0 ≤ q then (num, den * Nat.pow 2 q.toNat) else (num * Nat.pow 2 (-q).toNat, den)

/-- the number closest to `num / den`, a tie to the even significand; infinite from half a step above the greatest -/
def nearest (negative : Bool) (num den : Nat) : Binary64 :=
  if num = 0 then ofSigned negative 0
  else
    let low : Int := max (Int.ofNat num.log2 - Int.ofNat den.log2 - 53) (-1074)
    let coarse := scaled num den low
    let q := if coarse.1 / coarse.2 ≥ 0x20000000000000 then low + 1 else low
    let ratio := scaled num den q
    let rest := (q + 1074).toNat * 0x10000000000000 + roundedQuotient ratio.1 ratio.2
    if rest ≥ 0x7FF0000000000000 then infinity negative else ofSigned negative rest

/-- the number closest to `digits * 10 ^ exponent` -/
def ofDecimal (negative : Bool) (digits : Nat) (exponent : Int) : Binary64 :=
  let size : Int := (Nat.toDigits 10 digits).length + exponent
  if digits = 0 ∨ size < -400 then ofSigned negative 0
  else if size > 400 then infinity negative
  else if 0 ≤ exponent then nearest negative (digits * Nat.pow 10 exponent.toNat) 1
  else nearest negative digits (Nat.pow 10 (-exponent).toNat)

/-- the integer that a number equals, if any -/
def toInt? (x : Binary64) : Option Int :=
  match x.magnitude with
  | .nan | .infinite => none
  | .finite m q =>
    let signed (n : Nat) : Int := if x.negative then -(n : Int) else n
    if 0 ≤ q then some (signed (m * Nat.pow 2 q.toNat))
    else if m % Nat.pow 2 (-q).toNat = 0 then some (signed (m / Nat.pow 2 (-q).toNat)) else none

/-- equality as numbers: both zeros are equal, and nothing equals a NaN -/
def numEq (x y : Binary64) : Bool :=
  x.magnitude ≠ .nan && (x = y || (x.toInt? = some 0 && y.toInt? = some 0))

end Binary64

end CodecCompiler
