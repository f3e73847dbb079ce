/-
Number layout: how decimals are written and read as text.

A decimal is written in positional notation while its first digit stands between the fifth place after the point and the
sixteenth before it, and with an exponent otherwise. A `Layout` holds what differs between the texts this project
writes: the JSON texts and the values quoted in messages.

- `Layout.float`: the text of a 64-bit number.
- `intDigits`: the text of an integer; `isLong`: one with too many digits to have a text.
-/
import CodecCompiler.Number.Shortest

namespace CodecCompiler

/-- the decimal text of an integer -/
def intDigits (n : Int) : List Char :=
  match n with
  | .ofNat m => Nat.toDigits 10 m
  | .negSucc m => '-' :: Nat.toDigits 10 (m + 1)

/-- the number of decimal digits that an integer may have where it is written or read as a text -/
def mostDigits : Nat := 4300

/-- has an integer too many digits to be written -/
def isLong (n : Int) : Bool := Nat.pow 10 mostDigits ≤ n.natAbs

/-- the decisions on the text of a number -/
structure Layout where
  /-- the least number of digits of an exponent -/
  exponentWidth : Nat
  nan : String
  infinity : String
  deriving Repr

namespace Layout

/-- numbers in JSON texts -/
def json : Layout := ⟨1, "NaN", "Infinity"⟩

/-- numbers quoted in a message -/
def message : Layout := ⟨2, "nan", "inf"⟩

/-- an exponent with its sign -/
def exponent (layout : Layout) (e : Int) : List Char :=
  let digits := Nat.toDigits 10 e.natAbs
  (if e < 0 then '-' else '+') :: (List.replicate (layout.exponentWidth - digits.length) '0' ++ digits)

/-- a decimal whose first digit stands at the power of ten `top` -/
def decimal (layout : Layout) (d : Decimal) : List Char :=
  let digits := Nat.toDigits 10 d.digits
  let top : Int := digits.length - 1 + d.exponent
  if top < -4 ∨ 16 ≤ top then
    let fraction := digits.drop 1
    digits.take 1 ++ (if fraction.isEmpty then [] else '.' :: fraction) ++ 'e' :: layout.exponent top
  else if top < 0 then '0' :: '.' :: (List.replicate ((-top).toNat - 1) '0' ++ digits)
  else
    let whole := top.toNat + 1
    let padded := digits ++ List.replicate (whole - digits.length) '0'
    let fraction := padded.drop whole
    padded.take whole ++ '.' :: (if fraction.isEmpty then ['0'] else fraction)

/-- the text of a 64-bit number: the shortest digits that read back, at least one of them after a point -/
def float (layout : Layout) (x : Binary64) : List Char :=
  match x.magnitude with
  | .nan => layout.nan.toList
  | .infinite => (if x.negative then ['-'] else []) ++ layout.infinity.toList
  | .finite m q => (if x.negative then ['-'] else []) ++ layout.decimal (Binary64.shortest m q)

end Layout

end CodecCompiler
