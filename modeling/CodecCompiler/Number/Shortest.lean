/-
Shortest decimals: the fewest digits that read back as the same 64-bit number, and of those the nearest to it.

The reals that round to `m * 2 ^ q` form an interval whose ends belong to it when `m` is even. For one digit, two,
and so on up to seventeen, the number's two neighbours on that decimal grid are tested against the interval; the first
grid with a hit wins, and of two hits the nearer one.

- `Decimal` is a signless decimal, digits and a power of ten.
- `Binary64.shortest` chooses it for `m * 2 ^ q`.
-/
import CodecCompiler.Number.Binary64

namespace CodecCompiler

/-- the decimal `digits * 10 ^ exponent` -/
structure Decimal where
  digits : Nat
  exponent : Int
  deriving DecidableEq, Repr, Inhabited

namespace Decimal

/-- drops the zeros at the end of the digits, at most `fuel` of them -/
def trimmed : Nat → Decimal → Decimal
  | 0, d => d
  | fuel + 1, d =>
    if d.digits ≠ 0 ∧ d.digits % 10 = 0 then trimmed fuel ⟨d.digits / 10, d.exponent + 1⟩ else d

end Decimal

namespace Binary64

/-- a number `value / den` with the ends of the interval that rounds to it, over the same denominator -/
structure Interval where
  value : Nat
  low : Nat
  high : Nat
  den : Nat
  /-- do the ends belong to it -/
  closed : Bool
  deriving Repr

/-- the reals that round to `m * 2 ^ q`; below a power of two the lower half step is half as long -/
def interval (m : Nat) (q : Int) : Interval :=
  let up := Nat.pow 2 (q - 2).toNat
  let down := Nat.pow 2 (2 - q).toNat
  let below := if m = 0x10000000000000 ∧ q > -1074 then 1 else 2
  ⟨4 * m * up, (4 * m - below) * up, (4 * m + 2) * up, down, m % 2 = 0⟩

/-- the power of ten of the first digit of an interval's value -/
def leadingPower (i : Interval) : Int :=
  Int.ofNat (Nat.toDigits 10 (i.value * Nat.pow 10 400 / i.den)).length - 401

/-- the interval's numbers in units of `10 ^ exponent` -/
def Interval.inUnits (i : Interval) (exponent : Int) : Interval :=
  if 0 ≤ exponent then { i with den := i.den * Nat.pow 10 exponent.toNat }
  else
    let factor := Nat.pow 10 (-exponent).toNat
    { i with value := i.value * factor, low := i.low * factor, high := i.high * factor }

/-- the multiple of `10 ^ exponent` that rounds to the value, the nearer one if there are two -/
def onGrid? (i : Interval) (exponent : Int) : Option Nat :=
  let i := i.inUnits exponent
  let below := i.value / i.den
  let above := below + 1
  let belowHits : Bool := if i.closed then i.low ≤ below * i.den else i.low < below * i.den
  let aboveHits : Bool := if i.closed then above * i.den ≤ i.high else above * i.den < i.high
  let toBelow := i.value - below * i.den
  let toAbove := above * i.den - i.value
  match belowHits, aboveHits with
  | true, true =>
    if toBelow < toAbove then some below
    else if toAbove < toBelow then some above
    else if below % 2 = 0 then some below else some above
  | true, false => some below
  | false, true => some above
  | false, false => none

/-- the shortest decimal that reads back as `m * 2 ^ q` -/
def shortest (m : Nat) (q : Int) : Decimal :=
  if m = 0 then ⟨0, 0⟩
  else
    let i := interval m q
    let top := leadingPower i
    let found := (List.range 17).findSome? fun k =>
      (onGrid? i (top - Int.ofNat k)).map fun n => (⟨n, top - Int.ofNat k⟩ : Decimal)
    (found.getD ⟨0, 0⟩).trimmed 20

end Binary64

end CodecCompiler
