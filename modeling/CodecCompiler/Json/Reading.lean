/-
Reading JSON texts. The dialect is wider than the standard: numbers may have leading zeros, a fraction without digits
or no digits at all before the fraction if a minus sign stands there (a lone minus is zero), `NaN`, `Infinity` and
`-Infinity` are numbers, and strings may hold control characters other than U+0000. A name that occurs twice in an
object has its last value at its first place. The escapes of a surrogate pair are one character, and half of a pair
that stands alone stays so. An integer of too many digits is refused, unless it is small and has zeros in front.

- `Json.read` reads a whole text; blanks may stand around the value, nothing else. The first fault counts.
- The fuel of the recursion is the length of the text, more than any value in it needs.
-/
import CodecCompiler.Json.Basic
import CodecCompiler.Json.Escape
import CodecCompiler.Number.Layout

namespace CodecCompiler.Json

/-- why a text has no value -/
inductive ReadError where
  | malformed
  /-- an integer has too many digits -/
  | longNumber
  deriving DecidableEq, Repr

namespace Reading

/-- what was read, and the characters behind it -/
abbrev Read (α : Type) := Except ReadError (α × List Char)

/-- blanks between tokens -/
def isBlank (c : Char) : Bool := c = ' ' || c = '\t' || c = '\r' || c = '\n'

def skipBlanks (cs : List Char) : List Char := cs.dropWhile isBlank

/-- a decimal digit -/
def isDigit (c : Char) : Bool := '0' ≤ c && c ≤ '9'

/-- the digits at the front and what follows them -/
def digits (cs : List Char) : List Char × List Char := (cs.takeWhile isDigit, cs.dropWhile isDigit)

/-- a value that is spelled by the rest of a word -/
def word (value : Json) : List Char → List Char → Read Json
  | [], cs => .ok (value, cs)
  | w :: ws, c :: cs => if w = c then word value ws cs else .error .malformed
  | _ :: _, [] => .error .malformed

/-! ## Strings -/

/-- the code points up to the closing quote -/
def stringBody : List Char → Read (List CodePoint)
  | [] => .error .malformed
  | '"' :: rest => .ok ([], rest)
  | '\\' :: 'u' :: a :: b :: c :: d :: '\\' :: 'u' :: e :: f :: g :: h :: rest =>
    match Escape.unitValue a b c d with
    | none => .error .malformed
    | some unit =>
      match if Escape.isHigh unit then (Escape.unitValue e f g h).filter Escape.isLow else none with
      | some low => (stringBody rest).map fun r => (.char (Escape.ofPair unit low) :: r.1, r.2)
      | none =>
        (stringBody ('\\' :: 'u' :: e :: f :: g :: h :: rest)).map fun r => (CodePoint.ofNat unit :: r.1, r.2)
  | '\\' :: 'u' :: a :: b :: c :: d :: rest =>
    match Escape.unitValue a b c d with
    | none => .error .malformed
    | some unit => (stringBody rest).map fun r => (CodePoint.ofNat unit :: r.1, r.2)
  | '\\' :: c :: rest =>
    match Escape.named? c with
    | none => .error .malformed
    | some c => (stringBody rest).map fun r => (.char c :: r.1, r.2)
  | c :: rest =>
    if c = '\x00' || c = '\\' then .error .malformed else (stringBody rest).map fun r => (.char c :: r.1, r.2)

/-- a string whose opening quote is gone -/
def string (cs : List Char) : Read Text := (stringBody cs).map fun r => (⟨r.1⟩, r.2)

/-! ## Numbers -/

/-- the exponent behind an `e`: a sign if there is one, and at least one digit -/
def exponent (cs : List Char) : Read Int :=
  let (negative, cs) : Bool × List Char :=
    match cs with
    | '-' :: rest => (true, rest)
    | '+' :: rest => (false, rest)
    | _ => (false, cs)
  let (ds, rest) := digits cs
  if ds.isEmpty then .error .malformed
  else
    let n : Int := Nat.ofDigitChars 10 ds 0
    .ok (if negative then -n else n, rest)

/-- the integer of decimal digits; of those beyond 64 bits all digits count, also zeros in front -/
def integer (negative : Bool) (digits : List Char) : Except ReadError Int :=
  let n : Int := Nat.ofDigitChars 10 digits 0
  if 0x8000000000000000 ≤ n ∧ mostDigits < digits.length then .error .longNumber
  else .ok (if negative then -n else n)

/-- a number without its sign: an integer, or a float when a point or an exponent follows -/
def unsigned (negative : Bool) (cs : List Char) : Read Json :=
  let (whole, rest) := digits cs
  let float (fraction : List Char) (rest : List Char) : Read Json :=
    if whole.isEmpty && fraction.isEmpty then .error .malformed
    else
      let mantissa := Nat.ofDigitChars 10 (whole ++ fraction) 0
      match rest with
      | 'e' :: rest | 'E' :: rest =>
        (exponent rest).map fun r => (.float (.ofDecimal negative mantissa (r.1 - fraction.length)), r.2)
      | _ => .ok (.float (.ofDecimal negative mantissa (-fraction.length)), rest)
  match rest with
  | '.' :: rest =>
    let (fraction, rest) := digits rest
    float fraction rest
  | 'e' :: _ | 'E' :: _ => float [] rest
  | _ => (integer negative whole).map fun n => (.int n, rest)

/-- a number, from its sign or first digit on -/
def number (cs : List Char) : Read Json :=
  match cs with
  | '-' :: 'I' :: rest => word (.float (.infinity true)) "nfinity".toList rest
  | '-' :: rest => unsigned true rest
  | _ => unsigned false cs

/-! ## Values -/

mutual

/-- a value, blanks before it skipped -/
def value : Nat → List Char → Read Json
  | 0, _ => .error .malformed
  | fuel + 1, cs =>
    match skipBlanks cs with
    | [] => .error .malformed
    | '"' :: rest => (string rest).map fun r => (.str r.1, r.2)
    | '[' :: rest =>
      match skipBlanks rest with
      | ']' :: rest => .ok (.arr [], rest)
      | rest => (items fuel rest).map fun r => (.arr r.1, r.2)
    | '\x7b' :: rest =>
      match skipBlanks rest with
      | '\x7d' :: rest => .ok (.obj [], rest)
      | rest => (fields fuel [] rest).map fun r => (.obj r.1, r.2)
    | 'n' :: rest => word .null "ull".toList rest
    | 't' :: rest => word (.bool true) "rue".toList rest
    | 'f' :: rest => word (.bool false) "alse".toList rest
    | 'N' :: rest => word (.float .nan) "aN".toList rest
    | 'I' :: rest => word (.float (.infinity false)) "nfinity".toList rest
    | c :: rest => if c = '-' || isDigit c then number (c :: rest) else .error .malformed

/-- the items of an array up to its closing bracket -/
def items : Nat → List Char → Except ReadError (List Json × List Char)
  | 0, _ => .error .malformed
  | fuel + 1, cs => do
    let (item, rest) ← value fuel cs
    match skipBlanks rest with
    | ']' :: rest => return ([item], rest)
    | ',' :: rest => (items fuel rest).map fun r => (item :: r.1, r.2)
    | _ => throw .malformed

/-- the fields of an object up to its closing brace, written over those read before -/
def fields : Nat → Fields → List Char → Except ReadError (Fields × List Char)
  | 0, _, _ => .error .malformed
  | fuel + 1, seen, cs =>
    match skipBlanks cs with
    | '"' :: rest => do
      let (name, rest) ← string rest
      match skipBlanks rest with
      | ':' :: rest => do
        let (field, rest) ← value fuel rest
        let seen := Entries.set seen name field
        match skipBlanks rest with
        | '\x7d' :: rest => return (seen, rest)
        | ',' :: rest => fields fuel seen rest
        | _ => throw .malformed
      | _ => throw .malformed
    | _ => throw .malformed

end

end Reading

/-- the value of a text -/
def read (text : String) : Except ReadError Json := do
  let cs := text.toList
  let (value, rest) ← Reading.value (cs.length + 1) cs
  if (Reading.skipBlanks rest).isEmpty then return value else throw .malformed

end CodecCompiler.Json
