/-
Values of scalars: what the characters of a scalar mean once its type is known. A tag can give a scalar a type that its
spelling would not, so every reading here can fail.

- `truth?`, `int?`, `float?`, `moment?` and `octets?` read the types; `scalarValue` chooses among them.
- Underscores in numbers are ignored, and a colon separates the places of a number in base sixty. The digits of a number
  may be those of any script.
-/
import CodecCompiler.Datum.Basic
import CodecCompiler.Number.Layout
import CodecCompiler.Text.Digits
import CodecCompiler.Yaml.Spelling
import CodecCompiler.Yaml.Token

namespace CodecCompiler.Yaml

namespace Value

/-- white space around a number -/
def isSpace (c : Char) : Bool :=
  let n := c.toNat
  (0x09 ≤ n && n ≤ 0x0D) || n = 0x20 || n = 0x85 || n = 0xA0 || n = 0x1680
    || (0x2000 ≤ n && n ≤ 0x200A) || n = 0x2028 || n = 0x2029 || n = 0x202F || n = 0x205F || n = 0x3000

def trim (cs : List Char) : List Char :=
  ((cs.dropWhile isSpace).reverse.dropWhile isSpace).reverse

def lower (cs : List Char) : List Char := cs.map Char.toLower

/-- a sign in front, and the rest -/
def sign (cs : List Char) : Bool × List Char :=
  match cs with
  | '-' :: rest => (true, rest)
  | '+' :: rest => (false, rest)
  | _ => (false, cs)

def negated (negative : Bool) (n : Int) : Int := if negative then -n else n

/-! ## Truth values -/

def truth? (s : String) : Except Failure Bool :=
  match String.ofList (lower s.toList) with
  | "yes" | "true" | "on" => .ok true
  | "no" | "false" | "off" => .ok false
  | _ => .error .noTruthWord

/-! ## Integers -/

/-- the letter behind a zero that announces a base -/
def baseLetter? (base : Nat) : Option Char :=
  if base = 2 then some 'b' else if base = 8 then some 'o' else if base = 16 then some 'x' else none

/-- the digits without a zero and a letter that announce their base -/
def withoutBase (base : Nat) (cs : List Char) : List Char :=
  match cs with
  | '0' :: letter :: rest => if baseLetter? base = some letter.toLower then rest else cs
  | _ => cs

/-- digits of a base, with a sign and white space around them if there are any -/
def digitsOf (base : Nat) (cs : List Char) : Except Failure Int :=
  let (negative, cs) := sign (trim (cs.map Text.plainDigit))
  let cs := withoutBase base cs
  if cs.isEmpty || (base = 10 && cs.length > mostDigits) then .error .noValue
  else
    match Text.numeral? base cs with
    | some n => .ok (negated negative n)
    | none => .error .noValue

/-- places in base sixty, the highest first -/
def inSixties (places : List Int) : Int := places.foldl (fun n place => n * 60 + place) 0

def int? (s : String) : Except Failure Int :=
  let cs := s.toList.filter (· ≠ '_')
  if cs.isEmpty then .error .emptyNumber
  else
    let (negative, body) := sign cs
    let magnitude : Except Failure Int :=
      match body with
      | [] => .error .emptyNumber
      | ['0'] => .ok 0
      | '0' :: 'b' :: digits => digitsOf 2 digits
      | '0' :: 'x' :: digits => digitsOf 16 digits
      | '0' :: _ => digitsOf 8 body
      | _ =>
        if ':' ∈ body then ((Spelling.pieces body).mapM (digitsOf 10)).map inSixties
        else digitsOf 10 body
    magnitude.map (negated negative)

/-! ## Floats -/

/-- a decimal number, or a word for one that is not finite -/
def decimal? (cs : List Char) : Except Failure Binary64 :=
  let (negative, cs) := sign (trim (cs.map Text.plainDigit))
  match String.ofList (lower cs) with
  | "inf" | "infinity" => .ok (.infinity negative)
  | "nan" => .ok .nan
  | _ =>
    let whole := cs.takeWhile isDigit
    let rest := cs.dropWhile isDigit
    let (fraction, rest) : List Char × List Char := match rest with
      | '.' :: rest => (rest.takeWhile isDigit, rest.dropWhile isDigit)
      | _ => ([], rest)
    let mantissa := Nat.ofDigitChars 10 (whole ++ fraction) 0
    let number (exponent : Int) : Binary64 := .ofDecimal negative mantissa (exponent - fraction.length)
    if whole.isEmpty && fraction.isEmpty then .error .noValue
    else
      match rest with
      | [] => .ok (number 0)
      | e :: rest =>
        let (down, digits) := sign rest
        if (e = 'e' || e = 'E') && !digits.isEmpty && digits.all isDigit then
          .ok (number (negated down (Nat.ofDigitChars 10 digits 0)))
        else .error .noValue

def toFloat (x : Binary64) : Float := Float.ofBits x.bits

/-- the opposite number -/
def flipped (x : Binary64) : Binary64 := ⟨x.bits ^^^ 0x8000000000000000⟩

/-- places in base sixty, the lowest first, added up from the lowest: the weight of a place is rounded, then its product
with the digit, then the sum -/
def sumOfSixties : List Binary64 → (weight : Nat) → (sum : Float) → Except Failure Binary64
  | [], _, sum => .ok ⟨sum.toBits⟩
  | place :: places, weight, sum =>
    let rounded := Binary64.nearest false weight 1
    if rounded.magnitude = .infinite then .error .tooLarge
    else sumOfSixties places (weight * 60) (sum + toFloat place * toFloat rounded)

/-- the sign of a float and its text without underscores, in lower case -/
def floatText (s : String) : Bool × String :=
  let (negative, body) := sign (lower (s.toList.filter (· ≠ '_')))
  (negative, String.ofList body)

/-- the word for what is not a number -/
def nanWord : String := ".nan"

def float? (s : String) : Except Failure Binary64 :=
  let (negative, text) := floatText s
  let body := text.toList
  let magnitude : Except Failure Binary64 :=
    if text = ".inf" then .ok (.infinity false)
    else if text = nanWord then .ok .nan
    else if ':' ∈ body then (Spelling.pieces body).mapM decimal? >>= fun places => sumOfSixties places.reverse 1 0
    else decimal? body
  if s.toList.all (· = '_') then .error .emptyNumber
  else magnitude.map fun x => if negative && x.magnitude ≠ .nan then flipped x else x

/-! ## Dates -/

/-- the microseconds that the digits behind the point of a second stand for; more than six do not count -/
def microseconds (digits : List Char) : Nat :=
  let taken := digits.take 6
  Nat.ofDigitChars 10 (taken ++ List.replicate (6 - taken.length) '0') 0

/-- a date that is in the calendar -/
def validDate? (d : Spelling.DateParts) : Except Failure Date :=
  if 1 ≤ d.year ∧ 1 ≤ d.month ∧ d.month ≤ 12 ∧ 1 ≤ d.day ∧ d.day ≤ Datum.daysOfMonth d.year d.month then
    .ok ⟨d.year, d.month, d.day⟩
  else .error .noValue

/-- the minutes that a zone is ahead of universal time, less than a day -/
def offset? : Option (Bool × Nat × Nat) → Except Failure (Option Int)
  | none => .ok none
  | some (west, hours, minutes) =>
    let n := hours * 60 + minutes
    if n < 1440 then .ok (some (negated west n)) else .error .noValue

def moment? (s : String) : Except Failure Datum :=
  match Spelling.timestamp? (Spelling.withoutLastBreak s.toList) with
  | none => .error .noDate
  | some (date, none) => (validDate? date).map .date
  | some (date, some time) => do
    let offset ← offset? time.zone
    let date ← validDate? date
    if time.hour < 24 ∧ time.minute < 60 ∧ time.second < 60 then
      return .moment date ⟨time.hour, time.minute, time.second, microseconds time.fraction, offset⟩
    else throw .noValue

/-! ## Octets -/

/-- the value of a character of base 64 -/
def sextet? (c : Char) : Option Nat :=
  if 'A' ≤ c ∧ c ≤ 'Z' then some (c.toNat - 'A'.toNat)
  else if 'a' ≤ c ∧ c ≤ 'z' then some (c.toNat - 'a'.toNat + 26)
  else if '0' ≤ c ∧ c ≤ '9' then some (c.toNat - '0'.toNat + 52)
  else if c = '+' then some 62
  else if c = '/' then some 63
  else none

/-- octets from groups of four characters; other characters do not count, and padding ends the last group -/
def fromBase64 : List Char → (place left pads : Nat) → List UInt8 → Option (List UInt8)
  | [], place, _, _, found => if place = 0 then some found else none
  | c :: rest, place, left, pads, found =>
    if c = '=' then
      if 2 ≤ place ∧ 4 ≤ place + pads + 1 then some found
      else fromBase64 rest place left (if 2 ≤ place then pads + 1 else pads) found
    else
      match sextet? c with
      | none => fromBase64 rest place left pads found
      | some n =>
        match place with
        | 0 => fromBase64 rest 1 n 0 found
        | 1 => fromBase64 rest 2 (n % 16) 0 (found ++ [UInt8.ofNat (left * 4 + n / 16)])
        | 2 => fromBase64 rest 3 (n % 4) 0 (found ++ [UInt8.ofNat (left * 16 + n / 4)])
        | _ => fromBase64 rest 0 0 0 (found ++ [UInt8.ofNat (left * 64 + n)])

def octets? (s : String) : Except Failure (List UInt8) :=
  let cs := s.toList
  if cs.all (·.toNat < 0x80) then
    match fromBase64 cs 0 0 0 [] with
    | some found => .ok found
    | none => .error .malformed
  else .error .malformed

end Value

/-- the value of a scalar of a type; a half of a surrogate pair has no place but in texts -/
def scalarValue (type : NodeType) (t : Text) : Except Failure Datum :=
  match type with
  | .null => .ok .null
  | .bool => (Value.truth? t.lossy).map .bool
  | .int => (Value.int? t.lossy).map .int
  | .float => (Value.float? t.lossy).map .float
  | .binary => (Value.octets? t.lossy).map .octets
  | .timestamp => Value.moment? t.lossy
  | .str => .ok (.str t)
  | .seq | .map | .set | .omap | .pairs | .merge | .value | .unknown => .error .malformed

end CodecCompiler.Yaml
