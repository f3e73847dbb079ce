/-
Spellings: the type that a scalar has by its characters, when it carries no tag. Truth values and null are known words;
integers come in four bases and in base sixty, floats need a point, and dates have their parts in fixed places. A line
break at the end does not count, except where it is all there is.

- `NodeType.ofSpelling` decides; a scalar that matches no type is a text.
-/
import CodecCompiler.Yaml.Cursor
import CodecCompiler.Yaml.Graph

namespace CodecCompiler.Yaml

namespace Spelling

def truthWords : List String :=
  ["yes", "Yes", "YES", "no", "No", "NO", "true", "True", "TRUE", "false", "False", "FALSE", "on", "On", "ON", "off",
    "Off", "OFF"]

def nullWords : List String := ["~", "null", "Null", "NULL"]

/-- a line break at the very end does not count -/
def withoutLastBreak (cs : List Char) : List Char :=
  match cs.getLast? with
  | some '\n' => cs.dropLast
  | _ => cs

/-- drops a sign -/
def unsigned : List Char → List Char
  | '+' :: rest | '-' :: rest => rest
  | cs => cs

def isDigitOr_ (c : Char) : Bool := isDigit c || c = '_'

/-- a digit, then digits and underscores -/
def isGrouped (cs : List Char) : Bool :=
  match cs with
  | c :: rest => isDigit c && rest.all isDigitOr_
  | [] => false

/-- the pieces of a text between colons -/
def pieces (cs : List Char) : List (List Char) := cs.splitOn ':'

/-- a number below sixty in one or two digits -/
def isSixtieth (cs : List Char) : Bool :=
  match cs with
  | [a] => isDigit a
  | [a, b] => '0' ≤ a && a ≤ '5' && isDigit b
  | _ => false

/-- one or more pieces in base sixty -/
def areSixtieths (parts : List (List Char)) : Bool := !parts.isEmpty && parts.all isSixtieth

/-! ## Numbers -/

def isHexOr_ (c : Char) : Bool := isDigitOr_ c || ('a' ≤ c && c ≤ 'f') || ('A' ≤ c && c ≤ 'F')

def isInt (cs : List Char) : Bool :=
  match unsigned cs with
  | ['0'] => true
  | '0' :: 'b' :: rest => !rest.isEmpty && rest.all fun c => c = '0' || c = '1' || c = '_'
  | '0' :: 'x' :: rest => !rest.isEmpty && rest.all isHexOr_
  | '0' :: rest => rest.all fun c => c = '_' || ('0' ≤ c && c ≤ '7')
  | cs =>
    match pieces cs with
    | [whole] => isGrouped whole
    | whole :: parts => isGrouped whole && areSixtieths parts
    | [] => false

/-- nothing, or a signed exponent -/
def isExponent (cs : List Char) : Bool :=
  match cs with
  | [] => true
  | e :: sign :: rest =>
    (e = 'e' || e = 'E') && (sign = '+' || sign = '-') && !rest.isEmpty && rest.all isDigit
  | _ => false

/-- digits and underscores, then perhaps an exponent -/
def isFraction (cs : List Char) : Bool := isExponent (cs.dropWhile isDigitOr_)

def isFloat (cs : List Char) : Bool :=
  let body := unsigned cs
  let whole := body.takeWhile (· ≠ '.')
  let rest := (body.dropWhile (· ≠ '.')).drop 1
  if whole.length = body.length then false
  else if whole.isEmpty then
    (String.ofList rest) ∈ ["inf", "Inf", "INF"]
      || (body.length = cs.length && (String.ofList rest ∈ ["nan", "NaN", "NAN"]
        || ((rest.headD ' ' |> isDigit) && isFraction rest)))
  else
    match pieces whole with
    | [whole] => isGrouped whole && isFraction rest
    | first :: parts => isGrouped first && areSixtieths parts && rest.all isDigitOr_
    | [] => false

/-! ## Dates -/

/-- takes between `least` and `most` digits -/
def digits? (least most : Nat) (cs : List Char) : Option (Nat × List Char) :=
  let taken := (cs.takeWhile isDigit).take most
  if taken.length < least then none else some (Nat.ofDigitChars 10 taken 0, cs.drop taken.length)

/-- takes a character -/
def char? (c : Char) : List Char → Option (List Char)
  | d :: rest => if d = c then some rest else none
  | [] => none

/-- the parts of a date as they are written -/
structure DateParts where
  year : Nat
  month : Nat
  day : Nat
  deriving DecidableEq, Repr

/-- a year of four digits, a month and a day of at least `least` -/
def date? (least : Nat) (cs : List Char) : Option (DateParts × List Char) := do
  let (year, cs) ← digits? 4 4 cs
  let (month, cs) ← digits? least 2 (← char? '-' cs)
  let (day, cs) ← digits? least 2 (← char? '-' cs)
  return (⟨year, month, day⟩, cs)

/-- the parts of a time as they are written -/
structure TimeParts where
  hour : Nat
  minute : Nat
  second : Nat
  /-- the digits behind the point -/
  fraction : List Char
  /-- hours and minutes away from universal time, and whether to the west -/
  zone : Option (Bool × Nat × Nat)
  deriving DecidableEq, Repr

def isBlank (c : Char) : Bool := c = ' ' || c = '\t'

/-- what separates a time from its date -/
def timeStart? (cs : List Char) : Option (List Char) :=
  match cs with
  | 'T' :: rest | 't' :: rest => some rest
  | c :: _ => if isBlank c then some (cs.dropWhile isBlank) else none
  | [] => none

/-- the zone at the end of a time -/
def zone? (cs : List Char) : Option (Option (Bool × Nat × Nat)) :=
  match cs with
  | [] => some none
  | _ =>
    match cs.dropWhile isBlank with
    | ['Z'] => some (some (false, 0, 0))
    | sign :: rest =>
      if sign = '+' || sign = '-' then do
        let (hours, rest) ← digits? 1 2 rest
        match rest with
        | [] => some (some (sign = '-', hours, 0))
        | ':' :: rest => do
          let (minutes, rest) ← digits? 2 2 rest
          if rest.isEmpty then some (some (sign = '-', hours, minutes)) else none
        | _ => none
      else none
    | [] => none

/-- a time to the end of the text -/
def time? (cs : List Char) : Option TimeParts := do
  let (hour, cs) ← digits? 1 2 cs
  let (minute, cs) ← digits? 2 2 (← char? ':' cs)
  let (second, cs) ← digits? 2 2 (← char? ':' cs)
  let (fraction, cs) : List Char × List Char := match cs with
    | '.' :: rest => (rest.takeWhile isDigit, rest.dropWhile isDigit)
    | _ => ([], cs)
  return ⟨hour, minute, second, fraction, ← zone? cs⟩

/-- a date with its time, if it has one -/
def timestamp? (cs : List Char) : Option (DateParts × Option TimeParts) := do
  let (date, rest) ← date? 1 cs
  if rest.isEmpty then return (date, none)
  let time ← time? (← timeStart? rest)
  return (date, some time)

/-- is it a date by spelling alone; without a time, month and day need two digits -/
def isTimestamp (cs : List Char) : Bool :=
  match timestamp? cs with
  | some (_, some _) => true
  | some (_, none) => ((date? 2 cs).map fun r => r.2.isEmpty) = some true
  | none => false

end Spelling

/-- the type of a scalar by its spelling as a string -/
def NodeType.ofString (s : String) : NodeType :=
  let cs := Spelling.withoutLastBreak s.toList
  let word := String.ofList cs
  if word ∈ Spelling.truthWords then .bool
  else if Spelling.isFloat cs then .float
  else if Spelling.isInt cs then .int
  else if word = "<<" then .merge
  else if s = "" || word ∈ Spelling.nullWords then .null
  else if Spelling.isTimestamp cs then .timestamp
  else if word = "=" then .value
  else if word ∈ ["!", "&", "*"] then .unknown
  else .str

/-- the type of a scalar by its spelling; halves of surrogate pairs have no place in any but that of texts -/
def NodeType.ofSpelling (t : Text) : NodeType := (t.toString?.map NodeType.ofString).getD .str

end CodecCompiler.Yaml
