/-
Data read from a file. Beside the values of JSON there are those that only YAML writes: octets, dates and times, sets,
pairs, and mappings whose keys are any data. A collection of YAML may stand inside itself, so collections can be kept
apart under numbers. Validation is defined on data, so that both formats share it.

- `Datum.ofJson` takes a JSON value in.
- `Data` is a value with the collections kept apart; `Data.opened` looks into one.
- `Datum.sameKey`: equality as keys of a mapping, for which numbers and truth values of equal value are one key.
-/
import CodecCompiler.Json.Basic

namespace CodecCompiler

/-- a calendar date -/
structure Date where
  year : Nat
  month : Nat
  day : Nat
  deriving DecidableEq, Repr, Inhabited

/-- a time of day; the offset from universal time, in minutes, may be unknown -/
structure Clock where
  hour : Nat
  minute : Nat
  second : Nat
  microsecond : Nat
  offset : Option Int
  deriving DecidableEq, Repr, Inhabited

inductive Datum where
  | null
  | bool (b : Bool)
  | int (n : Int)
  | float (x : Binary64)
  | str (s : Text)
  | octets (os : List UInt8)
  | date (d : Date)
  | moment (d : Date) (c : Clock)
  | pair (first second : Datum)
  | list (items : List Datum)
  | set (members : List Datum)
  | map (entries : List (Datum × Datum))
  /-- the collection that is kept apart under a number -/
  | shared (n : Nat)
  deriving Repr, Inhabited

/-- a value with the collections kept apart from it; what is kept under a number is no such number again -/
structure Data where
  root : Datum
  collections : Array Datum := #[]
  deriving Repr, Inhabited

namespace Datum

mutual

/-- a JSON value as data -/
def ofJson : Json → Datum
  | .null => .null
  | .bool b => .bool b
  | .int n => .int n
  | .float x => .float x
  | .str s => .str s
  | .arr items => .list (ofItems items)
  | .obj fields => .map (ofFields fields)

def ofItems : List Json → List Datum
  | [] => []
  | item :: items => ofJson item :: ofItems items

def ofFields : List (Text × Json) → List (Datum × Datum)
  | [] => []
  | (name, value) :: fields => (.str name, ofJson value) :: ofFields fields

end

/-! ## Dates -/

def isLeapYear (year : Nat) : Bool := year % 4 = 0 && (year % 100 ≠ 0 || year % 400 = 0)

/-- the days of a month -/
def daysOfMonth (year month : Nat) : Nat :=
  if month = 2 then (if isLeapYear year then 29 else 28)
  else if month ∈ [4, 6, 9, 11] then 30
  else 31

/-- the days before a date, counted from the start of the calendar -/
def dayNumber (d : Date) : Nat :=
  let before := d.year - 1
  let months := (List.range (d.month - 1)).foldl (fun days m => days + daysOfMonth d.year (m + 1)) 0
  before * 365 + before / 4 - before / 100 + before / 400 + months + d.day

/-- the microseconds from the start of the calendar to a moment, less its offset -/
def universal (d : Date) (c : Clock) : Int :=
  let minutes : Int := Int.ofNat ((dayNumber d * 24 + c.hour) * 60 + c.minute) - c.offset.getD 0
  (minutes * 60 + c.second) * 1000000 + c.microsecond

/-! ## Keys -/

/-- a scalar as a JSON value, by which numbers are compared -/
def number? : Datum → Option Json
  | .bool b => some (.bool b)
  | .int n => some (.int n)
  | .float x => some (.float x)
  | _ => none

/-- equality as keys of a mapping -/
def sameKey : Datum → Datum → Bool
  | .null, .null => true
  | .str a, .str b => a = b
  | .octets a, .octets b => a = b
  | .date a, .date b => a = b
  | .moment a c, .moment b d =>
    if c.offset.isSome = d.offset.isSome then universal a c = universal b d else false
  | a, b =>
    match number? a, number? b with
    | some x, some y => x.same y
    | _, _ => false

/-- is the datum a certain text -/
def isText (d : Datum) (s : Text) : Bool :=
  match d with
  | .str t => t = s
  | _ => false

def isOctets : Datum → Bool
  | .octets _ => true
  | _ => false

/-- the value of the first entry whose key is a text -/
def field? : List (Datum × Datum) → Text → Option Datum
  | [], _ => none
  | (k, v) :: rest, name => if k.isText name then some v else field? rest name

end Datum

namespace Data

/-- a JSON value as data; nothing is kept apart -/
def ofJson (value : Json) : Data := ⟨.ofJson value, #[]⟩

/-- the collection of a number -/
def contents (data : Data) (n : Nat) : Datum := data.collections.getD n .null

/-- a datum, or the collection that it names by number -/
def opened (data : Data) : Datum → Datum
  | .shared n => data.contents n
  | d => d

end Data

end CodecCompiler
