/-
Shown data: the text by which a message names a value that it cannot use. A text that stands alone is shown as it is;
inside a collection it is quoted. Dates and times standing alone have their written form, inside a collection they are
spelled out as constructor calls. A collection inside itself is shown by dots. An integer of too many digits has no
text, nor has a collection with one in it; the name of the type is shown instead.

- `Data.shown` is the text of a value inside a collection, `Data.shownAlone` the text of a value by itself.
- `Datum.keyText` is the text of a key.
- `Data.shownAt` follows the collections kept apart; since none is entered twice, their number bounds the depth.
-/
import CodecCompiler.Datum.Basic
import CodecCompiler.Number.Layout
import CodecCompiler.Text.Quoted

namespace CodecCompiler.Datum

/-- the decimal text of a number with at least `width` digits -/
def padded (width n : Nat) : String :=
  let digits := Nat.toDigits 10 n
  String.ofList (List.replicate (width - digits.length) '0' ++ digits)

def joined (parts : List String) : String := ", ".intercalate parts

/-! ## Dates and times -/

/-- a date as it is written -/
def dateText (d : Date) : String := padded 4 d.year ++ "-" ++ padded 2 d.month ++ "-" ++ padded 2 d.day

/-- a time as it is written, with the fraction and the offset that it has -/
def clockText (c : Clock) : String :=
  let fraction := if c.microsecond = 0 then "" else "." ++ padded 6 c.microsecond
  let offset := match c.offset with
    | none => ""
    | some n => (if n < 0 then "-" else "+") ++ padded 2 (n.natAbs / 60) ++ ":" ++ padded 2 (n.natAbs % 60)
  padded 2 c.hour ++ ":" ++ padded 2 c.minute ++ ":" ++ padded 2 c.second ++ fraction ++ offset

/-- a date spelled out -/
def dateCall (d : Date) : String :=
  "datetime.date(" ++ joined ([d.year, d.month, d.day].map toString) ++ ")"

/-- an offset spelled out: whole days, rounded down, and the seconds left -/
def offsetCall (minutes : Int) : String :=
  if minutes = 0 then "datetime.timezone.utc"
  else
    let seconds := toString (minutes % 1440 * 60)
    let parts := if minutes < 0 then ["days=-1", "seconds=" ++ seconds] else ["seconds=" ++ seconds]
    "datetime.timezone(datetime.timedelta(" ++ joined parts ++ "))"

/-- a date and time spelled out, without seconds or fractions that are zero at the end -/
def momentCall (d : Date) (c : Clock) : String :=
  let finer :=
    if c.microsecond ≠ 0 then [c.second, c.microsecond] else if c.second ≠ 0 then [c.second] else []
  let parts := ([d.year, d.month, d.day, c.hour, c.minute] ++ finer).map toString
  let zone := match c.offset with
    | none => []
    | some n => ["tzinfo=" ++ offsetCall n]
  "datetime.datetime(" ++ joined (parts ++ zone) ++ ")"

/-! ## All data -/

mutual

/-- the text of a value inside a collection, where `enter` shows the collections kept apart -/
def shownWith (enter : Nat → Option String) : Datum → Option String
  | .null => some "None"
  | .bool true => some "True"
  | .bool false => some "False"
  | .int n => if isLong n then none else some (String.ofList (intDigits n))
  | .float x => some (String.ofList (Layout.message.float x))
  | .str s => some (Text.quote s)
  | .octets os => some (Text.quoteOctets os)
  | .date d => some (dateCall d)
  | .moment d c => some (momentCall d c)
  | .pair a b => do return "(" ++ joined [← shownWith enter a, ← shownWith enter b] ++ ")"
  | .list items => do return "[" ++ joined (← shownItems enter items) ++ "]"
  | .set [] => some "set()"
  | .set (member :: members) => do
    return "\x7b" ++ joined ((← shownWith enter member) :: (← shownItems enter members)) ++ "\x7d"
  | .map entries => do return "\x7b" ++ joined (← shownEntries enter entries) ++ "\x7d"
  | .shared n => enter n

def shownItems (enter : Nat → Option String) : List Datum → Option (List String)
  | [] => some []
  | item :: items => do return (← shownWith enter item) :: (← shownItems enter items)

def shownEntries (enter : Nat → Option String) : List (Datum × Datum) → Option (List String)
  | [] => some []
  | (key, value) :: entries => do
    return ((← shownWith enter key) ++ ": " ++ (← shownWith enter value)) :: (← shownEntries enter entries)

end

/-- what stands for a collection inside itself -/
def ellipsis : Datum → String
  | .list _ => "[...]"
  | _ => "\x7b...\x7d"

/-- what is shown of an integer of too many digits, or of a collection with one in it -/
def unprintable (d : Datum) : String :=
  let type := match d with
    | .int _ => "int"
    | .list _ => "list"
    | .set _ => "set"
    | _ => "dict"
  "<unprintable " ++ type ++ " object>"

/-- the text of a key of a mapping -/
def keyText (d : Datum) : String := (d.shownWith fun _ => none).getD d.unprintable

end Datum

namespace Data

/-- the text of a collection kept apart, where `around` are those that it stands in -/
def shownAt (data : Data) : (depth : Nat) → (around : List Nat) → Nat → Option String
  | 0, _, _ => none
  | depth + 1, around, n =>
    if n ∈ around then some (data.contents n).ellipsis
    else (data.contents n).shownWith (data.shownAt depth (n :: around))

/-- the text of a value inside a collection, if no integer in it has too many digits -/
def shown (data : Data) (d : Datum) : Option String := d.shownWith (data.shownAt (data.collections.size + 1) [])

/-- the text of a value by itself -/
def shownAlone (data : Data) : Datum → String
  | .str s => s.lossy
  | .date d => Datum.dateText d
  | .moment d c => Datum.dateText d ++ " " ++ Datum.clockText c
  | d => (data.shown d).getD (data.opened d).unprintable

end Data

end CodecCompiler
