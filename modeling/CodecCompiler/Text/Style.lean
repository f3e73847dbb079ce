/-
Styles of text, said in words: attributes such as `bold`, or `not bold`, a colour, `on` with the colour of the ground,
`link` with an address. A colour is a name, six hexadecimal digits, or numbers in round brackets.

- `Style.read` is the style of a text, if it is one; `Style.words` are the words that say a style.
- `Style.normal?` is the name by which a style is known: styles of one effect have one name. A text that is no style is
  its own name, without regard to the case of letters. Only numbers that cannot be read leave a text without a name.
-/
import CodecCompiler.Text.Case
import CodecCompiler.Text.Digits
import CodecCompiler.Text.Spaces

namespace CodecCompiler

structure Style where
  /-- the attributes that are switched on or off, the last one first -/
  attributes : List (String × Bool) := []
  colour : Option (List Char) := none
  /-- the colour of the ground -/
  ground : Option (List Char) := none
  link : Option (List Char) := none
  deriving DecidableEq, Repr

namespace Style

/-- why a text cannot be read as a style -/
inductive Fault where
  /-- it is no style -/
  | unknown
  /-- a colour has a number without digits, or one with too many -/
  | number
  deriving DecidableEq, Repr

/-! ## Attributes -/

/-- the attributes, with their short names, in the order in which they are put -/
def attributeNames : List (String × List String) :=
  [("bold", ["b"]), ("dim", ["d"]), ("italic", ["i"]), ("underline", ["u"]), ("blink", []), ("blink2", []),
    ("reverse", ["r"]), ("conceal", ["c"]), ("strike", ["s"]), ("underline2", ["uu"]), ("frame", []),
    ("encircle", []), ("overline", ["o"])]

/-- the attribute of a name, in small letters -/
def attribute? (name : List Char) : Option String :=
  (attributeNames.find? fun a => a.1.toList = name || a.2.any fun short => short.toList = name).map (·.1)

/-! ## Colours -/

/-- the names of colours -/
def colourNames : String := "
  black red green yellow blue magenta cyan white bright_black bright_red bright_green bright_yellow bright_blue
  bright_magenta bright_cyan bright_white grey0 gray0 navy_blue dark_blue blue3 blue1 dark_green deep_sky_blue4
  dodger_blue3 dodger_blue2 green4 spring_green4 turquoise4 deep_sky_blue3 dodger_blue1 green3 spring_green3
  dark_cyan light_sea_green deep_sky_blue2 deep_sky_blue1 spring_green2 cyan3 dark_turquoise turquoise2 green1
  spring_green1 medium_spring_green cyan2 cyan1 dark_red deep_pink4 purple4 purple3 blue_violet orange4 grey37
  gray37 medium_purple4 slate_blue3 royal_blue1 chartreuse4 dark_sea_green4 pale_turquoise4 steel_blue steel_blue3
  cornflower_blue chartreuse3 cadet_blue sky_blue3 steel_blue1 pale_green3 sea_green3 aquamarine3 medium_turquoise
  chartreuse2 sea_green2 sea_green1 aquamarine1 dark_slate_gray2 dark_magenta dark_violet purple light_pink4 plum4
  medium_purple3 slate_blue1 yellow4 wheat4 grey53 gray53 light_slate_grey light_slate_gray medium_purple
  light_slate_blue dark_olive_green3 dark_sea_green light_sky_blue3 sky_blue2 dark_sea_green3 dark_slate_gray3
  sky_blue1 chartreuse1 light_green pale_green1 dark_slate_gray1 red3 medium_violet_red magenta3 dark_orange3
  indian_red hot_pink3 medium_orchid3 medium_orchid medium_purple2 dark_goldenrod light_salmon3 rosy_brown grey63
  gray63 medium_purple1 gold3 dark_khaki navajo_white3 grey69 gray69 light_steel_blue3 light_steel_blue yellow3
  dark_sea_green2 light_cyan3 light_sky_blue1 green_yellow dark_olive_green2 dark_sea_green1 pale_turquoise1
  deep_pink3 magenta2 hot_pink2 orchid medium_orchid1 orange3 light_pink3 pink3 plum3 violet light_goldenrod3 tan
  misty_rose3 thistle3 plum2 khaki3 light_goldenrod2 light_yellow3 grey84 gray84 light_steel_blue1 yellow2
  dark_olive_green1 honeydew2 light_cyan1 red1 deep_pink2 deep_pink1 magenta1 orange_red1 indian_red1 hot_pink
  dark_orange salmon1 light_coral pale_violet_red1 orchid2 orchid1 orange1 sandy_brown light_salmon1 light_pink1
  pink1 plum1 gold1 navajo_white1 misty_rose1 thistle1 yellow1 light_goldenrod1 khaki1 wheat1 cornsilk1 grey100
  gray100 grey3 gray3 grey7 gray7 grey11 gray11 grey15 gray15 grey19 gray19 grey23 gray23 grey27 gray27 grey30
  gray30 grey35 gray35 grey39 gray39 grey42 gray42 grey46 gray46 grey50 gray50 grey54 gray54 grey58 gray58 grey62
  gray62 grey66 gray66 grey70 gray70 grey74 gray74 grey78 gray78 grey82 gray82 grey85 gray85 grey89 gray89 grey93
  gray93
"

/-- what stands in round brackets behind a word, up to the end -/
def inBrackets? (lead : String) (cs : List Char) : Option (List Char) :=
  if lead.toList.isPrefixOf cs && cs.getLast? = some ')' then some (cs.drop lead.length).dropLast else none

/-- a part of a colour; its digits may be those of any script -/
def component (digits : List Char) : Except Fault Nat :=
  if digits = [] ∨ 4300 < digits.length then .error .number
  else
    match Text.numeral? 10 (digits.map Text.plainDigit) with
    | some n => .ok n
    | none => .error .number

/-- can a character stand in the brackets behind `rgb` -/
def isComponentSign (c : Char) : Bool := c = ',' || (Text.plainDigit c).isDigit

/-- a colour, by a word in letters of any case -/
def readColour (word : List Char) : Except Fault (List Char) := do
  let name := Text.lowered word
  if name = "default".toList ∨ name ∈ Text.split colourNames.toList then return name
  if name.head? = some '#' ∧ name.length = 7 ∧ name.tail.all fun c => (Text.hexValue c).isSome then return name
  if let some digits := inBrackets? "color(" name then
    if digits ≠ [] ∧ digits.length ≤ 3 ∧ (Text.numeral? 10 digits).any (· ≤ 255) then return name
  if let some parts := inBrackets? "rgb(" name then
    if parts.all isComponentSign then
      if let [red, green, blue] := parts.splitOn ',' then
        let parts := [← component red, ← component green, ← component blue]
        if parts.all (· ≤ 255) then return name
  throw .unknown

/-! ## Styles -/

/-- a style with more words behind it -/
def readMore (style : Style) : List (List Char) → Except Fault Style
  | [] => .ok style
  | word :: words =>
    if Text.lowered word = "on".toList then
      match words with
      | colour :: words => do readMore { style with ground := ← readColour colour } words
      | [] => .error .unknown
    else if Text.lowered word = "not".toList then
      match words with
      | name :: words =>
        match attribute? name with
        | some a => readMore { style with attributes := (a, false) :: style.attributes } words
        | none => .error .unknown
      | [] => .error .unknown
    else if Text.lowered word = "link".toList then
      match words with
      | address :: words => readMore { style with link := some address } words
      | [] => .error .unknown
    else
      match attribute? (Text.lowered word) with
      | some a => readMore { style with attributes := (a, true) :: style.attributes } words
      | none => do readMore { style with colour := ← readColour word } words

/-- the style that a text says -/
def read (cs : List Char) : Except Fault Style :=
  let words := Text.split cs
  if words = ["none".toList] then .ok {} else readMore {} words

/-- the words that say a style: its attributes in their order, its colours and its link -/
def words (style : Style) : List (List Char) :=
  let attributes := attributeNames.flatMap fun a =>
    match style.attributes.lookup a.1 with
    | some true => [a.1.toList]
    | some false => ["not".toList, a.1.toList]
    | none => []
  let ground := style.ground.elim [] fun colour => ["on".toList, colour]
  let link := style.link.elim [] fun address => ["link".toList, address]
  attributes ++ style.colour.toList ++ ground ++ link

/-- the name of a style -/
def name (style : Style) : List Char := if style.words = [] then "none".toList else [' '].intercalate style.words

/-- the name by which the style of a text is known -/
def normal? (cs : List Char) : Option (List Char) :=
  match read cs with
  | .ok style => some style.name
  | .error .unknown => some (Text.lowered (Text.trim cs))
  | .error .number => none

/-- does a text have numbers that cannot be read where a style is looked for -/
def isFaulty (cs : List Char) : Bool :=
  match read cs with
  | .error .number => true
  | _ => false

end Style

end CodecCompiler
