/-
Pictures given by name: a name between two colons, such as `:smile:`, stands for a picture. Behind the name may be said
whether the picture is wanted as text or in colours, as in `:heart-text:`. A name that no picture has stays as it is,
with its colons.

- `find?` is the picture of a name, `replace` a text with its pictures.
- `replace_of_not_mem`: a text without a colon stays as it is.
-/
import CodecCompiler.Text.Case
import CodecCompiler.Text.Digits
import CodecCompiler.Text.Emoji.Names
import CodecCompiler.Text.Spaces

namespace CodecCompiler.Text.Emoji

/-! ## Names -/

/-- what stands behind a name, among words of which every second one is a name -/
def behind? (name : List Char) : List (List Char) → Option (List Char)
  | word :: value :: words => if word = name then some value else behind? name words
  | _ => none

/-- the picture of code points in hexadecimal digits -/
def ofDigits (digits : List Char) : List Char :=
  (digits.splitOn '-').map fun point => Char.ofNat ((numeral? 16 point).getD 0)

/-- the flag of a country -/
def flag (letters : List Char) : List Char := letters.map fun c => Char.ofNat (0x1F1E6 + (c.toNat - 'a'.toNat))

/-- the tones of skin, with their characters -/
def tones : List (String × Char) :=
  [("light", Char.ofNat 0x1F3FB), ("medium-light", Char.ofNat 0x1F3FC), ("medium", Char.ofNat 0x1F3FD),
    ("medium-dark", Char.ofNat 0x1F3FE), ("dark", Char.ofNat 0x1F3FF)]

/-- wants the picture before it in colours -/
def inColours : Char := '\uFE0F'

/-- wants the picture before it as text -/
def asText : Char := '\uFE0E'

/-- a picture of people in a tone, which goes behind the first character and makes a wish for colours needless -/
def toned (tone : Char) : List Char → List Char
  | c :: cs => c :: tone :: (if cs.head? = some inColours then cs.tail else cs)
  | [] => []

/-- a text without an ending, if it has that ending -/
def withoutEnd? (ending cs : List Char) : Option (List Char) :=
  if ending.isSuffixOf cs then some (cs.take (cs.length - ending.length)) else none

/-- the picture of people whose name ends with a tone -/
def tonedPerson? (name : List Char) : Option (List Char) :=
  tones.findSome? fun (tone, mark) => do
    let person ← withoutEnd? ("_" ++ tone ++ "_skin_tone").toList name
    let digits ← behind? person (split people.toList)
    return toned mark (ofDigits digits)

/-- the flag of a country's name, which may also say that it is a flag -/
def flagOf? (name : List Char) : Option (List Char) :=
  let lead := "flag_for_".toList
  (behind? (if lead.isPrefixOf name then name.drop lead.length else name) (split countries.toList)).map flag

/-- the picture of a name, in large or small letters -/
def find? (name : List Char) : Option (List Char) :=
  let name := lowered name
  ((behind? name (split pictures.toList)).map ofDigits).or
    (((behind? name (split people.toList)).map ofDigits).or ((tonedPerson? name).or (flagOf? name)))

/-! ## Texts -/

/-- the picture of what stands between two colons -/
def picture? (inside : List Char) : Option (List Char) :=
  match withoutEnd? "-emoji".toList inside, withoutEnd? "-text".toList inside with
  | some name, _ => (find? name).map (· ++ [inColours])
  | none, some name => (find? name).map (· ++ [asText])
  | none, none => find? inside

/-- may a character stand between the colons -/
def isInside (c : Char) : Bool := c ≠ ':' && !isSpace c

theorem length_lt_of_dropWhile {cs rest : List Char} {c : Char} (h : cs.dropWhile isInside = c :: rest) :
    rest.length < cs.length := by
  have le := (List.dropWhile_suffix isInside (l := cs)).length_le
  rw [h, List.length_cons] at le
  exact le

/-- a text with its pictures; a colon that ends a name does not begin another one -/
def replace : List Char → List Char
  | [] => []
  | c :: cs =>
    if c = ':' then
      match eq : cs.dropWhile isInside with
      | ':' :: rest =>
        have := length_lt_of_dropWhile eq
        let inside := cs.takeWhile isInside
        (picture? inside).getD (':' :: (inside ++ [':'])) ++ replace rest
      | _ => c :: replace cs
    else c :: replace cs
termination_by cs => cs.length

theorem replace_of_not_mem {cs : List Char} (h : ':' ∉ cs) : replace cs = cs := by
  induction cs with
  | nil => simp [replace]
  | cons c cs ih =>
    simp only [List.mem_cons, not_or] at h
    rw [replace, if_neg (fun eq => h.1 eq.symm), ih h.2]

end CodecCompiler.Text.Emoji
