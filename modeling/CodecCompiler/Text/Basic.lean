/-
Texts. A text is a list of code points: characters, and halves of surrogate pairs that stand alone, which escapes in a
file can spell. A string is a text without such halves.

- `Text.ofString` takes a string in; by `Text.ofString_inj` no two strings are one text.
- `Text.toString?` gives the string back, and `Text.lossy` shows any text as a string.
-/

namespace CodecCompiler

inductive CodePoint where
  | char (c : Char)
  /-- half of a surrogate pair, counted from the first of them -/
  | half (n : Fin 0x800)
  deriving DecidableEq, Repr, Inhabited

namespace CodePoint

/-- the number of the first half -/
def firstHalf : Nat := 0xD800

/-- the code point of a number below 0x110000 -/
def ofNat (n : Nat) : CodePoint :=
  if firstHalf ≤ n ∧ n < firstHalf + 0x800 then .half (Fin.ofNat 0x800 (n - firstHalf)) else .char (Char.ofNat n)

def char? : CodePoint → Option Char
  | char c => some c
  | half _ => none

/-- the characters that show it: half of a pair is shown by a sign for each of the octets that would encode it -/
def lossy : CodePoint → List Char
  | char c => [c]
  | half _ => ['\ufffd', '\ufffd', '\ufffd']

end CodePoint

structure Text where
  points : List CodePoint
  deriving DecidableEq, Repr, Inhabited

namespace Text

def ofChars (cs : List Char) : Text := ⟨cs.map .char⟩

def ofString (s : String) : Text := ofChars s.toList

instance : Coe String Text := ⟨ofString⟩

instance : Append Text := ⟨fun a b => ⟨a.points ++ b.points⟩⟩

def isEmpty (t : Text) : Bool := t.points.isEmpty

/-- the characters, if no half of a pair stands among them -/
def toChars? (t : Text) : Option (List Char) := t.points.mapM CodePoint.char?

/-- the string that the text is, if it is one -/
def toString? (t : Text) : Option String := t.toChars?.map String.ofList

/-- does no half of a pair stand alone -/
def isString (t : Text) : Bool := t.toString?.isSome

/-- the string that shows the text -/
def lossy (t : Text) : String := String.ofList (t.points.flatMap CodePoint.lossy)

theorem ofChars_inj {a b : List Char} : ofChars a = ofChars b ↔ a = b := by
  simp only [ofChars, Text.mk.injEq]
  exact List.map_inj_right fun _ _ => CodePoint.char.inj

@[simp] theorem ofString_inj {a b : String} : ofString a = ofString b ↔ a = b := by
  simp [ofString, ofChars_inj, String.toList_inj]

@[simp] theorem toChars?_ofChars (cs : List Char) : (ofChars cs).toChars? = some cs := by
  induction cs with
  | nil => rfl
  | cons c cs ih =>
    simp only [ofChars, toChars?] at ih
    simp [ofChars, toChars?, CodePoint.char?, ih]

@[simp] theorem toString?_ofString (s : String) : (ofString s).toString? = some s := by
  simp [toString?, ofString]

theorem lossy_ofChars (cs : List Char) : (ofChars cs).lossy = String.ofList cs := by
  rw [lossy, ofChars, List.flatMap_map]
  exact congrArg String.ofList (List.flatMap_singleton' cs)

theorem lossy_ofString (s : String) : (ofString s).lossy = s := by
  rw [ofString, lossy_ofChars, String.ofList_toList]

@[simp] theorem isString_ofString (s : String) : (ofString s).isString = true := by
  simp [isString]

end Text

end CodecCompiler
