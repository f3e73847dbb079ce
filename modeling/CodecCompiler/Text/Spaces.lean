/-
Spaces: the characters that separate words.

- `isSpace` tells them; `trimEnd` and `trim` leave them out at the end or at both ends of a text.
- `split` is the words of a text.
-/

namespace CodecCompiler.Text

/-- the characters that separate words -/
def isSpace (c : Char) : Bool :=
  let n := c.toNat
  (9 ≤ n && n ≤ 13) || (0x1C ≤ n && n ≤ 0x20) || n = 0x85 || n = 0xA0 || n = 0x1680 || (0x2000 ≤ n && n ≤ 0x200A)
    || n = 0x2028 || n = 0x2029 || n = 0x202F || n = 0x205F || n = 0x3000

/-- a text without the separators at its end -/
def trimEnd (cs : List Char) : List Char := (cs.reverse.dropWhile isSpace).reverse

/-- a text without the separators at both ends -/
def trim (cs : List Char) : List Char := trimEnd (cs.dropWhile isSpace)

/-- the words between separators -/
def split (cs : List Char) : List (List Char) := (cs.splitOnP isSpace).filter (· ≠ [])

end CodecCompiler.Text
