/-
Paths of files. A path is read part by part: empty parts and single dots do not count, two dots do, since what they
lead to depends on the folders. Two slashes in front, and no more, are kept apart from one.

- `Path.ofString` and `Path.text`: a path and its normal spelling.
- `Path.suffix`: what follows the last point of the last part, with the point; a name that only begins with a point has
  none.
-/

namespace CodecCompiler

structure Path where
  /-- the slashes in front -/
  root : String := ""
  parts : List String := []
  deriving DecidableEq, Repr, Inhabited

namespace Path

/-- the pieces of a text between slashes -/
def pieces (cs : List Char) : List String := (cs.splitOn '/').map String.ofList

def ofString (s : String) : Path :=
  let cs := s.toList
  let slashes := (cs.takeWhile (· = '/')).length
  let root := if slashes = 0 then "" else if slashes = 2 then "//" else "/"
  ⟨root, (pieces cs).filter fun p => p ≠ "" ∧ p ≠ "."⟩

/-- the normal spelling; an empty path is the current folder -/
def text (p : Path) : String :=
  if p.root = "" ∧ p.parts = [] then "." else p.root ++ "/".intercalate p.parts

/-- the path of the folder around -/
def parent (p : Path) : Path := { p with parts := p.parts.dropLast }

/-- the last part -/
def name (p : Path) : String := p.parts.getLastD ""

def suffix (p : Path) : String :=
  let cs := p.name.toList
  let behind := (cs.reverse.takeWhile (· ≠ '.')).reverse
  let stem := cs.length - behind.length - 1
  if behind.length < cs.length ∧ stem > 0 ∧ behind ≠ [] then String.ofList ('.' :: behind) else ""

/-- the most octets that a name can have -/
def longestName : Nat := 255

/-- the most octets that a path can have -/
def longestPath : Nat := 4095

end Path

end CodecCompiler
