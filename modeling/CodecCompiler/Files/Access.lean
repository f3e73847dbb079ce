/-
Access to files, as far as the command line needs it: to look at what a path leads to, and to store a text there. The
command line is written against `Files`, so that it runs on a disk held in memory as well as on the machine's own.
-/
import CodecCompiler.Files.Path

namespace CodecCompiler

/-- why a file could not be reached, or a text not be stored -/
inductive Refusal where
  /-- a folder on the way does not exist -/
  | missing
  /-- a file stands where a folder is needed on the way -/
  | notFolder
  /-- a file stands where a folder is to be made -/
  | occupied
  /-- a folder stands where the file is to be -/
  | isFolder
  /-- a name on the way, or the whole path, is longer than any can be -/
  | tooLong
  /-- the machine refuses for reasons of its own -/
  | denied
  deriving DecidableEq, Repr, Inhabited

/-- what a path leads to -/
inductive Source where
  | missing
  | folder
  | file (octets : List UInt8)
  /-- it cannot even be told whether there is something -/
  | refused (reason : Refusal)
  deriving DecidableEq, Repr, Inhabited

structure Files (m : Type → Type) where
  source : Path → m Source
  /-- makes the folders around a file -/
  prepare : Path → m (Option Refusal)
  /-- writes a file, and makes the folders around it -/
  store : Path → String → m (Option Refusal)

end CodecCompiler
