/-
A disk held in memory: folders and files at locations, a location being the names of the folders down to it. One folder
is the current one, from which paths without a slash in front lead.

- `Disk.locate`: where a path leads, if all folders on its way exist.
- `Disk.makeFolders`: a folder with those around it.
- `Disk.access` is the access that the command line has.
-/
import CodecCompiler.Files.Access
import CodecCompiler.Text.Utf8

namespace CodecCompiler

abbrev Location := List String

structure Disk where
  here : Location
  folders : List Location
  files : List (Location × List UInt8) := []
  deriving Repr

namespace Disk

/-- what stands at a location -/
def look (disk : Disk) (place : Location) : Source :=
  if place ∈ disk.folders then .folder
  else
    match disk.files.lookup place with
    | some octets => .file octets
    | none => .missing

/-- the location that a part of a path leads to -/
def enter (place : Location) (part : String) : Location :=
  if part = ".." then place.dropLast else place ++ [part]

/-- is a name longer than any can be -/
def isLongName (part : String) : Bool := (Text.Utf8.encode part).length > Path.longestName

/-- the location that parts lead to; all but the last must lead to folders -/
def follow (disk : Disk) (place : Location) : List String → Except Refusal Location
  | [] => .ok place
  | part :: parts =>
    match disk.look place with
    | .folder => if isLongName part then .error .tooLong else follow disk (enter place part) parts
    | .file _ => .error .notFolder
    | .missing => .error .missing
    | .refused reason => .error reason

def locate (disk : Disk) (path : Path) : Except Refusal Location :=
  if (Text.Utf8.encode path.text).length > Path.longestPath then .error .tooLong
  else disk.follow (if path.root = "" then disk.here else []) path.parts

def source (disk : Disk) (path : Path) : Source :=
  match disk.locate path with
  | .ok place => disk.look place
  | .error .tooLong => .refused .tooLong
  | .error _ => .missing

/-- makes one folder, unless it exists -/
def makeFolder (disk : Disk) (path : Path) : Except Refusal Disk := do
  let place ← disk.locate path
  match disk.look place with
  | .folder => .ok disk
  | .file _ => .error .occupied
  | .missing => .ok { disk with folders := disk.folders ++ [place] }
  | .refused reason => .error reason

/-- makes a folder, and those around it where they are missing; the parts of its path are given from the last one on -/
def makeFolders (disk : Disk) (root : String) : List String → Except Refusal Disk
  | [] => disk.makeFolder ⟨root, []⟩
  | part :: around =>
    let path : Path := ⟨root, (part :: around).reverse⟩
    match disk.makeFolder path with
    | .error .missing => do (← disk.makeFolders root around).makeFolder path
    | result => result

/-- a file with these octets, in place of one that is there -/
def put (disk : Disk) (place : Location) (octets : List UInt8) : Disk :=
  { disk with files := disk.files.filter (·.1 ≠ place) ++ [(place, octets)] }

/-- makes the folders around a file -/
def prepare (disk : Disk) (path : Path) : Except Refusal Disk :=
  disk.makeFolders path.root path.parent.parts.reverse

/-- writes a file, and makes the folders around it -/
def write (disk : Disk) (path : Path) (octets : List UInt8) : Except Refusal Disk := do
  let disk ← disk.prepare path
  let place ← disk.locate path
  match disk.look place with
  | .folder => .error .isFolder
  | _ => .ok (disk.put place octets)

/-- a disk with some files in its current folder -/
def ofFiles (files : List (String × List UInt8)) : Disk :=
  files.foldl
    (fun disk file => (disk.write (Path.ofString file.1) file.2).toOption.getD disk)
    ⟨["home"], [[], ["home"]], []⟩

/-- the path of a location from the current folder, if it is in there -/
def nameOf? (disk : Disk) (place : Location) : Option String :=
  if disk.here.isPrefixOf place then some ("/".intercalate (place.drop disk.here.length)) else none

/-- the files in the current folder that are not on an earlier disk in the same form -/
def changes (disk earlier : Disk) : List (String × List UInt8) :=
  (disk.files.filter (· ∉ earlier.files)).filterMap fun file => (disk.nameOf? file.1).map (·, file.2)

/-- replaces a disk by a changed one, unless the change was refused -/
def replace : Except Refusal Disk → StateM Disk (Option Refusal)
  | .ok disk => do set disk; return none
  | .error refusal => return some refusal

/-- the access to a disk in memory -/
def access : Files (StateM Disk) where
  source path := do return (← get).source path
  prepare path := do replace ((← get).prepare path)
  store path text := do replace ((← get).write path (Text.Utf8.encode text))

end Disk

end CodecCompiler
