/-
Loading: from the octets of a file to its document. A file whose suffix names YAML is read as such, any other as JSON;
either way the data is then validated.

- `Document.load` is the whole.
- A text that cannot be read, or data that is no document, is an invalid document with a cause. Octets that are no
  text, and YAML scalars without a reading, are failures apart.
-/
import CodecCompiler.Document.Validation
import CodecCompiler.Files.Path
import CodecCompiler.Json.Reading
import CodecCompiler.Text.Newlines
import CodecCompiler.Yaml.Reading

namespace CodecCompiler

/-- why a text is no document -/
inductive InvalidCause where
  /-- it is not YAML -/
  | yaml
  /-- it is not JSON -/
  | json
  /-- a scalar has a type without a value of its spelling -/
  | scalar
  /-- its data has issues -/
  | issues (found : List Issue)
  deriving DecidableEq, Repr

/-- why a file has no document -/
inductive LoadError where
  | notText (fault : Text.Utf8.Fault)
  | invalid (path : Path) (cause : InvalidCause)
  /-- a YAML scalar has no reading at all -/
  | unreadable (failure : Yaml.Failure)
  deriving DecidableEq, Repr

namespace LoadError

/-- what a file without a document is reported as; an unreadable scalar has no words of its own -/
def message : LoadError → String
  | notText fault => fault.message
  | invalid path _ => "Invalid codec document " ++ path.text
  | unreadable _ => ""

/-- how a failure to read YAML is reported for a path -/
def ofYaml (path : Path) : Yaml.Failure → LoadError
  | .malformed => invalid path .yaml
  | .noValue => invalid path .scalar
  | f => unreadable f

end LoadError

namespace Document

/-- how a failure to read JSON is reported -/
def causeOfJson : Json.ReadError → InvalidCause
  | .malformed => .json
  | .longNumber => .scalar

/-- is a file read as YAML -/
def isYaml (path : Path) : Bool := path.suffix = ".yaml" || path.suffix = ".yml"

/-- the data of a text -/
def read (path : Path) (text : String) : Except LoadError Data :=
  if isYaml path then (Yaml.read text).mapError (LoadError.ofYaml path)
  else ((Json.read text).map Data.ofJson).mapError fun e => .invalid path (causeOfJson e)

/-- the document of a text -/
def ofText (path : Path) (text : String) : Except LoadError Document := do
  (ofData (← read path text)).mapError fun found => .invalid path (.issues found)

/-- the document of a file -/
def load (path : Path) (octets : List UInt8) : Except LoadError Document :=
  match Text.Utf8.decode octets with
  | .ok text => ofText path (String.ofList (Text.unifyNewlines text.toList))
  | .error fault => .error (.notText fault)

end Document

end CodecCompiler
