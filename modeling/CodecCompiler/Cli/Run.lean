/-
Running a command line: the request is read, the document compiled, and the answer printed or stored.

- `Cli.run` runs a command line with a console and some access to files, and tells the outcome.
- `Outcome`: what was printed and the exit code. A command line that is not understood, or names a document that does
  not exist, has exit code 2. A document that cannot be compiled is reported, with exit code 1. A crash also has exit
  code 1, and prints nothing.
-/
import CodecCompiler.Cli.Definitions
import CodecCompiler.Cli.Request
import CodecCompiler.Compiler.Basic
import CodecCompiler.Document.Build
import CodecCompiler.Document.Grammar
import CodecCompiler.Document.Loading
import CodecCompiler.Files.Access
import CodecCompiler.Json.Writing

namespace CodecCompiler

/-- why a run broke off -/
inductive Crash where
  /-- the document is a folder -/
  | folder
  /-- a tagged scalar of the document has no reading -/
  | unreadable (failure : Yaml.Failure)
  | compile (error : CompileError)
  /-- the document could not be reached, or the schema not be stored -/
  | refused (reason : Refusal)
  /-- an integer in what is to be written has too many digits -/
  | longNumber
  /-- the markup of a message or of a table is not in order -/
  | markup (failure : Markup.Failure)
  /-- a message cannot be printed, for there is half of a surrogate pair in it -/
  | notString
  deriving Repr

inductive Outcome where
  | done (output : String)
  /-- the document was refused with a message -/
  | refused (output : String)
  /-- the command line was not understood -/
  | misused
  | crashed (cause : Crash)
  deriving Repr

namespace Outcome

def exitCode : Outcome → Nat
  | done _ => 0
  | refused _ | crashed _ => 1
  | misused => 2

/-- what was printed -/
def output : Outcome → String
  | done text | refused text => text
  | misused | crashed _ => ""

end Outcome

namespace Cli

def version : String := "0.1.0"

/-- an outcome with a message; its text is markup -/
def announce (console : Console) (outcome : String → Outcome) (text : String) : Outcome :=
  match console.message text.toList with
  | .ok lines => outcome (Console.output lines)
  | .error failure => .crashed (.markup failure)

/-- the report that a document is refused -/
def report (console : Console) (reason : String) : Outcome := announce console .refused ("Error: " ++ reason)

/-- the outcome of a document that could not be loaded -/
def ofLoadError (console : Console) : LoadError → Outcome
  | .unreadable failure => .crashed (.unreadable failure)
  | e => report console e.message

/-- the outcome of a document that could not be compiled -/
def ofCompileError (console : Console) : CompileError → Outcome
  | .unsupported tag => report console (CompileError.message (.unsupported tag)).lossy
  | e => .crashed (.compile e)

/-- the schema of the document that a path leads to -/
def schemaOf (console : Console) (document : Path) (options : Options) : Source → Except Outcome Fields
  | .missing => .error .misused
  | .folder => .error (.crashed .folder)
  | .refused reason => .error (.crashed (.refused reason))
  | .file octets => do
    let doc ← (Document.load document octets).mapError (ofLoadError console)
    (generate doc.build options).1.mapError (ofCompileError console)

/-- stores the text of a value in a file, if one is given, and says so, or else prints it; the folders around the file
are made also where the value cannot be written -/
def deliver {m : Type → Type} [Monad m] (console : Console) (files : Files m) (out : Option Path)
    (text? : Option String) (notice : String) : m Outcome :=
  match out, text? with
  | none, some text => return .done (text ++ "\n")
  | none, none => return .crashed .longNumber
  | some path, some text => do
    match ← files.store path text with
    | some reason => return .crashed (.refused reason)
    | none => return announce console .done (notice ++ ": " ++ path.text)
  | some path, none => do
    match ← files.prepare path with
    | some reason => return .crashed (.refused reason)
    | none => return .crashed .longNumber

/-- the definitions of a schema -/
def definitionsOf (schema : Fields) : Fields :=
  match Entries.get? schema "definitions" with
  | some definitions => Definitions.fragmentOf definitions
  | none => []

/-- the outcome of listing a schema's definitions; texts that are not printed need not be strings -/
def list (console : Console) (document : Path) (schema : Fields) : Outcome :=
  match definitionsOf schema with
  | [] => announce console .done "No recursive definitions."
  | definitions =>
    match Definitions.lines console document definitions with
    | .ok lines =>
      if lines = [] ∨ Definitions.areStrings definitions then .done (Console.output lines) else .crashed .notString
    | .error failure => .crashed (.markup failure)

/-- answers a request -/
def answer {m : Type → Type} [Monad m] (console : Console) (files : Files m) : Request → m Outcome
  | .help => return .done ""
  | .version => return .done (version ++ "\n")
  | .schema document out options pretty => do
    match schemaOf console document options (← files.source document) with
    | .ok schema => deliver console files out ((Json.obj schema).text? pretty) "Schema written"
    | .error outcome => return outcome
  | .definitions document options => do
    match schemaOf console document options (← files.source document) with
    | .ok schema => return list console document schema
    | .error outcome => return outcome
  | .documentSchema out pretty => deliver console files out (Document.grammar.text? pretty) "Document schema written"

/-- runs a command line -/
def run {m : Type → Type} [Monad m] (console : Console) (files : Files m) (args : List String) : m Outcome :=
  match Request.ofArguments args with
  | some request => answer console files request
  | none => return .misused

end Cli

end CodecCompiler
