/-
Requests: what a command line asks for. There are four commands; each has options of its own.

- `Request.ofArguments` is the whole; a command line that is not understood asks for nothing.
-/
import CodecCompiler.Cli.Arguments
import CodecCompiler.Compiler.Options
import CodecCompiler.Files.Path

namespace CodecCompiler

inductive Request where
  | help
  | version
  /-- compiles a document, and writes the schema to a file, if one is given, or else on the output -/
  | schema (document : Path) (out : Option Path) (options : Options) (pretty : Bool)
  /-- compiles a document and lists its definitions -/
  | definitions (document : Path) (options : Options)
  /-- writes the schema of documents -/
  | documentSchema (out : Option Path) (pretty : Bool)
  deriving Repr

namespace Request

/-- the side that is asked for; it must be one of the two -/
def target? (a : Arguments) : Option Target :=
  match a.value? "target" with
  | some name => Target.ofName? name
  | none => some .encoded

def options? (a : Arguments) : Option Options :=
  (target? a).map fun target => { target, allowAdditional := a.isOn "allow-additional" false }

def out? (a : Arguments) : Option Path := (a.value? "out").map Path.ofString

def isPretty (a : Arguments) : Bool := a.isOn "pretty" true

/-- the path of the document -/
def document (a : Arguments) : Path := Path.ofString (a.others.headD "")

/-- a request from the arguments of a command, or one for help -/
def ofCommand (u : Usage) (args : List String) (request : Arguments → Option Request) : Option Request :=
  (Arguments.read u args).bind fun a => if a.help then some .help else request a

/-- the request of a command -/
def ofName (command : String) (args : List String) : Option Request :=
  match command with
  | "version" => ofCommand {} args fun _ => some .version
  | "export" =>
    ofCommand ⟨["out", "target"], ["allow-additional", "pretty", "verbose"], 1⟩ args fun a =>
      (options? a).map fun options => .schema (document a) (out? a) options (isPretty a)
  | "definitions" =>
    ofCommand ⟨["target"], ["allow-additional"], 1⟩ args fun a => (options? a).map (.definitions (document a) ·)
  | "document-schema" => ofCommand ⟨["out"], ["pretty"], 0⟩ args fun a => some (.documentSchema (out? a) (isPretty a))
  | _ => none

/-- the request of a command line: a command with its arguments, behind a double dash or not. Help may be asked for
before the command -/
def ofArguments (args : List String) : Option Request :=
  let behind := args.dropWhile (· = "--help")
  if behind.length < args.length then
    if behind.head?.any fun arg => Arguments.isOption arg && arg ≠ "--" then none else some .help
  else
    match args with
    | "--" :: command :: args | command :: args => ofName command args
    | [] => none

end Request

end CodecCompiler
