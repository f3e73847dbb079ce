/-
The command line on the machine's own files.

- `machine` is the access to them, `terminal` the console; its width may be said by the variable `COLUMNS`.
- `main` runs the arguments, prints the output and returns the exit code; the cause of a crash goes to the error stream.
-/
import CodecCompiler.Cli.Run
import CodecCompiler.Text.Literal

namespace CodecCompiler

/-- why the machine could not store a file -/
def refusalOf : IO.Error → Refusal
  | .alreadyExists .. => .occupied
  | .noFileOrDirectory .. => .missing
  | .inappropriateType .. => .isFolder
  | _ => .denied

/-- reads a file that could be opened; one that cannot be read then is a folder -/
def contentOf (handle : IO.FS.Handle) : IO Source :=
  (do return .file (← handle.readBinToEnd).toList) <|> return .folder

/-- does something with files, and tells why it was refused -/
def attempt (action : IO Unit) : IO (Option Refusal) := do
  try
    action
    return none
  catch e => return some (refusalOf e)

/-- the machine's files -/
def machine : Files IO where
  source path := (do contentOf (← IO.FS.Handle.mk path.text .read)) <|> return .missing
  prepare path := attempt (IO.FS.createDirAll path.parent.text)
  store path text := attempt do
    IO.FS.createDirAll path.parent.text
    IO.FS.writeFile path.text text

/-- the console, which has eighty cells in a line if nothing else is said -/
def terminal : IO Console := do
  let width := (← IO.getEnv "COLUMNS").bind String.toNat?
  return ⟨width.getD 80, Literal.areParameters⟩

end CodecCompiler

open CodecCompiler in
def main (args : List String) : IO UInt32 := do
  let outcome ← Cli.run (← terminal) machine args
  IO.print outcome.output
  if let .crashed cause := outcome then
    IO.eprintln (reprStr cause)
  return outcome.exitCode.toUInt32
