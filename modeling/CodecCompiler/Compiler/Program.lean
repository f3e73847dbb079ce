/-
Programs of custom handlers: what a handler that a caller writes does with a codec. A program compiles codecs, one after
the other, and goes on with each fragment as it sees fit; it ends with a fragment or with an error. Whether a codec
compiles is not its business: where one fails, the program fails with it.

- `CompileError` is why a codec cannot be compiled.
- `Program` is one use of a handler, `Script` a handler's program for every codec.
-/
import CodecCompiler.Codec.Basic
import CodecCompiler.Fragment

namespace CodecCompiler

/-- why a codec cannot be compiled -/
inductive CompileError where
  /-- no handler has the tag -/
  | unsupported (tag : Text)
  /-- a codec that is only a tag reaches a handler that needs its parts -/
  | bare (tag : Text)
  | merge (error : MergeError)
  /-- a recursive codec names a body that is not there -/
  | noBody (name : Text)
  /-- handlers pass codecs on without end -/
  | endless
  deriving DecidableEq, Repr

/-- what an unsupported tag is reported as; other causes have no words of their own -/
def CompileError.message : CompileError → Text
  | .unsupported tag => "No parser configured for codec " ++ tag
  | .bare _ | .merge _ | .noBody _ | .endless => ""

inductive Program where
  /-- ends with a fragment -/
  | give (fragment : Fields)
  /-- ends with an error -/
  | fail (error : CompileError)
  /-- compiles a codec, and goes on with its fragment -/
  | compile (codec : Codec) (next : Fields → Program)
  /-- makes the fragment that the kind of the handler's own codec prescribes, and goes on with it -/
  | prescribed (next : Fields → Program)

structure Script where
  /-- how much deeper codecs are entered because of it -/
  depth : Nat
  program : Codec → Program

instance : Inhabited Script := ⟨⟨0, fun _ => .give []⟩⟩

instance : Repr Script := ⟨fun _ _ => "script"⟩

end CodecCompiler
