/-
Registries: ordered lists of handlers. A handler compiles the codecs of one tag, and the first handler whose tag means
the same as the codec's is the one that counts, so a custom handler in front of the built-in ones replaces them.

- `Action` says what a handler does with its codec.
- `Registry.find?` and `Registry.index?` look a tag up; `Registry.tags` lists the distinct tags in lookup order.
- `Registry.builtin` holds one handler for each kind.
-/
import CodecCompiler.Compiler.Program

namespace CodecCompiler

/-- what a handler makes of a codec -/
inductive Action where
  /-- the fragment that the codec's kind prescribes -/
  | builtin
  /-- always the same fragment -/
  | constant (fragment : Fields)
  /-- the definitions compiled so far -/
  | reportCache
  /-- the settings of the compilation -/
  | reportContext
  /-- the fragment of another codec under a key -/
  | delegate (key : Text) (codec : Codec)
  /-- the fragment of another codec -/
  | replace (codec : Codec)
  /-- the fragment that the codec's kind prescribes, with fields written over it -/
  | extend (extra : Fields)
  /-- whatever a program of the caller's makes of it -/
  | custom (script : Script)
  deriving Repr, Inhabited

/-- the codec that an action compiles in place of its own -/
def Action.payload? : Action → Option Codec
  | .delegate _ c | .replace c => some c
  | .builtin | .constant _ | .reportCache | .reportContext | .extend _ | .custom _ => none

/-- how much deeper codecs are entered because of an action's program -/
def Action.reach : Action → Nat
  | .custom script => script.depth
  | .builtin | .constant _ | .reportCache | .reportContext | .delegate _ _ | .replace _ | .extend _ => 0

/-- an action for the codecs of a tag -/
structure Handler where
  tag : Tag
  action : Action
  deriving Repr, Inhabited

/-- does the handler compile codecs of a tag -/
def Handler.handles (h : Handler) (tag : Tag) : Bool := h.tag.name = tag.name

/-- handlers in lookup order -/
abbrev Registry := List Handler

namespace Registry

/-- the first handler of a tag -/
def find? (registry : Registry) (tag : Tag) : Option Handler := List.find? (·.handles tag) registry

/-- the position of the first handler of a tag -/
def index? (registry : Registry) (tag : Tag) : Option Nat := List.findIdx? (·.handles tag) registry

/-- the distinct tags in lookup order -/
def tags (registry : Registry) : List Text :=
  registry.foldl (fun seen h => if h.tag.name ∈ seen then seen else seen ++ [h.tag.name]) []

/-- one handler for each kind -/
def builtin : Registry := Kind.all.map fun k => ⟨.kind k, .builtin⟩

end Registry

end CodecCompiler
