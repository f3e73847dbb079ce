/-
Options of a compilation, as a caller gives them: which side of the codecs the schema describes, custom handlers, and
whether object schemas accept further properties. Given options are checked field by field; they cannot be changed
afterwards.

- `Options.check` checks fields whose handlers are given apart.
- `Options.ofJson` checks a JSON value; none of its values is a handler.
- `truthOf` is the reading of a flag that is not a truth value itself.
-/
import CodecCompiler.Compiler.Registry
import CodecCompiler.Issue

namespace CodecCompiler

/-- the side of a codec that a schema describes; no built-in handler reads it -/
inductive Target where
  | encoded
  | decoded
  deriving DecidableEq, Repr, Inhabited

namespace Target

def name : Target → String
  | .encoded => "encoded"
  | .decoded => "decoded"

def all : List Target := [.encoded, .decoded]

/-- the side of a name -/
def ofName? (name : Text) : Option Target := all.find? fun t => t.name = name

end Target

structure Options where
  target : Target := .encoded
  handlers : Registry := []
  allowAdditional : Bool := false
  deriving Repr, Inhabited

/-! ## Flags -/

/-- the truth value that a string stands for, letter case ignored -/
def truthOfString (s : String) : Checked Bool :=
  let lower := s.map Char.toLower
  if lower ∈ ["0", "off", "f", "false", "n", "no"] then .ok false
  else if lower ∈ ["1", "on", "t", "true", "y", "yes"] then .ok true
  else Checked.fail .unreadableTruth

/-- the truth value that an integer stands for; one of more than 64 bits is of the wrong type altogether -/
def truthOfInt (n : Int) : Checked Bool :=
  if n = 0 then .ok false
  else if n = 1 then .ok true
  else if -0x8000000000000000 ≤ n ∧ n < 0x8000000000000000 then Checked.fail .unreadableTruth
  else Checked.fail .notTruth

/-- the truth value that a float stands for; one that is no integer is of the wrong type altogether -/
def truthOfFloat (x : Binary64) : Checked Bool :=
  match x.toInt? with
  | some n => truthOfInt n
  | none => Checked.fail .notTruth

/-- the truth value that a JSON value stands for -/
def truthOf : Json → Checked Bool
  | .bool b => .ok b
  | .int n => truthOfInt n
  | .float x => truthOfFloat x
  | .str s => Checked.string s >>= truthOfString
  | .null | .arr _ | .obj _ => Checked.fail .notTruth

namespace Options

/-! ## Checking -/

/-- the side that a value names -/
def checkTarget : Json → Checked Target
  | .str s => do
    match Target.ofName? (← Checked.string s) with
    | some t => return t
    | none => Checked.fail (.notChoice (Target.all.map Target.name))
  | _ => Checked.fail (.notChoice (Target.all.map Target.name))

/-- handlers given as a JSON value: no such value is a handler, so only the empty list passes -/
def checkHandlers : Json → Checked Registry
  | .arr [] => .ok []
  | .arr items => .error (items.mapIdx fun i _ => ⟨[.index i], .notMember "Parser"⟩)
  | _ => Checked.fail .notList

/-- a field that may be absent -/
def field {α : Type} (fields : Fields) (name : String) (check : Json → Checked α) (absent : α) : Checked α :=
  match Entries.get? fields name with
  | some value => Checked.under [.name name] (check value)
  | none => .ok absent

/-- the name under which further properties are allowed: `allowAdditional` where both of its names are given -/
def allowName (fields : Fields) : String :=
  if Entries.has fields "allowAdditional" then "allowAdditional" else "allow_additional"

/-- fields that no option has -/
def unknown (fields : Fields) : Checked Unit :=
  let known : List Text := ["target", "parsers", allowName fields]
  match (Entries.names fields).filter fun name => name ∉ known with
  | [] => .ok ()
  | names => .error (names.map fun name => ⟨[.name name.lossy], .unknownKey⟩)

/-- options given as fields, with the handlers given apart if `some` -/
def check (fields : Fields) (handlers : Option Registry) : Checked Options :=
  let target := field fields "target" checkTarget .encoded
  let handlers := match handlers with
    | some handlers => .ok handlers
    | none => field fields "parsers" checkHandlers []
  let allow := field fields (allowName fields) truthOf false
  Checked.named (Entries.names fields)
    (Checked.also (((Checked.ap (.ok Options.mk) target).ap handlers).ap allow) (unknown fields))

/-- options given as a JSON value -/
def ofJson : Json → Checked Options
  | .obj fields => check fields none
  | _ => Checked.fail (.notInstance "GenerationOptions")

/-- the issue with changing an option afterwards -/
def setIssue (name : Text) : Issue := ⟨[.name name.lossy], .frozen⟩

end Options

end CodecCompiler
