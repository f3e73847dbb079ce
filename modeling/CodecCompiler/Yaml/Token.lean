/-
Tokens of a YAML text, and the ways in which reading one can fail. Indentation and simple keys are made explicit: block
collections have a start and an end, and every key and value a mark of its own.
-/
import CodecCompiler.Text.Basic

namespace CodecCompiler.Yaml

/-- why a text has no value -/
inductive Failure where
  /-- it breaks the rules of YAML, or names a tag that is not known, or joins what cannot be joined -/
  | malformed
  /-- a scalar of a type that has no value of that spelling -/
  | noValue
  /-- a truth value that is none of the known words -/
  | noTruthWord
  /-- a number without a character -/
  | emptyNumber
  /-- a date that does not look like one -/
  | noDate
  /-- a date that is no scalar -/
  | noScalar
  /-- a number beyond what can be counted -/
  | tooLarge
  /-- a mapping that stands for its own text, so that seeking it does not end -/
  | endless
  deriving DecidableEq, Repr, Inhabited

inductive Directive where
  /-- the version of YAML -/
  | version (major : Nat)
  /-- the tags that a handle stands for begin with `start` -/
  | handle (name start : String)
  | other
  deriving DecidableEq, Repr, Inhabited

inductive Token where
  | directive (d : Directive)
  | documentStart
  | documentEnd
  | streamEnd
  | blockSequenceStart
  | blockMappingStart
  | blockEnd
  | flowSequenceStart
  | flowSequenceEnd
  | flowMappingStart
  | flowMappingEnd
  | blockEntry
  | flowEntry
  | key
  | value
  | alias (name : String)
  | anchor (name : String)
  /-- a tag by its handle, if it has one, and the rest -/
  | tag (handle : Option String) (suffix : String)
  | scalar (text : Text) (plain : Bool)
  /-- the text cannot be split further -/
  | failure (f : Failure)
  deriving DecidableEq, Repr, Inhabited

end CodecCompiler.Yaml
