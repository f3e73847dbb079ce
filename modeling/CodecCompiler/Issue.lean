/-
Issues: what validation finds wrong with a value, and where. All issues of a value are collected in the order in which
its parts are declared; a check succeeds only when none of its parts has an issue.

- `Issue` is a place and a problem; `Problem.kind` and `Problem.message` are the words for it.
- `Checked` is a checked value or its issues; `Checked.both` keeps the issues of both sides.
- Half of a surrogate pair that stands alone is no part of a string: `Checked.string` refuses it, and `Checked.named`
  refuses an object with such a name, whatever else is wrong with it.
-/
import CodecCompiler.Text.Basic

namespace CodecCompiler

/-- a step from a value to one of its parts -/
inductive Step where
  | name (s : String)
  | index (n : Int)
  deriving DecidableEq, Repr

/-- what is wrong with a value -/
inductive Problem where
  | missing
  | unknownKey
  | keyNotText
  | notInstance (type : String)
  | notNode
  | noTag
  | unknownTag (shown : String) (expected : List String)
  | notMapping
  | notList
  | emptyList
  | notText
  | badText
  | emptyText
  | notInteger
  | unreadableInteger
  | notNumber
  | unreadableNumber
  | notTruth
  | unreadableTruth
  | notChoice (choices : List String)
  | notMember (type : String)
  | frozen
  /-- a value inside itself -/
  | loop
  | dangling (id : String)
  deriving DecidableEq, Repr

namespace Problem

/-- the short name of a problem -/
def kind : Problem → String
  | missing => "missing"
  | unknownKey => "extra_forbidden"
  | keyNotText => "invalid_key"
  | notInstance _ => "model_type"
  | notNode => "model_attributes_type"
  | noTag => "union_tag_not_found"
  | unknownTag _ _ => "union_tag_invalid"
  | notMapping => "dict_type"
  | notList => "list_type"
  | emptyList => "too_short"
  | notText => "string_type"
  | badText => "string_unicode"
  | emptyText => "string_too_short"
  | notInteger => "int_type"
  | unreadableInteger => "int_parsing"
  | notNumber => "float_type"
  | unreadableNumber => "float_parsing"
  | notTruth => "bool_type"
  | unreadableTruth => "bool_parsing"
  | notChoice _ => "enum"
  | notMember _ => "is_instance_of"
  | frozen => "frozen_instance"
  | loop => "recursion_loop"
  | dangling _ => "value_error"

/-- a text between single quotes -/
def inQuotes (s : String) : String := "'" ++ s ++ "'"

/-- what a problem is reported as -/
def message : Problem → String
  | missing => "Field required"
  | unknownKey => "Extra inputs are not permitted"
  | keyNotText => "Keys should be strings"
  | notInstance type => "Input should be a valid dictionary or instance of " ++ type
  | notNode => "Input should be a valid dictionary or object to extract fields from"
  | noTag => "Unable to extract tag using discriminator 'type'"
  | unknownTag shown expected =>
    "Input tag " ++ inQuotes shown ++ " found using 'type' does not match any of the expected tags: "
      ++ ", ".intercalate (expected.map inQuotes)
  | notMapping => "Input should be a valid dictionary"
  | notList => "Input should be a valid list"
  | emptyList => "List should have at least 1 item after validation, not 0"
  | notText => "Input should be a valid string"
  | badText => "Input should be a valid string, unable to parse raw data as a unicode string"
  | emptyText => "String should have at least 1 character"
  | notInteger => "Input should be a valid integer"
  | unreadableInteger => "Input should be a valid integer, unable to parse string as an integer"
  | notNumber => "Input should be a valid number"
  | unreadableNumber => "Input should be a valid number, unable to parse string as a number"
  | notTruth => "Input should be a valid boolean"
  | unreadableTruth => "Input should be a valid boolean, unable to interpret input"
  | notChoice choices => "Input should be " ++ " or ".intercalate (choices.map inQuotes)
  | notMember type => "Input should be an instance of " ++ type
  | frozen => "Instance is frozen"
  | loop => "Recursion error - cyclic reference detected"
  | dangling id => "Value error, ref " ++ inQuotes id ++ " has no entry in definitions"

end Problem

/-- a problem and where it is, from the outermost value inwards -/
structure Issue where
  place : List Step
  problem : Problem
  deriving DecidableEq, Repr

/-- a checked value, or all its issues -/
abbrev Checked (α : Type) := Except (List Issue) α

namespace Checked

variable {α β γ : Type}

/-- the value itself has a problem -/
def fail (problem : Problem) : Checked α := .error [⟨[], problem⟩]

/-- the issues, none for a value -/
def issues : Checked α → List Issue
  | .ok _ => []
  | .error found => found

/-- joins two checks and keeps the issues of both -/
def both (f : α → β → γ) (a : Checked α) (b : Checked β) : Checked γ :=
  match a, b with
  | .ok a, .ok b => .ok (f a b)
  | a, b => .error (a.issues ++ b.issues)

/-- gives a checked function a checked argument, and keeps the issues of both -/
def ap (f : Checked (α → β)) (a : Checked α) : Checked β := both (fun f a => f a) f a

/-- a value that also depends on a check without a value -/
def also (a : Checked α) (b : Checked Unit) : Checked α := both (fun a _ => a) a b

/-- the issues as they look from the outside, steps further away -/
def under (steps : List Step) (a : Checked α) : Checked α :=
  a.mapError fun found => found.map fun issue => { issue with place := steps ++ issue.place }

/-- the string that a text is -/
def string (t : Text) : Checked String :=
  match t.toString? with
  | some s => .ok s
  | none => fail .badText

/-- a checked object whose names have to be strings -/
def named (names : List Text) (result : Checked α) : Checked α :=
  if names.all Text.isString then result else fail .badText

@[simp] theorem both_ok (f : α → β → γ) (a : α) (b : β) : both f (.ok a) (.ok b) = .ok (f a b) := rfl

@[simp] theorem ap_ok (f : α → β) (a : α) : ap (.ok f) (.ok a) = .ok (f a) := rfl

@[simp] theorem also_ok (a : α) (u : Unit) : also (.ok a) (.ok u) = .ok a := rfl

@[simp] theorem under_ok (steps : List Step) (a : α) : under steps (.ok a) = .ok a := rfl

theorem both_eq_ok_iff {f : α → β → γ} {a : Checked α} {b : Checked β} {c : γ} :
    both f a b = .ok c ↔ ∃ x y, a = .ok x ∧ b = .ok y ∧ f x y = c := by
  cases a <;> cases b <;> simp [both]

theorem also_eq_ok_iff {a : Checked α} {b : Checked Unit} {x : α} :
    also a b = .ok x ↔ a = .ok x ∧ b = .ok () := by
  cases a <;> cases b <;> simp [also, both]

theorem under_eq_ok_iff {steps : List Step} {a : Checked α} {x : α} : under steps a = .ok x ↔ a = .ok x := by
  cases a with
  | ok a => rw [under_ok]
  | error found => exact iff_of_false (fun h => nomatch h) fun h => nomatch h

end Checked

end CodecCompiler
