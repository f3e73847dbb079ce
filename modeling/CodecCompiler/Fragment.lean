/-
Schema fragments: the objects a compiled schema is made of, and the rule that merges object schemas under one
`additionalProperties`.

- `mergeObjects` joins two object schemas: properties by last write, required names one list behind the other.
- `intersect` joins the fragments of an intersection's members. Without a union among them every member is folded into
  one object schema. With unions, each branch is merged with each object member, and the results form one `anyOf`.

Fragments of custom handlers may hold anything under `properties`, `required` and `anyOf`. A value is then read as
widely as it can be: objects give their fields or names, lists their items, strings their characters, and a list of
pairs gives named values. What has no such reading is a `MergeError`.

- `Named`: named values while they are merged. The name in a pair may be any scalar: `1`, `1.0` and `true` are then one
  name, and the text `"1"` is another. In the object schema that they end up in each name is written as a text.
-/
import CodecCompiler.Json.Basic
import CodecCompiler.Number.Layout

namespace CodecCompiler

/-- why fragments cannot be merged -/
inductive MergeError where
  /-- a value without items stands where items are needed, or a list or object where a name is needed -/
  | noItems
  /-- an item stands for a field but has not exactly two parts -/
  | noPair
  /-- a schema is not an object -/
  | noObject
  deriving DecidableEq, Repr

/-! ## Named values -/

/-- the text that a scalar is written as where a name is wanted -/
def Scalar.asName : Scalar → Text
  | str s => s
  | null => "null"
  | bool b => if b then "true" else "false"
  | int n => .ofChars (intDigits n)
  | float x => .ofChars (Layout.message.float x)

/-- values with names, in order -/
abbrev Named := List (Scalar × Json)

namespace Named

/-- the fields of an object, by texts -/
def ofFields (fields : Fields) : Named := fields.map fun e => (.str e.1, e.2)

/-- the fields of the object that named values make up -/
def toFields (named : Named) : Fields := named.map fun e => (e.1.asName, e.2)

/-- gives a name a value: in the place of an equal name when there is one, at the end otherwise -/
def set : Named → Scalar → Json → Named
  | [], name, value => [(name, value)]
  | (k, v) :: rest, name, value =>
    if k.toJson.same name.toJson then (k, value) :: rest else (k, v) :: set rest name value

/-- the values of `b` written over those of `a`, one after the other -/
def merge (a b : Named) : Named := b.foldl (fun named e => named.set e.1 e.2) a

/-- all of them merged from left to right -/
def mergeAll (all : List Named) : Named := all.foldl merge []

theorem toFields_ofFields (fields : Fields) : toFields (ofFields fields) = fields := by
  rw [toFields, ofFields, List.map_map]
  exact List.map_id' fields

/-- texts are equal names just where they are the same -/
theorem set_ofFields (fields : Fields) (name : Text) (value : Json) :
    set (ofFields fields) (.str name) value = ofFields (Entries.set fields name value) := by
  induction fields with
  | nil => rfl
  | cons e rest ih =>
    change (if decide (e.1 = name) = true then _
      else (Scalar.str e.1, e.2) :: set (ofFields rest) (.str name) value) = _
    rw [Entries.set, ih]
    by_cases h : e.1 = name
    · rw [if_pos (decide_eq_true h), if_pos h]
      rfl
    · rw [if_neg (by simpa using h), if_neg h]
      rfl

theorem merge_ofFields (a b : Fields) : merge (ofFields a) (ofFields b) = ofFields (Entries.merge a b) := by
  induction b generalizing a with
  | nil => rfl
  | cons e rest ih =>
    change merge (set (ofFields a) (.str e.1) e.2) (ofFields rest) = _
    rw [set_ofFields, ih]
    rfl

/-- **By texts alone** they are merged as the entries of objects are. -/
theorem mergeAll_ofFields (maps : List Fields) : mergeAll (maps.map ofFields) = ofFields (Entries.mergeAll maps) := by
  have hfold : ∀ collected : Fields, (maps.map ofFields).foldl merge (ofFields collected) =
      ofFields (maps.foldl Entries.merge collected) := by
    induction maps with
    | nil => exact fun _ => rfl
    | cons fields maps ih =>
      intro collected
      rw [List.map_cons, List.foldl_cons, merge_ofFields, ih]
      rfl
  exact hfold []

end Named

namespace Fragment

/-! ## Reading the parts of a fragment -/

/-- the items of a value: those of a list, the characters of a string, the names of an object -/
def items : Json → Except MergeError (List Json)
  | .arr items => .ok items
  | .str s => .ok (s.points.map fun p => .str ⟨[p]⟩)
  | .obj fields => .ok (fields.map fun e => .str e.1)
  | _ => .error .noItems

/-- the name that a value stands for -/
def nameOf : Json → Except MergeError Scalar
  | .null => .ok .null
  | .bool b => .ok (.bool b)
  | .int n => .ok (.int n)
  | .float x => .ok (.float x)
  | .str s => .ok (.str s)
  | .arr _ | .obj _ => .error .noItems

/-- the named value that an item of two parts stands for -/
def pair (item : Json) : Except MergeError (Scalar × Json) := do
  match ← items item with
  | [name, value] => return (← nameOf name, value)
  | _ => throw .noPair

/-- the named values that a value writes when it is merged into others -/
def namedOf : Json → Except MergeError Named
  | .obj fields => .ok (.ofFields fields)
  | value => do (← items value).mapM pair

/-- the fields of a value that has to be an object -/
def asObject : Json → Except MergeError Fields
  | .obj fields => .ok fields
  | _ => .error .noObject

/-! ## Merging -/

/-- merges values from left to right by last write -/
def mergeValues (values : List Json) : Except MergeError Fields := do
  return (Named.mergeAll (← values.mapM namedOf)).toFields

/-- an object schema -/
def object (properties : Fields) (allowAdditional : Bool) (required : List Json) : Fields :=
  [("type", .str "object"), ("properties", .obj properties), ("additionalProperties", .bool allowAdditional),
    ("required", .arr required)]

/-- joins two object schemas under one `additionalProperties`; a part that is absent counts as empty -/
def mergeObjects (a b : Fields) (allowAdditional : Bool) : Except MergeError Fields := do
  let part (schema : Fields) (name : Text) (absent : Json) : Json := (Entries.get? schema name).getD absent
  let properties ← mergeValues [part a "properties" (.obj []), part b "properties" (.obj [])]
  let requiredOfA ← items (part a "required" (.arr []))
  let requiredOfB ← items (part b "required" (.arr []))
  return object properties allowAdditional (requiredOfA ++ requiredOfB)

/-- the alternatives that a fragment exposes; null is none -/
def alternatives? (schema : Fields) : Option Json :=
  match Entries.get? schema "anyOf" with
  | some .null | none => none
  | some value => some value

/-- is it an object schema -/
def isObject (schema : Fields) : Bool := Entries.get? schema "type" = some (.str "object")

/-- every branch of every union merged with every object schema, in that order of nesting -/
def product (unions : List Json) (objects : List Fields) (allowAdditional : Bool) : Except MergeError (List Json) := do
  let merged ← unions.mapM fun union => do
    (← items union).mapM fun branch =>
      objects.mapM fun schema => do
        return Json.obj (← mergeObjects schema (← asObject branch) allowAdditional)
  return merged.flatten.flatten

/-- a part of a member, where whatever does not count as true is as good as absent -/
def partOrEmpty (schema : Fields) (name : Text) (empty : Json) : Json :=
  match Entries.get? schema name with
  | some value => if value.truthy then value else empty
  | none => empty

/-- folds the members' properties and required names into those collected before -/
def fold : List Fields → Named × List Json → Except MergeError (Named × List Json)
  | [], collected => .ok collected
  | schema :: rest, (properties, required) => do
    let properties := properties.merge (← namedOf (partOrEmpty schema "properties" (.obj [])))
    let required := required ++ (← items (partOrEmpty schema "required" (.arr [])))
    fold rest (properties, required)

/-- joins the fragments of an intersection's members -/
def intersect (schemas : List Fields) (allowAdditional : Bool) : Except MergeError Fields := do
  match schemas.filterMap alternatives? with
  | [] =>
    let (properties, required) ← fold schemas ([], [])
    return object properties.toFields allowAdditional required
  | unions => return [("anyOf", .arr (← product unions (schemas.filter isObject) allowAdditional))]

end Fragment

end CodecCompiler
