/-
JSON values. Integers are unbounded and apart from 64-bit floating-point numbers, and objects keep the order of their
fields. Field names are meant to be distinct: `Json.WellFormed` says so, and what the reader builds satisfies it.

- `Json.decEq`: equality of values is decidable; it tells `1`, `1.0` and `true` apart.
- `Json.same`: equality as data, for which these three are one value and the order of fields does not count.
- `Json.truthy`: the values that count as true where a flag is wanted.
- `Scalar`: the values that are no collections.
-/
import CodecCompiler.Entries
import CodecCompiler.Number.Binary64

namespace CodecCompiler

inductive Json where
  | null
  | bool (b : Bool)
  | int (n : Int)
  | float (x : Binary64)
  | str (s : Text)
  | arr (items : List Json)
  | obj (fields : List (Text × Json))
  deriving Repr, Inhabited

/-- the fields of an object -/
abbrev Fields := Entries Json

namespace Json

/-! ## Equality -/

mutual

/-- decides equality of values -/
def decEq : (a b : Json) → Decidable (a = b)
  | .null, .null => isTrue rfl
  | .bool a, .bool b => decidable_of_iff (a = b) (by simp)
  | .int a, .int b => decidable_of_iff (a = b) (by simp)
  | .float a, .float b => decidable_of_iff (a = b) (by simp)
  | .str a, .str b => decidable_of_iff (a = b) (by simp)
  | .arr a, .arr b =>
    match decEqItems a b with
    | isTrue h => isTrue (by rw [h])
    | isFalse h => isFalse (by simpa using h)
  | .obj a, .obj b =>
    match decEqFields a b with
    | isTrue h => isTrue (by rw [h])
    | isFalse h => isFalse (by simpa using h)
  | .null, .bool _ | .null, .int _ | .null, .float _ | .null, .str _ | .null, .arr _ | .null, .obj _
  | .bool _, .null | .bool _, .int _ | .bool _, .float _ | .bool _, .str _ | .bool _, .arr _ | .bool _, .obj _
  | .int _, .null | .int _, .bool _ | .int _, .float _ | .int _, .str _ | .int _, .arr _ | .int _, .obj _
  | .float _, .null | .float _, .bool _ | .float _, .int _ | .float _, .str _ | .float _, .arr _ | .float _, .obj _
  | .str _, .null | .str _, .bool _ | .str _, .int _ | .str _, .float _ | .str _, .arr _ | .str _, .obj _
  | .arr _, .null | .arr _, .bool _ | .arr _, .int _ | .arr _, .float _ | .arr _, .str _ | .arr _, .obj _
  | .obj _, .null | .obj _, .bool _ | .obj _, .int _ | .obj _, .float _ | .obj _, .str _ | .obj _, .arr _ =>
    isFalse (by simp)

/-- decides equality of lists of values -/
def decEqItems : (a b : List Json) → Decidable (a = b)
  | [], [] => isTrue rfl
  | [], _ :: _ => isFalse (by simp)
  | _ :: _, [] => isFalse (by simp)
  | x :: xs, y :: ys =>
    match decEq x y, decEqItems xs ys with
    | isTrue h, isTrue h' => isTrue (by rw [h, h'])
    | isFalse h, _ => isFalse (by simp [h])
    | _, isFalse h => isFalse (by simp [h])

/-- decides equality of lists of fields -/
def decEqFields : (a b : List (Text × Json)) → Decidable (a = b)
  | [], [] => isTrue rfl
  | [], _ :: _ => isFalse (by simp)
  | _ :: _, [] => isFalse (by simp)
  | (k, x) :: xs, (l, y) :: ys =>
    if hk : k = l then
      match decEq x y, decEqFields xs ys with
      | isTrue h, isTrue h' => isTrue (by rw [hk, h, h'])
      | isFalse h, _ => isFalse (by simp [h])
      | _, isFalse h => isFalse (by simp [h])
    else isFalse (by simp [hk])

end

instance : DecidableEq Json := decEq

/-- equality as numbers, for which the truth values count as 0 and 1; `none` when one is no number -/
def sameNumber? : Json → Json → Option Bool
  | .bool a, b => go (.inl (if a then 1 else 0)) b
  | .int a, b => go (.inl a) b
  | .float a, b => go (.inr a) b
  | _, _ => none
where
  /-- compares a number with a value -/
  go (a : Int ⊕ Binary64) : Json → Option Bool
    | .bool b => exact a (if b then 1 else 0)
    | .int b => exact a b
    | .float b =>
      match a with
      | .inl n => some (b.toInt? = some n)
      | .inr x => some (x.numEq b)
    | _ => none
  /-- compares a number with an integer -/
  exact (a : Int ⊕ Binary64) (n : Int) : Option Bool :=
    match a with
    | .inl m => some (m = n)
    | .inr x => some (x.toInt? = some n)

mutual

/-- equality as data: numbers by value, lists in order, objects whatever the order of their fields -/
def same : Json → Json → Bool
  | .null, .null => true
  | .str a, .str b => a = b
  | .arr a, .arr b => sameItems a b
  | .obj a, .obj b => a.length = b.length && sameFields a b
  | a, b => (sameNumber? a b).getD false

/-- equality as data of two lists, item by item -/
def sameItems : List Json → List Json → Bool
  | [], [] => true
  | x :: xs, y :: ys => same x y && sameItems xs ys
  | _, _ => false

/-- does every field have an equal one among others -/
def sameFields : List (Text × Json) → Fields → Bool
  | [], _ => true
  | (k, x) :: xs, ys =>
    (match Entries.get? ys k with
      | some y => same x y
      | none => false) && sameFields xs ys

end

/-! ## Other properties -/

/-- the values that count as true: all but null, false, zero and what is empty -/
def truthy : Json → Bool
  | .null => false
  | .bool b => b
  | .int n => n ≠ 0
  | .float x => x.toInt? ≠ some 0
  | .str s => !s.isEmpty
  | .arr items => !items.isEmpty
  | .obj fields => !fields.isEmpty

/-- the field names are distinct in every object -/
inductive WellFormed : Json → Prop where
  | null : WellFormed .null
  | bool (b : Bool) : WellFormed (.bool b)
  | int (n : Int) : WellFormed (.int n)
  | float (x : Binary64) : WellFormed (.float x)
  | str (s : Text) : WellFormed (.str s)
  | arr {items : List Json} : (∀ v ∈ items, WellFormed v) → WellFormed (.arr items)
  | obj {fields : Fields} : Entries.Distinct fields → (∀ e ∈ fields, WellFormed e.2) → WellFormed (.obj fields)

/-- a list of texts -/
def texts (ss : List Text) : Json := .arr (ss.map .str)

end Json

/-- a value that is no collection -/
inductive Scalar where
  | null
  | bool (b : Bool)
  | int (n : Int)
  | float (x : Binary64)
  | str (s : Text)
  deriving DecidableEq, Repr, Inhabited

def Scalar.toJson : Scalar → Json
  | null => .null
  | bool b => .bool b
  | int n => .int n
  | float x => .float x
  | str s => .str s

end CodecCompiler
