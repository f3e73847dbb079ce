/-
Literals: the values that a tag of markup may have. They are numbers, texts in quotes, the words `True`, `False` and
`None`, an ellipsis, and tuples, sets and tables of values. The values of a set and the keys of a table must be solid:
there are no sets or tables in them. In front of values in round brackets the name of an action may stand.

- `Literal.tokens` are the tokens of a text, `Literal.value` reads a value from tokens.
- `Literal.isValue` and `Literal.areParameters` tell which texts are values, or values with or without an action.
-/
import CodecCompiler.Text.Digits
import CodecCompiler.Text.Spaces

namespace CodecCompiler.Literal

/-! ## Tokens -/

inductive Token where
  | number (imaginary : Bool)
  /-- a text in quotes, of characters or of octets -/
  | quoted (octets : Bool)
  | word (name : List Char)
  /-- plus or minus -/
  | sign
  | ellipsis
  /-- a bracket, a comma or a colon -/
  | mark (c : Char)
  deriving DecidableEq, Repr

/-- digits at the front of a text, which single underscores may part, and what is behind them -/
def digits (isDigit : Char → Bool) (cs : List Char) : List Char × List Char :=
  let run := cs.takeWhile fun c => isDigit c || c = '_'
  let parts := run.splitOn '_'
  if parts.all (· ≠ []) then (parts.flatten, cs.drop run.length) else ([], cs)

/-- an exponent at the front of a text left out, if there is one -/
def skipExponent : List Char → List Char
  | e :: cs =>
    let behind := match cs with
      | '+' :: cs | '-' :: cs => cs
      | cs => cs
    if e = 'e' ∨ e = 'E' then
      match digits Char.isDigit behind with
      | ([], _) => e :: cs
      | (_, rest) => rest
    else e :: cs
  | [] => []

/-- a number in a base that is said by a letter -/
def based (base : Nat) (cs : List Char) : Option (Token × List Char) :=
  match digits (fun c => (Text.hexValue c).any (· < base)) cs with
  | ([], _) => none
  | (_, rest) => some (.number false, rest)

/-- a number of decimal digits; whole numbers have no zeros in front, and not too many digits -/
def decimal (cs : List Char) : Option (Token × List Char) :=
  let (whole, rest) := digits Char.isDigit cs
  let (fraction, behind) := match rest with
    | '.' :: rest => digits Char.isDigit rest
    | rest => ([], rest)
  let behind := skipExponent behind
  match behind with
  | 'j' :: rest | 'J' :: rest => some (.number true, rest)
  | _ =>
    let isWhole := behind.length = rest.length
    if whole = [] && fraction = [] then none
    else if isWhole && (4300 < whole.length || whole.head? = some '0' && whole.any (· ≠ '0')) then none
    else some (.number false, behind)

def number : List Char → Option (Token × List Char)
  | '0' :: 'x' :: cs | '0' :: 'X' :: cs => based 16 cs
  | '0' :: 'o' :: cs | '0' :: 'O' :: cs => based 8 cs
  | '0' :: 'b' :: cs | '0' :: 'B' :: cs => based 2 cs
  | cs => decimal cs

/-- has a backslash the digits behind it that its letter needs; names of characters are not known -/
def escapes (octets : Bool) (c : Char) (cs : List Char) : Bool :=
  let hasDigits (n : Nat) := n ≤ cs.length && (cs.take n).all fun d => (Text.hexValue d).isSome
  match c with
  | 'x' => hasDigits 2
  | 'u' => octets || hasDigits 4
  | 'U' => octets || hasDigits 8 && (Text.numeral? 16 (cs.take 8)).any (· ≤ 0x10FFFF)
  | 'N' => octets
  | c => !octets || c.toNat < 0x80

/-- what is behind a text in quotes -/
def behindQuote? (raw octets : Bool) (quote : List Char) : List Char → Option (List Char)
  | [] => none
  | c :: cs =>
    if quote.isPrefixOf (c :: cs) then some ((c :: cs).drop quote.length)
    else if c = '\n' ∧ quote.length = 1 ∨ octets ∧ 0x80 ≤ c.toNat then none
    else
      match c, cs with
      | '\\', d :: cs => if raw || escapes octets d cs then behindQuote? raw octets quote cs else none
      | _, cs => behindQuote? raw octets quote cs

/-- letters in front of a text in quotes: whether a backslash stands for itself, and whether there are octets -/
def leads : List (String × Bool × Bool) :=
  [("", false, false), ("u", false, false), ("r", true, false), ("b", false, true), ("br", true, true),
    ("rb", true, true)]

/-- a text in quotes behind its letters -/
def quoted? (lead cs : List Char) : Option (Token × List Char) := do
  let (_, raw, octets) ← leads.find? fun l => l.1.toList = lead.map Char.toLower
  let quote ← [['"', '"', '"'], ['\'', '\'', '\''], ['"'], ['\'']].find? fun quote => quote.isPrefixOf cs
  return (.quoted octets, ← behindQuote? raw octets quote (cs.drop quote.length))

def isWordSign (c : Char) : Bool := c.isAlphanum || c = '_' || (0x80 ≤ c.toNat && !Text.isSpace c)

/-- the token at the front of a text, and what is behind it -/
def token (cs : List Char) : Option (Token × List Char) :=
  match cs with
  | '.' :: '.' :: '.' :: rest => some (.ellipsis, rest)
  | c :: rest =>
    let word := cs.takeWhile isWordSign
    let behind := cs.drop word.length
    if c ∈ ['(', ')', '\x7b', '\x7d', ',', ':'] then some (.mark c, rest)
    else if c = '+' ∨ c = '-' then some (.sign, rest)
    else if c.isDigit ∨ c = '.' then number cs
    else (quoted? word behind).or (if word = [] then none else some (.word word, behind))
  | [] => none

/-- the tokens of a text inside of so many brackets; outside of all brackets a line must not end -/
def tokensFrom (depth : Nat) : (steps : Nat) → List Char → Option (List Token)
  | _, [] => some []
  | 0, _ => none
  | steps + 1, c :: cs =>
    if c = ' ' ∨ c = '\t' ∨ c = '\x0c' ∨ c = '\n' ∧ 0 < depth then tokensFrom depth steps cs
    else if c = '#' then tokensFrom depth steps (cs.dropWhile (· ≠ '\n'))
    else do
      let (token, rest) ← token (c :: cs)
      let depth := match token with
        | .mark '(' | .mark '\x7b' => depth + 1
        | .mark ')' | .mark '\x7d' => depth - 1
        | _ => depth
      if 200 < depth then none
      return token :: (← tokensFrom depth steps rest)

def tokens (cs : List Char) : Option (List Token) := tokensFrom 0 cs.length cs

/-! ## Values -/

inductive Value where
  /-- a number, with or without a sign -/
  | number (imaginary signed : Bool)
  | solid
  /-- a set or a table, or a tuple with one in it -/
  | loose
  deriving DecidableEq, Repr

def Value.isSolid (v : Value) : Bool := v ≠ .loose

def tupleOf (values : List Value) : Value := if values.all Value.isSolid then .solid else .loose

mutual

/-- a value at the front of tokens -/
def value : (steps : Nat) → List Token → Option (Value × List Token)
  | 0, _ => none
  | steps + 1, ts => do
    let (left, rest) ← match ts with
      | .sign :: ts => do
        match ← primary steps ts with
        | (.number imaginary false, rest) => some (Value.number imaginary true, rest)
        | _ => none
      | ts => primary steps ts
    match left, rest with
    | .number false _, .sign :: rest =>
      match ← primary steps rest with
      | (.number true false, rest) => some (.solid, rest)
      | _ => none
    | left, rest => some (left, rest)

/-- a value without signs outside of brackets -/
def primary : (steps : Nat) → List Token → Option (Value × List Token)
  | 0, _ => none
  | steps + 1, ts =>
    match ts with
    | .number imaginary :: rest => some (.number imaginary false, rest)
    | .quoted octets :: rest =>
      let others := rest.takeWhile fun t => t matches .quoted _
      if others.all (· = .quoted octets) then some (.solid, rest.drop others.length) else none
    | .ellipsis :: rest => some (.solid, rest)
    | .word name :: rest =>
      if ["True", "False", "None"].any (·.toList = name) then some (.solid, rest)
      else
        match rest with
        | .mark '(' :: .mark ')' :: rest => if name = "set".toList then some (.loose, rest) else none
        | _ => none
    | .mark '(' :: .mark ')' :: rest => some (.solid, rest)
    | .mark '(' :: rest => do
      match ← value steps rest with
      | (v, .mark ')' :: rest) => some (v, rest)
      | (v, rest) =>
        match ← others steps rest with
        | (vs, .mark ')' :: rest) => some (tupleOf (v :: vs), rest)
        | _ => none
    | .mark '\x7b' :: .mark '\x7d' :: rest => some (.loose, rest)
    | .mark '\x7b' :: rest => do
      match ← value steps rest with
      | (v, .mark ':' :: rest) => if v.isSolid then return (.loose, ← entries steps rest) else none
      | (v, rest) =>
        match ← others steps rest with
        | (vs, .mark '\x7d' :: rest) => if (v :: vs).all Value.isSolid then some (.loose, rest) else none
        | _ => none
    | _ => none

/-- the values behind a first one, with commas in front of them; one comma may stand behind the last -/
def others : (steps : Nat) → List Token → Option (List Value × List Token)
  | steps + 1, .mark ',' :: rest =>
    match value steps rest with
    | some (v, rest) => (others steps rest).map fun o => (v :: o.1, o.2)
    | none => some ([], rest)
  | _, rest => some ([], rest)

/-- what is behind a table from the first value on -/
def entries : (steps : Nat) → List Token → Option (List Token)
  | 0, _ => none
  | steps + 1, ts => do
    match ← value steps ts with
    | (_, .mark ',' :: .mark '\x7d' :: rest) | (_, .mark '\x7d' :: rest) => some rest
    | (_, .mark ',' :: rest) =>
      match ← value steps rest with
      | (key, .mark ':' :: rest) => if key.isSolid then entries steps rest else none
      | _ => none
    | _ => none

end

/-- is a text a value, or several with commas between them -/
def isValue (cs : List Char) : Bool :=
  ((tokens cs).bind fun ts => (value (3 * ts.length) ts).bind fun v => others (3 * ts.length) v.2).any fun o => o.2 = []

/-- is a text the name of an action, or values, or both -/
def areParameters (cs : List Char) : Bool :=
  let rest := cs.dropWhile fun c => isWordSign c || c = '.'
  if rest = [] then true
  else if rest.head? = some '(' ∧ rest.getLast? = some ')' ∧ '\n' ∉ rest then isValue rest
  else isValue cs

end CodecCompiler.Literal
