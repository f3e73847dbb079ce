/-
The list of a schema's definitions: a table with one row for each, in the order of the schema. It tells the kind of the
definition's fragment, whether the fragment accepts further properties, and its description.

- `Definitions.lines` are the lines of the table on a console, or why it cannot be printed.
- All texts in the table are markup, the path of the document too.
- `Definitions.areStrings`: can the texts of the table be printed. Halves of surrogate pairs cannot.
-/
import CodecCompiler.Datum.Shown
import CodecCompiler.Files.Path
import CodecCompiler.Text.Console

namespace CodecCompiler.Definitions

/-- the text of a field's value -/
def textOf : Json → Text
  | .str text => text
  | value => (Data.ofJson value).shownAlone (Datum.ofJson value)

/-- the keywords that tell the kind of a fragment without a type -/
def kindWords : List Text := ["anyOf", "$ref", "const", "enum"]

/-- the kind of a fragment -/
def kind (fragment : Fields) : Text :=
  match Entries.get? fragment "type" with
  | some type => textOf type
  | none => (kindWords.find? (Entries.has fragment)).getD "any"

/-- does a fragment accept further properties: yes, no, those of a schema, or not said -/
def additional (fragment : Fields) : Text :=
  match Entries.get? fragment "additionalProperties" with
  | none | some .null => "-"
  | some (.bool true) => "yes"
  | some (.bool false) => "no"
  | some _ => "schema"

def description (fragment : Fields) : Text :=
  match Entries.get? fragment "description" with
  | some text => textOf text
  | none => "-"

/-- the texts of a definition's row -/
def row (id : Text) (fragment : Fields) : List Text :=
  [id, kind fragment, additional fragment, description fragment]

/-- the heads of the columns -/
def header : List String := ["ID", "Kind", "Additional", "Description"]

/-- the fragment that a field holds -/
def fragmentOf : Json → Fields
  | .obj fragment => fragment
  | _ => []

/-- the texts of all rows -/
def rows (definitions : Fields) : List (List Text) := definitions.map fun e => row e.1 (fragmentOf e.2)

/-- the title of the table -/
def title (document : Path) : List Char := ("Definitions (" ++ document.text ++ ")").toList

/-- the lines of the table of definitions -/
def lines (console : Console) (document : Path) (definitions : Fields) :
    Except Markup.Failure (List (List Char)) :=
  console.table (title document) (header.map String.toList)
    ((rows definitions).map fun row => row.map fun text => text.lossy.toList)

/-- can all texts of the table be printed -/
def areStrings (definitions : Fields) : Bool := (rows definitions).all fun row => row.all Text.isString

end CodecCompiler.Definitions
