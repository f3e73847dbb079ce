/-
The list of a schema's definitions, as the command line prints it.

- `Definitions.HasKind`, `HasAdditional` and `HasDescription`: what the columns tell of a fragment. `Definitions.Tells`:
  what a row tells of a definition; by `Tells.unique` it is one row only.
- `Definitions.hasKind_of_schema`, `hasAdditional_of_schema`, `hasDescription_of_schema`: so it is with the columns that
  are made, whatever form the fragment has.
- `Definitions.fits_of_short`: where ids and descriptions fit their columns, all texts of the rows do;
  `Definitions.lines_listing`: each row then takes one line.
- `Document.exists_reached_schema`: only ids that the codec leads to are compiled.
- `Cli.definitions_listed`: the command prints one row for each compiled definition, in their order. Ids and
  descriptions are shown character for character where they stand for themselves as markup; by
  `Cli.styled_ids_misread` not all do.
-/
import CodecCompiler.Cli.Run
import CodecCompiler.Files.Disk
import CodecCompiler.Proofs.Comparison
import CodecCompiler.Proofs.Export
import CodecCompiler.Proofs.Printing
import CodecCompiler.Proofs.Schemas

namespace CodecCompiler

open Entries (names get?)

/-- a text of printable ASCII only -/
def Text.IsPrintable (t : Text) : Prop := ∃ cs, t = .ofChars cs ∧ Text.Printable cs

namespace Definitions

open Json (Lead Schema)

variable {fragment : Fields} {allow : Bool} {known : Text → Prop}

/-! ## Columns -/

/-- the kind of a fragment: its type, or else the combinator or the reference that it is, or any -/
inductive HasKind (fragment : Fields) : Text → Prop
  | type {name : Text} : get? fragment "type" = some (.str name) → HasKind fragment name
  | anyOf {branches : List Json} : get? fragment "type" = none → get? fragment "anyOf" = some (.arr branches) →
      HasKind fragment "anyOf"
  | reference {pointer : Text} : get? fragment "type" = none → get? fragment "anyOf" = none →
      get? fragment "$ref" = some (.str pointer) → HasKind fragment "$ref"
  | any : get? fragment "type" = none → get? fragment "anyOf" = none → get? fragment "$ref" = none →
      HasKind fragment "any"

/-- what further properties a fragment accepts: its flag, a schema for their values, or nothing is said -/
inductive HasAdditional (allow : Bool) (fragment : Fields) : Text → Prop
  | flag : get? fragment "additionalProperties" = some (.bool allow) →
      HasAdditional allow fragment (if allow then "yes" else "no")
  | schema {values : Fields} : get? fragment "additionalProperties" = some (.obj values) →
      HasAdditional allow fragment "schema"
  | absent : get? fragment "additionalProperties" = none → HasAdditional allow fragment "-"

inductive HasDescription (fragment : Fields) : Text → Prop
  | told {text : Text} : get? fragment "description" = some (.str text) → HasDescription fragment text
  | untold : get? fragment "description" = none → HasDescription fragment "-"

theorem HasKind.unique {name other : Text} (h : HasKind fragment name) (h' : HasKind fragment other) :
    name = other := by
  cases h <;> cases h' <;> simp_all

theorem HasAdditional.unique {text other : Text} (h : HasAdditional allow fragment text)
    (h' : HasAdditional allow fragment other) : text = other := by
  cases h <;> cases h' <;> simp_all

theorem HasDescription.unique {text other : Text} (h : HasDescription fragment text)
    (h' : HasDescription fragment other) : text = other := by
  cases h <;> cases h' <;> simp_all

/-- the kinds of compiled fragments -/
def kinds : List String := ["string", "number", "boolean", "null", "object", "array", "anyOf", "$ref", "any"]

/-- what is told about further properties -/
def answers : List String := ["yes", "no", "schema", "-"]

theorem get?_lead {lead : Fields} (h : Lead lead) {name : Text} (hname : name ≠ "description") (fields : Fields) :
    get? (lead ++ fields) name = get? fields name := by
  rcases h with rfl | ⟨d, -, rfl⟩
  · rfl
  · change get? (("description", .str d) :: fields) name = _
    rw [Entries.get?_cons, if_neg (Ne.symm hname)]

theorem kind_lead {lead : Fields} (h : Lead lead) (fields : Fields) : kind (lead ++ fields) = kind fields := by
  have hword : ∀ word ∈ kindWords, Entries.has (lead ++ fields) word = Entries.has fields word := by
    intro word hword
    unfold Entries.has
    rw [get?_lead h]
    rintro rfl
    exact absurd hword (by decide)
  unfold kind
  rw [get?_lead h (by decide)]
  cases get? fields "type" with
  | some type => rfl
  | none =>
    have hfind : ∀ words : List Text, (∀ word ∈ words, word ∈ kindWords) →
        words.find? (Entries.has (lead ++ fields)) = words.find? (Entries.has fields) := by
      intro words hwords
      induction words with
      | nil => rfl
      | cons word words ih =>
        rw [List.forall_mem_cons] at hwords
        rw [List.find?_cons, List.find?_cons, hword word hwords.1, ih hwords.2]
    rw [hfind kindWords fun _ h => h]

theorem HasKind.lead {lead fields : Fields} {name : Text} (hlead : Lead lead) (h : HasKind fields name) :
    HasKind (lead ++ fields) name := by
  have htype : get? (lead ++ fields) "type" = get? fields "type" := get?_lead hlead (by decide) fields
  have hanyOf : get? (lead ++ fields) "anyOf" = get? fields "anyOf" := get?_lead hlead (by decide) fields
  have href : get? (lead ++ fields) "$ref" = get? fields "$ref" := get?_lead hlead (by decide) fields
  cases h with
  | type h => exact .type (htype.trans h)
  | anyOf h h' => exact .anyOf (htype.trans h) (hanyOf.trans h')
  | reference h h' h'' => exact .reference (htype.trans h) (hanyOf.trans h') (href.trans h'')
  | any h h' h'' => exact .any (htype.trans h) (hanyOf.trans h') (href.trans h'')

/-- **The kind column tells the type, the combinator, the reference or any.** -/
theorem hasKind_of_schema (h : Schema allow known (.obj fragment)) :
    HasKind fragment (kind fragment) ∧ ∃ word ∈ kinds, kind fragment = (word : Text) := by
  cases h with
  | empty hlead =>
    rw [← List.append_nil fragment, kind_lead hlead]
    exact ⟨.lead hlead (.any rfl rfl rfl), "any", by decide, rfl⟩
  | @primitive lead type hlead htype =>
    rw [kind_lead hlead]
    refine ⟨.lead hlead (.type rfl), ?_⟩
    simp only [List.mem_cons, List.not_mem_nil, or_false] at htype
    rcases htype with rfl | rfl | rfl | rfl
    · exact ⟨"string", by decide, rfl⟩
    · exact ⟨"number", by decide, rfl⟩
    · exact ⟨"boolean", by decide, rfl⟩
    · exact ⟨"null", by decide, rfl⟩
  | enum _ hlead | const _ hlead =>
    rw [kind_lead hlead]
    exact ⟨.lead hlead (.type rfl), "string", by decide, rfl⟩
  | object hlead | record hlead =>
    rw [kind_lead hlead]
    exact ⟨.lead hlead (.type rfl), "object", by decide, rfl⟩
  | array hlead | tuple hlead =>
    rw [kind_lead hlead]
    exact ⟨.lead hlead (.type rfl), "array", by decide, rfl⟩
  | anyOf hlead =>
    rw [kind_lead hlead]
    exact ⟨.lead hlead (.anyOf rfl rfl), "anyOf", by decide, rfl⟩
  | reference hlead =>
    rw [kind_lead hlead]
    exact ⟨.lead hlead (.reference rfl rfl rfl), "$ref", by decide, rfl⟩

/-- a schema has no flag, its own one or a schema under `additionalProperties` -/
theorem additionalProperties_of_schema (h : Schema allow known (.obj fragment)) :
    get? fragment "additionalProperties" = none ∨ get? fragment "additionalProperties" = some (.bool allow) ∨
      ∃ values, get? fragment "additionalProperties" = some (.obj values) := by
  cases h with
  | object hlead =>
    rw [get?_lead hlead (by decide)]
    exact .inr (.inl rfl)
  | record hlead hvalues =>
    rw [get?_lead hlead (by decide)]
    cases hvalues <;> exact .inr (.inr ⟨_, rfl⟩)
  | empty hlead =>
    rw [← List.append_nil fragment, get?_lead hlead (by decide)]
    exact .inl rfl
  | primitive hlead | enum _ hlead | const _ hlead | array hlead | tuple hlead | anyOf hlead | reference hlead =>
    rw [get?_lead hlead (by decide)]
    exact .inl rfl

/-- **The column of further properties tells a flag, a schema and nothing apart.** -/
theorem hasAdditional_of_schema (h : Schema allow known (.obj fragment)) :
    HasAdditional allow fragment (additional fragment) ∧ ∃ word ∈ answers, additional fragment = (word : Text) := by
  rcases additionalProperties_of_schema h with hnone | hflag | ⟨values, hschema⟩
  · have hadditional : additional fragment = "-" := by rw [additional, hnone]
    rw [hadditional]
    exact ⟨.absent hnone, "-", by decide, rfl⟩
  · have hadditional : additional fragment = if allow then ("yes" : Text) else "no" := by
      rw [additional, hflag]
      cases allow <;> rfl
    rw [hadditional]
    refine ⟨.flag hflag, ?_⟩
    cases allow
    · exact ⟨"no", by decide, rfl⟩
    · exact ⟨"yes", by decide, rfl⟩
  · have hadditional : additional fragment = "schema" := by rw [additional, hschema]
    rw [hadditional]
    exact ⟨.schema hschema, "schema", by decide, rfl⟩

/-- a described schema has its description in front -/
theorem exists_lead (h : Schema allow known (.obj fragment)) :
    ∃ lead fields, Lead lead ∧ fragment = lead ++ fields ∧ get? fields "description" = none := by
  cases h with
  | empty hlead => exact ⟨fragment, [], hlead, (List.append_nil fragment).symm, rfl⟩
  | primitive hlead | enum _ hlead | const _ hlead | object hlead | record hlead | array hlead | tuple hlead
  | anyOf hlead | reference hlead => exact ⟨_, _, hlead, rfl, rfl⟩

theorem hasDescription_of_schema (h : Schema allow known (.obj fragment)) :
    HasDescription fragment (description fragment) := by
  obtain ⟨lead, fields, hlead, rfl, hnone⟩ := exists_lead h
  rcases hlead with rfl | ⟨d, -, rfl⟩
  · have hdescription : description ([] ++ fields) = "-" := by rw [description, List.nil_append, hnone]
    rw [hdescription]
    exact .untold hnone
  · exact .told rfl

/-! ## Rows -/

/-- the texts of a row -/
structure Row where
  id : List Char
  kind : List Char
  additional : List Char
  description : List Char

def Row.texts (r : Row) : List (List Char) := [r.id, r.kind, r.additional, r.description]

/-- a row tells a definition: its id, and what the columns tell of its fragment -/
structure Tells (allow : Bool) (e : Text × Json) (r : Row) : Prop where
  id : e.1 = .ofChars r.id
  fragment : ∃ fragment, e.2 = .obj fragment ∧ HasKind fragment (.ofChars r.kind) ∧
    HasAdditional allow fragment (.ofChars r.additional) ∧ HasDescription fragment (.ofChars r.description)

/-- **A definition has no other row.** -/
theorem Tells.unique {e : Text × Json} {r r' : Row} (h : Tells allow e r) (h' : Tells allow e r') : r = r' := by
  obtain ⟨hid, fragment, hvalue, hkind, hadditional, hdescription⟩ := h
  obtain ⟨hid', fragment', hvalue', hkind', hadditional', hdescription'⟩ := h'
  cases hvalue.symm.trans hvalue'
  cases r
  cases r'
  rw [Row.mk.injEq]
  exact ⟨Text.ofChars_inj.1 (hid.symm.trans hid'), Text.ofChars_inj.1 (hkind.unique hkind'),
    Text.ofChars_inj.1 (hadditional.unique hadditional'), Text.ofChars_inj.1 (hdescription.unique hdescription')⟩

/-- a row has the texts of a definition, all printable, and those that the schema chooses are short -/
structure Shows (e : Text × Json) (r : Row) : Prop where
  texts : row e.1 (fragmentOf e.2) = r.texts.map .ofChars
  printable : ∀ cell ∈ r.texts, Text.Printable cell
  words : ∀ word ∈ [r.kind, r.additional], word ≠ [] ∧ word.length ≤ 10 ∧
    ∀ evaluates, Markup.Verbatim evaluates word

theorem word_shown {word : String} (h : word ∈ kinds ++ answers) :
    Text.Printable word.toList ∧ word.toList ≠ [] ∧ word.toList.length ≤ 10 ∧
      ∀ evaluates, Markup.Verbatim evaluates word.toList := by
  have hwords : ∀ word ∈ kinds ++ answers, Text.Printable word.toList ∧ '[' ∉ word.toList ∧ ':' ∉ word.toList ∧
      word.toList ≠ [] ∧ word.toList.length ≤ 10 := by decide
  obtain ⟨hprintable, hbracket, hcolon, hne, hlength⟩ := hwords word h
  exact ⟨hprintable, hne, hlength, fun _ => Markup.verbatim_of_not_mem hprintable hbracket hcolon⟩

/-- **Every definition has a row.** -/
theorem exists_row {e : Text × Json} (hvalue : e.2 = .obj fragment) (h : Schema allow known (.obj fragment))
    (hid : e.1.IsPrintable) (hdescription : ∀ d, get? fragment "description" = some (.str d) → d.IsPrintable) :
    ∃ r, Tells allow e r ∧ Shows e r := by
  obtain ⟨id, hid, hidprintable⟩ := hid
  obtain ⟨hkind, kindWord, hkindWord, hkindEq⟩ := hasKind_of_schema h
  obtain ⟨hadditional, answer, hanswer, hanswerEq⟩ := hasAdditional_of_schema h
  have htold := hasDescription_of_schema h
  obtain ⟨told, htoldEq, htoldPrintable⟩ : (description fragment).IsPrintable := by
    generalize description fragment = text at htold
    cases htold with
    | told htext => exact hdescription _ htext
    | untold => exact ⟨['-'], rfl, by decide⟩
  obtain ⟨hkindPrintable, hkindWords⟩ := word_shown (List.mem_append_left _ hkindWord)
  obtain ⟨hanswerPrintable, hanswerWords⟩ := word_shown (List.mem_append_right _ hanswer)
  refine ⟨⟨id, kindWord.toList, answer.toList, told⟩, ⟨hid, fragment, hvalue, ?_, ?_, ?_⟩, ⟨?_, ?_, ?_⟩⟩
  · rwa [hkindEq] at hkind
  · rwa [hanswerEq] at hadditional
  · rwa [htoldEq] at htold
  · rw [hvalue, fragmentOf, row, hid, hkindEq, hanswerEq, htoldEq]
    rfl
  · simp only [Row.texts, List.forall_mem_cons]
    exact ⟨hidprintable, hkindPrintable, hanswerPrintable, htoldPrintable, by simp⟩
  · simp only [List.forall_mem_cons]
    exact ⟨hkindWords, hanswerWords, by simp⟩

/-! ## The table -/

theorem exists_forall₂ {α β : Type} {R : α → β → Prop} {xs : List α} (h : ∀ x ∈ xs, ∃ y, R x y) :
    ∃ ys, List.Forall₂ R xs ys := by
  induction xs with
  | nil => exact ⟨[], .nil⟩
  | cons x xs ih =>
    rw [List.forall_mem_cons] at h
    obtain ⟨y, hy⟩ := h.1
    obtain ⟨ys, hys⟩ := ih h.2
    exact ⟨y :: ys, .cons hy hys⟩

/-- the table of rows under a title, with all texts as they are -/
def listing (title : List Char) (rs : List Row) : Table :=
  ⟨⟨title, []⟩, header.map fun head => ⟨head.toList, []⟩, rs.map fun r => r.texts.map fun text => ⟨text, []⟩⟩

variable {definitions : Fields} {rs : List Row} {title : List Char} {width : Nat}

/-- the rows of definitions -/
theorem rows_of_shows (h : List.Forall₂ Shows definitions rs) :
    Definitions.rows definitions = rs.map fun r => r.texts.map .ofChars := by
  induction h with
  | nil => rfl
  | cons hfirst _ ih => rw [Definitions.rows, List.map_cons, hfirst.texts, List.map_cons, ← ih]; rfl

theorem lines_of_shows {console : Console} {document : Path} (h : List.Forall₂ Shows definitions rs) :
    Definitions.lines console document definitions =
      console.table (Definitions.title document) (header.map String.toList) (rs.map Row.texts) := by
  rw [Definitions.lines, rows_of_shows h, List.map_map]
  simp only [Function.comp_def, List.map_map, Text.lossy_ofChars, String.toList_ofList, List.map_id']

theorem areStrings_of_shows (h : List.Forall₂ Shows definitions rs) : areStrings definitions = true := by
  rw [areStrings, rows_of_shows h]
  simp [Text.isString, Text.toString?]

theorem regular_listing (title : List Char) (rs : List Row) : (listing title rs).Regular := by
  intro cells hcells
  obtain ⟨r, -, rfl⟩ := List.mem_map.1 hcells
  rfl

/-- a list with one line for each row, on a console of some width -/
def linesOf (width : Nat) (title : List Char) (rs : List Row) : List (List Char) :=
  let t := listing title rs
  let columns := t.columns width
  (t.titleLines width).map Styled.text ++ [Table.above.line columns] ++ Table.row '┃' columns t.header ++
    [Table.under.line columns] ++ rs.map (fun r => Table.rowLine '│' columns r.texts) ++ [Table.below.line columns]

/-- the ids and the descriptions fit their columns, with blanks on both sides; on a narrow console the other texts of
the rows have to fit too -/
def AreShort (width : Nat) (title : List Char) (rs : List Row) : Prop :=
  let columns := (listing title rs).columns width
  ∀ r ∈ rs, (r.id.length + 2 ≤ columns.getD 0 0 ∧ r.description.length + 2 ≤ columns.getD 3 0) ∧
    (width < 57 → r.kind.length + 2 ≤ columns.getD 1 0 ∧ r.additional.length + 2 ≤ columns.getD 2 0)

instance (width : Nat) (title : List Char) (rs : List Row) : Decidable (AreShort width title rs) :=
  inferInstanceAs (Decidable (∀ r ∈ rs, _))

theorem exists_columns (width : Nat) (title : List Char) (rs : List Row) :
    ∃ a b c d, (listing title rs).columns width = [a, b, c, d] := by
  have hlength : ((listing title rs).columns width).length = 4 := Table.length_columns width (regular_listing title rs)
  generalize (listing title rs).columns width = columns at hlength
  obtain ⟨a, columns, rfl⟩ := List.exists_cons_of_length_eq_add_one hlength
  obtain ⟨b, c, d, rfl⟩ := List.length_eq_three.1 (Nat.succ.inj hlength)
  exact ⟨a, b, c, d, rfl⟩

/-- **Where ids and descriptions fit their columns, all texts of the rows do.** -/
theorem fits_of_short (h : List.Forall₂ Shows definitions rs) (hshort : AreShort width title rs) :
    ∀ r ∈ rs, Table.Fits ((listing title rs).columns width) (r.texts.map fun text => ⟨text, []⟩) := by
  have hprintable : ∀ r ∈ rs, ∀ cell ∈ r.texts.map (Styled.mk · []), Text.Printable cell.text := by
    intro r hr cell hcell
    obtain ⟨e, -, hshown⟩ := forall₂_mem_right h r hr
    obtain ⟨text, htext, rfl⟩ := List.mem_map.1 hcell
    exact hshown.printable text htext
  intro r hr
  by_cases hnarrow : width < 57
  · obtain ⟨a, b, c, d, hcolumns⟩ := exists_columns width title rs
    obtain ⟨⟨hid, hdescription⟩, hothers⟩ := hshort r hr
    obtain ⟨hkind, hadditional⟩ := hothers hnarrow
    rw [hcolumns] at hid hdescription hkind hadditional ⊢
    have hall := hprintable r hr
    simp only [Row.texts, List.map_cons, List.map_nil, List.forall_mem_cons] at hall ⊢
    exact .cons ⟨hall.1, hid⟩ (.cons ⟨hall.2.1, hkind⟩ (.cons ⟨hall.2.2.1, hadditional⟩
      (.cons ⟨hall.2.2.2.1, hdescription⟩ .nil)))
  · have hroom : 52 ≤ (listing title rs).room width := by
      change 52 ≤ width - 5
      omega
    have hheads : ∀ cell ∈ (listing title rs).header, Text.Printable cell.text ∧ cell.text.length ≤ 11 :=
      show ∀ cell ∈ header.map fun head => Styled.mk head.toList [], _ by decide
    refine Table.fits_of_wide (regular_listing title rs) (by omega) (show 2 ≤ 4 by decide) ?_ ?_ _
      (List.mem_cons_of_mem _ (List.mem_map_of_mem hr))
    · refine List.forall_mem_cons.2 ⟨fun cell hcell => (hheads cell hcell).1, fun cells hcells => ?_⟩
      obtain ⟨other, hother, rfl⟩ := List.mem_map.1 hcells
      exact hprintable other hother
    · -- only ids and descriptions can take more than a fourth of the room
      intro cells hcells i cell n hcell hn hshare
      change (listing title rs).room width < 4 * (cell.text.length + 2) at hshare
      rcases List.mem_cons.1 hcells with rfl | hrow
      · have := (hheads cell (List.mem_of_getElem? hcell)).2
        omega
      · obtain ⟨other, hother, rfl⟩ := List.mem_map.1 hrow
        obtain ⟨e, -, hshown⟩ := forall₂_mem_right h other hother
        have hwords := hshown.words
        simp only [List.forall_mem_cons] at hwords
        obtain ⟨⟨hid, hdescription⟩, -⟩ := hshort other hother
        rw [List.getD_eq_getElem?_getD] at hid hdescription
        match i with
        | 0 =>
          cases hcell
          rwa [hn] at hid
        | 1 | 2 =>
          cases hcell
          simp only at hshare
          omega
        | 3 =>
          cases hcell
          rwa [hn] at hdescription
        | i + 4 => cases hcell

/-- where a kind fits its column, that column has room for a character -/
theorem room_of_short (h : List.Forall₂ Shows definitions rs) (hne : definitions ≠ [])
    (hshort : AreShort width title rs) : header.length + 3 < width := by
  obtain ⟨e, rest, rfl⟩ := List.exists_cons_of_ne_nil hne
  cases h with
  | @cons _ r _ rs hfirst hrest =>
    have hfits := fits_of_short (.cons hfirst hrest) hshort r List.mem_cons_self
    have hsum := Table.sum_columns_le width (regular_listing title (r :: rs))
    obtain ⟨a, b, c, d, hcolumns⟩ := exists_columns width title (r :: rs)
    have hkind := List.length_pos_iff.2 (hfirst.words r.kind List.mem_cons_self).1
    rw [hcolumns] at hfits hsum
    simp only [Table.Fits, Row.texts, List.map_cons, List.map_nil, List.forall₂_cons] at hfits
    simp only [List.sum_cons, List.sum_nil] at hsum
    change _ ≤ width - 5 at hsum
    change 4 + 3 < width
    omega

/-- **Where ids and descriptions fit their columns, each row takes one line.** -/
theorem lines_listing (h : List.Forall₂ Shows definitions rs) (hshort : AreShort width title rs) :
    (listing title rs).lines width = linesOf width title rs := by
  rw [Table.lines_of_fits fun cells hcells => ?_]
  · simp only [linesOf, listing, List.map_map, Function.comp_def, List.map_id']
  · obtain ⟨r, hr, rfl⟩ := List.mem_map.1 hcells
    exact fits_of_short h hshort r hr

end Definitions

namespace Document

/-! ## Compiled definitions -/

variable {doc : Document} {options : Options}

/-- **Only ids that the codec leads to are met**, where the codecs on the stack lead to no others. -/
theorem reached_of_discovers {seen : List Text} {stack : List Codec} {met : Entries Text}
    (h : Discovers doc.build.bodies seen stack met) {ns : List Node} (hstack : stack = ns.map Node.toCodec)
    (hns : ∀ n ∈ ns, ∀ id ∈ n.refs, doc.Reached id) : ∀ visit ∈ met, doc.Reached visit.1 := by
  induction h generalizing ns with
  | done => simp
  | again hid _ ih =>
    cases ns with
    | nil => simp at hstack
    | cons n ns => exact ih (List.cons.inj hstack).2 (List.forall_mem_cons.1 hns).2
  | @first _ _ id body c _ _ hid hbody _ ih =>
    cases ns with
    | nil => simp at hstack
    | cons n ns =>
      obtain ⟨hfirst, rfl⟩ := List.cons.inj hstack
      obtain ⟨hown, rfl⟩ := Node.ownRefs_of_toCodec hfirst.symm
      obtain ⟨hn, hrest⟩ := List.forall_mem_cons.1 hns
      obtain ⟨d, hd, rfl⟩ := body_node hbody
      have hreached : doc.Reached body := hn body (n.ownRefs_subset (by rw [hown]; exact List.mem_cons_self))
      have hbelow : ∀ m ∈ d :: ns, ∀ other ∈ m.refs, doc.Reached other :=
        List.forall_mem_cons.2 ⟨fun other hother => hreached.step ⟨d, hd, hother⟩, hrest⟩
      exact List.forall_mem_cons.2 ⟨hreached, ih rfl hbelow⟩
  | @inner _ c _ _ hc _ ih =>
    cases ns with
    | nil => simp at hstack
    | cons n ns =>
      obtain ⟨rfl, rfl⟩ := List.cons.inj hstack
      obtain ⟨hn, hrest⟩ := List.forall_mem_cons.1 hns
      have hstack : n.toCodec.children ++ ns.map Node.toCodec = (n.children ++ ns).map Node.toCodec := by
        rw [List.map_append, Node.children_toCodec]
      refine ih hstack fun m hm => ?_
      rcases List.mem_append.1 hm with hm | hm
      · exact fun id hid => hn id (Node.refs_child hm hid)
      · exact hrest m hm

/-- the schema of a closed document, where every definition is one that the codec leads to -/
theorem exists_reached_schema (closed : doc.Closed) (hplain : options.handlers = []) :
    ∃ definitions top : Fields, (generate doc.build options).1 = .ok (("definitions", .obj definitions) :: top) ∧
      doc.Compiled options.allowAdditional definitions ∧ ∀ e ∈ definitions, doc.Reached e.1 := by
  obtain ⟨top, progress, htop, hsettles, hgenerate, -⟩ := exists_generate closed hplain
  obtain ⟨met, hwalk, hextends⟩ := id hsettles
  have hmet := reached_of_discovers hwalk (show [doc.build.root] = [doc.codec].map Node.toCodec from rfl)
    fun n hn id hid => by
      rw [List.mem_singleton.1 hn] at hid
      exact ⟨id, hid, .refl⟩
  refine ⟨progress.definitions, top, ?_, compiled_of_settles hsettles, fun e he => ?_⟩
  · rw [hgenerate, (Node.fragment_shaped htop).withDefinitions_eq]
  · have hmem : e.1 ∈ names met := by
      rw [← show names progress.definitions = names met from hextends.names_eq]
      exact Entries.mem_names he
    obtain ⟨visit, hvisit, hsame⟩ := List.mem_map.1 hmem
    exact hsame ▸ hmet visit hvisit

/-- a file that is loaded holds an accepted document -/
theorem accepted_of_load {path : Path} {octets : List UInt8} (h : load path octets = .ok doc) :
    ∃ data, ofData data = .ok doc := by
  unfold load at h
  cases hdecode : Text.Utf8.decode octets with
  | error fault =>
    rw [hdecode] at h
    cases h
  | ok text =>
    rw [hdecode] at h
    obtain ⟨data, -, hdata⟩ := bind_eq_ok_iff.1 h
    exact ⟨data, mapError_eq_ok_iff.1 hdata⟩

end Document

/-- a description in a fragment is that of its node -/
theorem Node.description_of_fragment {n : Node} {allow : Bool} {f : Fields} (h : n.fragment allow = .ok f) {d : Text}
    (hd : get? f "description" = some (.str d)) : n.notes.description = some d := by
  have htranslate : n.toCodec.translate allow = .ok f := by
    rw [Node.translate_toCodec, h]
    rfl
  obtain ⟨g, hg, rfl⟩ := Codec.translate_eq_ok.1 htranslate
  have hnone : get? g "description" = none := Entries.get?_eq_none_iff.2 (Codec.prescription_undescribed hg).2
  have hmarks : n.toCodec.description = n.notes.toMarks.description := by cases n <;> rfl
  rw [hmarks, noted_toMarks] at hd
  cases hnotes : n.notes.description with
  | none =>
    rw [hnotes, Fragment.noted, hnone] at hd
    cases hd
  | some own =>
    rw [hnotes, Fragment.noted] at hd
    split_ifs at hd
    · rw [hnone] at hd
      cases hd
    · cases hd
      rfl

/-! ## Requests -/

/-- a command line asks for the built-in handlers only -/
theorem Request.handlers_of_options {a : Arguments} {options : Options} (h : options? a = some options) :
    options.handlers = [] := by
  obtain ⟨target, -, rfl⟩ := Option.map_eq_some_iff.1 h
  rfl

theorem Request.handlers_of_ofName {command : String} {args : List String} {document : Path} {options : Options}
    (h : ofName command args = some (.definitions document options)) : options.handlers = [] := by
  have hcommand : ∀ (u : Usage) (request : Arguments → Option Request),
      ofCommand u args request = some (.definitions document options) →
        ∃ a, request a = some (.definitions document options) := by
    intro u request h
    obtain ⟨a, -, ha⟩ := Option.bind_eq_some_iff.1 h
    split_ifs at ha
    · cases ha
    · exact ⟨a, ha⟩
  unfold ofName at h
  split at h
  · obtain ⟨a, ha⟩ := hcommand _ _ h
    cases ha
  · obtain ⟨a, ha⟩ := hcommand _ _ h
    obtain ⟨_, -, hother⟩ := Option.map_eq_some_iff.1 ha
    cases hother
  · obtain ⟨a, ha⟩ := hcommand _ _ h
    obtain ⟨_, hoptions, hsame⟩ := Option.map_eq_some_iff.1 ha
    cases hsame
    exact handlers_of_options hoptions
  · obtain ⟨a, ha⟩ := hcommand _ _ h
    cases ha
  · cases h

theorem Request.handlers_of_definitions {args : List String} {document : Path} {options : Options}
    (h : ofArguments args = some (.definitions document options)) : options.handlers = [] := by
  unfold ofArguments at h
  simp only at h
  split at h
  · split at h <;> cases h
  · split at h
    · exact handlers_of_ofName h
    · exact handlers_of_ofName h
    · cases h

/-! ## Runs of the command -/

namespace Cli

open Definitions (Row Shows Tells listing header)

variable {console : Console} {document : Path} {options : Options} {schema definitions top : Fields} {rs : List Row}

theorem list_nil (h : definitionsOf schema = []) :
    (list console document schema).exitCode = 0 ∧
      (25 ≤ console.width → list console document schema = .done "No recursive definitions.\n") := by
  have hprintable : Text.Printable "No recursive definitions.".toList := by decide
  have hverbatim : Markup.Verbatim console.evaluates "No recursive definitions.".toList :=
    Markup.verbatim_of_not_mem hprintable (by decide) (by decide)
  have hmessage := Console.message_of_verbatim hverbatim
  rw [list, h]
  simp only [announce, hmessage]
  refine ⟨rfl, fun hwidth => ?_⟩
  rw [if_neg (by omega), Styled.linesIn_of_printable hprintable hwidth]
  rfl

theorem list_of_lines (h : definitionsOf schema = definitions) (hshows : List.Forall₂ Shows definitions rs)
    (hne : definitions ≠ []) {lines : List (List Char)}
    (htable : console.table (Definitions.title document) (header.map String.toList) (rs.map Row.texts) = .ok lines) :
    list console document schema = .done (Console.output lines) := by
  obtain ⟨first, rest, rfl⟩ := List.exists_cons_of_ne_nil hne
  rw [← Definitions.lines_of_shows hshows] at htable
  simp only [list, h, htable, Definitions.areStrings_of_shows hshows, or_true, if_true]

theorem list_of_failure (h : definitionsOf schema = definitions) (hshows : List.Forall₂ Shows definitions rs)
    (hne : definitions ≠ []) {failure : Markup.Failure}
    (htable : console.table (Definitions.title document) (header.map String.toList) (rs.map Row.texts) =
      .error failure) :
    list console document schema = .crashed (.markup failure) := by
  obtain ⟨first, rest, rfl⟩ := List.exists_cons_of_ne_nil hne
  rw [← Definitions.lines_of_shows hshows] at htable
  simp only [list, h, htable]

/-- **The list is printed, or broken off** because its markup is not in order. -/
theorem list_outcomes (h : definitionsOf schema = definitions) (hshows : List.Forall₂ Shows definitions rs) :
    (∃ lines, list console document schema = .done (Console.output lines)) ∨
      ∃ failure, list console document schema = .crashed (.markup failure) := by
  by_cases hne : definitions = []
  · subst hne
    rw [list, h]
    unfold announce
    cases console.message "No recursive definitions.".toList with
    | ok lines => exact Or.inl ⟨lines, rfl⟩
    | error failure => exact Or.inr ⟨failure, rfl⟩
  · cases htable : console.table (Definitions.title document) (header.map String.toList) (rs.map Row.texts) with
    | ok lines => exact Or.inl ⟨lines, list_of_lines h hshows hne htable⟩
    | error failure => exact Or.inr ⟨failure, list_of_failure h hshows hne htable⟩

/-- **A list of texts that stand for themselves is printed**, with one line for each row where they fit their
columns. -/
theorem list_of_verbatim (h : definitionsOf schema = definitions) (hshows : List.Forall₂ Shows definitions rs)
    (hne : definitions ≠ []) {title : List Char} (htitle : console.read (Definitions.title document) = .ok ⟨title, []⟩)
    (hverbatim : ∀ r ∈ rs, Markup.Verbatim console.evaluates r.id ∧ Markup.Verbatim console.evaluates r.description) :
    ∃ lines, list console document schema = .done (Console.output lines) ∧
      (∀ line ∈ lines, Text.textWidth line ≤ console.width) ∧
      (Definitions.AreShort console.width title rs → lines = Definitions.linesOf console.width title rs) := by
  have hcells : ∀ row ∈ rs.map Row.texts, ∀ cell ∈ row, console.read cell = .ok ⟨id cell, []⟩ := by
    intro row hrow
    obtain ⟨r, hr, rfl⟩ := List.mem_map.1 hrow
    obtain ⟨e, -, hshown⟩ := forall₂_mem_right hshows r hr
    have hwords := hshown.words
    simp only [Row.texts, List.forall_mem_cons] at hwords ⊢
    exact ⟨(hverbatim r hr).1, hwords.1.2.2 _, hwords.2.1.2.2 _, (hverbatim r hr).2, by simp⟩
  have hregular : ∀ row ∈ rs.map Row.texts, row.length = (header.map String.toList).length := by
    intro row hrow
    obtain ⟨r, -, rfl⟩ := List.mem_map.1 hrow
    rfl
  obtain ⟨lines, htable, hfits, hlines⟩ := Console.table_of_read htitle hcells (by decide) hregular
  refine ⟨lines, list_of_lines h hshows hne htable, hfits, fun hshort => ?_⟩
  rw [hlines (Definitions.room_of_short hshows hne hshort), ← Definitions.lines_listing hshows hshort]
  simp only [listing, List.map_map, Function.comp_def, id_eq]

/-- what the command answers is the list of the schema, and no file changes -/
theorem run_definitions {disk : Disk} {args : List String} {octets : List UInt8} {doc : Document}
    (hrequest : Request.ofArguments args = some (.definitions document options))
    (hsource : disk.source document = .file octets) (hload : Document.load document octets = .ok doc)
    (hgenerate : (generate doc.build options).1 = .ok schema) :
    (run console Disk.access args).run disk = (list console document schema, disk) := by
  have hschema : schemaOf console document options (disk.source document) = .ok schema := by
    rw [hsource, schemaOf, hload]
    change (generate doc.build options).1.mapError (ofCompileError console) = .ok schema
    rw [hgenerate]
    rfl
  have hread : (Disk.access.source document).run disk = pure (disk.source document, disk) := rfl
  simp only [run, hrequest, answer, StateT.run_bind, hread, pure_bind, hschema]
  rfl

/-- **The definitions command lists the compiled definitions**, one row for each in their order, where the ids that the
codec leads to and the descriptions of their definitions are printable ASCII. Titles, ids and descriptions are read as
markup; the command breaks off only where that is not in order. Where ids and descriptions stand for themselves the list
is printed, on a console of any width; and where they fit their columns too, the rows have them character for
character. -/
theorem definitions_listed (console : Console) {disk : Disk} {args : List String} {octets : List UInt8} {doc : Document}
    (hrequest : Request.ofArguments args = some (.definitions document options))
    (hsource : disk.source document = .file octets) (hload : Document.load document octets = .ok doc)
    (hprintable : ∀ id node, doc.Reached id → get? doc.definitions id = some node →
      id.IsPrintable ∧ ∀ d, node.notes.description = some d → d.IsPrintable) :
    ∃ (definitions top : Fields) (rs : List Row) (outcome : Outcome),
      (generate doc.build options).1 = .ok (("definitions", .obj definitions) :: top) ∧
      List.Forall₂ (Tells options.allowAdditional) definitions rs ∧
      (run console Disk.access args).run disk = (outcome, disk) ∧
      ((∃ lines, outcome = .done (Console.output lines)) ∨ ∃ failure, outcome = .crashed (.markup failure)) ∧
      (definitions = [] → outcome.exitCode = 0 ∧
        (25 ≤ console.width → outcome = .done "No recursive definitions.\n")) ∧
      ∀ title, definitions ≠ [] → console.read (Definitions.title document) = .ok ⟨title, []⟩ →
        (∀ r ∈ rs, Markup.Verbatim console.evaluates r.id ∧ Markup.Verbatim console.evaluates r.description) →
        ∃ lines, outcome = .done (Console.output lines) ∧ (∀ line ∈ lines, Text.textWidth line ≤ console.width) ∧
          (Definitions.AreShort console.width title rs → lines = Definitions.linesOf console.width title rs) := by
  obtain ⟨data, accepted⟩ := Document.accepted_of_load hload
  have hplain := Request.handlers_of_definitions hrequest
  obtain ⟨definitions, top, hgenerate, hcompiled, hreached⟩ :=
    Document.exists_reached_schema (Document.closed_of_ofData accepted) hplain
  have hrows : ∀ e ∈ definitions, ∃ r, Tells options.allowAdditional e r ∧ Shows e r := by
    intro e he
    obtain ⟨node, f, hnode, hf, hvalue⟩ := hcompiled.fragments e he
    obtain ⟨hid, hdescription⟩ := hprintable e.1 node (hreached e he) hnode
    exact Definitions.exists_row hvalue (Node.fragment_shaped hf).schema hid
      fun d hd => hdescription d (Node.description_of_fragment hf hd)
  obtain ⟨rs, hrs⟩ := Definitions.exists_forall₂ hrows
  have htells : List.Forall₂ (Tells options.allowAdditional) definitions rs := hrs.imp fun _ _ h => h.1
  have hshows : List.Forall₂ Shows definitions rs := hrs.imp fun _ _ h => h.2
  have hdefinitions : definitionsOf (("definitions", .obj definitions) :: top) = definitions := rfl
  refine ⟨definitions, top, rs, _, hgenerate, htells, run_definitions hrequest hsource hload hgenerate,
    list_outcomes hdefinitions hshows, ?_, ?_⟩
  · rintro rfl
    exact list_nil hdefinitions
  · intro title hne htitle hverbatim
    exact list_of_verbatim hdefinitions hshows hne htitle hverbatim

/-- some file holds a document that is accepted and that a text can hold -/
theorem exists_octets {doc : Document} (accepted : Document.ofJson doc.toJson = .ok doc) (h : doc.toJson.Lossless)
    {path : Path} (hpath : Document.isYaml path = false) : ∃ octets, Document.load path octets = .ok doc := by
  obtain ⟨text, hcarries⟩ := Json.exists_carries h false
  exact ⟨_, Document.load_of_carries accepted hcarries hpath⟩

/-- a document whose ids and descriptions have brackets that are no styles -/
def catalogue : Document where
  codec := .object {} [("first", .ref {} "tree"), ("others", .array {} (.ref ⟨some "again", false⟩ "list[0]"))]
  definitions := [("unused", .ref {} "unused"),
    ("list[0]", .record ⟨some "[1] value, or more", false⟩ (.ref {} "tree")),
    ("tree", .union {} [.ref {} "leaf", .leaf {} .null]), ("leaf", .object {} [("up", .ref {} "tree")])]

/-- the definitions that it compiles to -/
def catalogueDefinitions : Fields := [
  ("tree", .obj [("anyOf", .arr [.obj [("$ref", .str "#/definitions/leaf")], .obj [("type", .str "null")]])]),
  ("leaf", .obj [("type", .str "object"), ("properties", .obj [("up", .obj [("$ref", .str "#/definitions/tree")])]),
    ("additionalProperties", .bool true), ("required", .arr [.str "up"])]),
  ("list[0]", .obj [("description", .str "[1] value, or more"), ("type", .str "object"),
    ("additionalProperties", .obj [("$ref", .str "#/definitions/tree")]), ("properties", .obj []),
    ("required", .arr [])])]

/-- their rows -/
def catalogueRows : List Row := [
  ⟨"tree".toList, "anyOf".toList, "-".toList, "-".toList⟩,
  ⟨"leaf".toList, "object".toList, "yes".toList, "-".toList⟩,
  ⟨"list[0]".toList, "object".toList, "schema".toList, "[1] value, or more".toList⟩]

theorem catalogue_listed :
    ∃ octets, Document.load ⟨"", ["d.json"]⟩ octets = .ok catalogue ∧
      ∀ (evaluates : List Char → Bool) (disk : Disk), disk.source ⟨"", ["d.json"]⟩ = .file octets →
        (run ⟨80, evaluates⟩ Disk.access ["definitions", "d.json", "--allow-additional"]).run disk =
          (.done (Console.output (Definitions.linesOf 80 "Definitions (d.json)".toList catalogueRows)), disk) := by
  have hlossless : catalogue.toJson.Lossless := by
    simp [catalogue, Document.toJson, Node.toJson, Node.toFields, Node.toItems, Node.fields, Json.lossless_obj,
      Json.lossless_arr, Json.lossless_str, Text.unsplit_ofString, Json.Lossless.null, Json.Lossless.bool,
      Entries.Distinct]
  obtain ⟨octets, hload⟩ := exists_octets (show Document.ofJson catalogue.toJson = .ok catalogue from rfl) hlossless
    (show Document.isYaml ⟨"", ["d.json"]⟩ = false from rfl)
  refine ⟨octets, hload, fun evaluates disk hsource => ?_⟩
  have hrequest : Request.ofArguments ["definitions", "d.json", "--allow-additional"] =
      some (.definitions ⟨"", ["d.json"]⟩ ⟨.encoded, [], true⟩) := by with_unfolding_all rfl
  have hprintable : ∀ e ∈ catalogue.definitions, e.1.IsPrintable ∧
      ∀ d, e.2.notes.description = some d → d.IsPrintable := by
    simp only [catalogue, List.forall_mem_cons]
    refine ⟨⟨⟨_, rfl, by decide⟩, ?_⟩, ⟨⟨_, rfl, by decide⟩, ?_⟩, ⟨⟨_, rfl, by decide⟩, ?_⟩,
      ⟨⟨_, rfl, by decide⟩, ?_⟩, List.forall_mem_nil _⟩ <;> rintro _ ⟨⟩
    exact ⟨_, rfl, by decide⟩
  obtain ⟨definitions, top, rs, outcome, hgenerate, htells, hrun, -, -, hlist⟩ :=
    definitions_listed ⟨80, evaluates⟩ hrequest hsource hload fun id node _ hnode =>
      hprintable _ (Entries.mem_of_get? hnode)
  obtain ⟨top', hcompiled⟩ : ∃ top', (generate catalogue.build ⟨.encoded, [], true⟩).1 =
      .ok (("definitions", .obj catalogueDefinitions) :: top') := ⟨_, rfl⟩
  obtain rfl : catalogueDefinitions = definitions := by
    cases hcompiled.symm.trans hgenerate
    rfl
  have hrows : List.Forall₂ (Tells true) catalogueDefinitions catalogueRows :=
    .cons ⟨rfl, _, rfl, .anyOf rfl rfl, .absent rfl, .untold rfl⟩
      (.cons ⟨rfl, _, rfl, .type rfl, .flag rfl, .untold rfl⟩
        (.cons ⟨rfl, _, rfl, .type rfl, .schema rfl, .told rfl⟩ .nil))
  obtain rfl : catalogueRows = rs := Relator.RightUnique.forall₂ (fun _ _ _ h h' => h.unique h') hrows htells
  have htitle : Markup.Verbatim evaluates (Definitions.title ⟨"", ["d.json"]⟩) :=
    Markup.verbatim_of_not_mem (by decide) (by decide) (by decide)
  have hverbatim : ∀ r ∈ catalogueRows, Markup.Verbatim evaluates r.id ∧ Markup.Verbatim evaluates r.description := by
    have hplain : ∀ r ∈ catalogueRows, (Markup.Untagged r.id ∧ Text.Printable r.id ∧ ':' ∉ r.id) ∧
        Markup.Untagged r.description ∧ Text.Printable r.description ∧ ':' ∉ r.description := by decide
    intro r hr
    obtain ⟨⟨hid, hidprintable, hidcolon⟩, hdescription, hdescriptionprintable, hdescriptioncolon⟩ := hplain r hr
    exact ⟨Markup.verbatim_of_untagged hid hidprintable (Text.Emoji.replace_of_not_mem hidcolon),
      Markup.verbatim_of_untagged hdescription hdescriptionprintable
        (Text.Emoji.replace_of_not_mem hdescriptioncolon)⟩
  obtain ⟨lines, hdone, -, hlines⟩ := hlist _ (by decide) htitle hverbatim
  have hshort : Definitions.AreShort 80 "Definitions (d.json)".toList catalogueRows := by decide
  rw [hrun, hdone, hlines hshort]
  rfl

/-- a document with one definition -/
def naming (id : String) : Document := ⟨.ref {} id, [(id, .leaf {} .string)]⟩

theorem naming_lossless (id : String) : (naming id).toJson.Lossless := by
  simp [naming, Document.toJson, Node.toJson, Node.toFields, Node.fields, Json.lossless_obj, Json.lossless_str,
    Text.unsplit_ofString, Json.Lossless.null, Json.Lossless.bool, Entries.Distinct]

/-- the row of its definition -/
def namingRow (id : List Char) : Row := ⟨id, "string".toList, "-".toList, "-".toList⟩

/-- what is compiled from it -/
def namingSchema (id : List Char) : Fields :=
  [("definitions", .obj [(.ofChars id, .obj [("type", .str "string")])]),
    ("$ref", .str (.ofChars ("#/definitions/".toList ++ id)))]

theorem naming_shows {id : List Char} (h : Text.Printable id) :
    List.Forall₂ Shows (definitionsOf (namingSchema id)) [namingRow id] := by
  have hkind := Definitions.word_shown (show "string" ∈ Definitions.kinds ++ Definitions.answers by decide)
  have hanswer := Definitions.word_shown (show "-" ∈ Definitions.kinds ++ Definitions.answers by decide)
  refine .cons ⟨rfl, ?_, ?_⟩ .nil
  · simp only [namingRow, Row.texts, List.forall_mem_cons]
    exact ⟨h, hkind.1, hanswer.1, hanswer.1, by simp⟩
  · simp only [namingRow, List.forall_mem_cons]
    exact ⟨hkind.2, hanswer.2, by simp⟩

/-- **Ids are not shown as they are**: of one id its style is left out, and another one breaks the command off. -/
theorem styled_ids_misread :
    (∃ octets, Document.load ⟨"", ["d.json"]⟩ octets = .ok (naming "[b]y") ∧
      ∀ (evaluates : List Char → Bool) (disk : Disk), disk.source ⟨"", ["d.json"]⟩ = .file octets →
        (run ⟨80, evaluates⟩ Disk.access ["definitions", "d.json"]).run disk = (.done (Console.output (
          Definitions.linesOf 80 "Definitions (d.json)".toList [namingRow "y".toList])), disk)) ∧
    ∃ octets, Document.load ⟨"", ["d.json"]⟩ octets = .ok (naming "[/y]") ∧
      ∀ (console : Console) (disk : Disk), 8 ≤ console.width → disk.source ⟨"", ["d.json"]⟩ = .file octets →
        ((run console Disk.access ["definitions", "d.json"]).run disk).1.exitCode = 1 := by
  have hrequest : Request.ofArguments ["definitions", "d.json"] = some (.definitions ⟨"", ["d.json"]⟩ {}) := by
    with_unfolding_all rfl
  have hyaml : Document.isYaml ⟨"", ["d.json"]⟩ = false := rfl
  constructor
  · obtain ⟨octets, hload⟩ := exists_octets (show Document.ofJson (naming "[b]y").toJson = .ok _ from rfl)
      (naming_lossless "[b]y") hyaml
    refine ⟨octets, hload, fun evaluates disk hsource => ?_⟩
    have hgenerate : (generate (naming "[b]y").build {}).1 = .ok (namingSchema "[b]y".toList) := rfl
    have hprintable : Text.Printable "[b]y".toList := by decide
    have hcells : ∀ row ∈ [namingRow "[b]y".toList].map Row.texts, ∀ cell ∈ row,
        (Console.mk 80 evaluates).read cell = .ok ⟨if cell = "[b]y".toList then "y".toList else cell, []⟩ := by
      have hid : Markup.render evaluates "[b]y".toList = .ok ⟨"y".toList, []⟩ := by
        with_unfolding_all rfl
      have hkind := (Definitions.word_shown (show "string" ∈ Definitions.kinds ++ Definitions.answers by decide)).2.2.2
      have hanswer := (Definitions.word_shown (show "-" ∈ Definitions.kinds ++ Definitions.answers by decide)).2.2.2
      simp only [namingRow, Row.texts, List.map_cons, List.map_nil, List.forall_mem_singleton, List.forall_mem_cons]
      exact ⟨hid, hkind evaluates, hanswer evaluates, hanswer evaluates⟩
    have htitle : (Console.mk 80 evaluates).read (Definitions.title ⟨"", ["d.json"]⟩) =
        .ok ⟨"Definitions (d.json)".toList, []⟩ :=
      Markup.verbatim_of_not_mem (by decide) (by decide) (by decide)
    obtain ⟨lines, htable, -, hlines⟩ := Console.table_of_read htitle hcells
      (show header.map String.toList ≠ [] by decide) (by decide)
    rw [run_definitions hrequest hsource hload hgenerate,
      list_of_lines rfl (naming_shows hprintable) (List.cons_ne_nil _ _) htable,
      hlines (show 4 + 3 < 80 by decide)]
    have hshort : Definitions.AreShort 80 "Definitions (d.json)".toList [namingRow "y".toList] := by decide
    rw [← Definitions.lines_listing (naming_shows (by decide)) hshort]
    rfl
  · obtain ⟨octets, hload⟩ := exists_octets (show Document.ofJson (naming "[/y]").toJson = .ok _ from rfl)
      (naming_lossless "[/y]") hyaml
    refine ⟨octets, hload, fun console disk hwidth hsource => ?_⟩
    have hgenerate : (generate (naming "[/y]").build {}).1 = .ok (namingSchema "[/y]".toList) := rfl
    have hprintable : Text.Printable "[/y]".toList := by decide
    have hpieces : Markup.read "[/y]".toList = [.literal []] ++ .closing ['y'] :: [] := by
      with_unfolding_all rfl
    obtain ⟨_, hfailure⟩ : ∃ failure, console.read "[/y]".toList = .error failure :=
      Markup.render_unopened (by simp) hpieces
    obtain ⟨_, htable⟩ := Console.table_of_unread (Definitions.title ⟨"", ["d.json"]⟩)
      (show (header.map String.toList).length + 3 < console.width from hwidth)
      (show (namingRow "[/y]".toList).texts ∈ [namingRow "[/y]".toList].map Row.texts from List.mem_cons_self) rfl
      List.mem_cons_self hfailure
    rw [run_definitions hrequest hsource hload hgenerate,
      list_of_failure rfl (naming_shows hprintable) (List.cons_ne_nil _ _) htable]
    rfl

end Cli

end CodecCompiler
