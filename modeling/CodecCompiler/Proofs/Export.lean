/-
Exported files: the schema that is written to a file is read from it again, and a document is loaded from its dump.

- `Json.Carries`: a text is what a value is written as, is ASCII, and reads as the value; `Json.IsKept`: every file that
  it is stored in is read as the value too.
- `Document.load_of_carries`: a file with such a text is loaded as the document of the value.
- `Document.exported_text_reads_back`: lossless values are carried by their texts, and so are the schemas and the dumps
  of documents that are told; from the dump the document is loaded.
- `Document.long_integer_not_exported`: neither integers of too many digits nor pairs in two halves are exported.
-/
import CodecCompiler.Document.Loading
import CodecCompiler.Proofs.Files
import CodecCompiler.Proofs.Lossless
import Mathlib.Tactic

namespace CodecCompiler

/-- a text is stored where its octets are written -/
theorem Disk.run_store_iff {disk disk' : Disk} {path : Path} {text : String} :
    (Disk.access.store path text).run disk = (none, disk') ↔ disk.write path (Text.Utf8.encode text) = .ok disk' := by
  change (Disk.replace (disk.write path (Text.Utf8.encode text))).run disk = (none, disk') ↔ _
  cases hwrite : disk.write path (Text.Utf8.encode text) with
  | ok stored =>
    rw [Except.ok.injEq]
    exact ⟨fun h => congrArg Prod.snd h, fun h => h ▸ rfl⟩
  | error refusal =>
    refine iff_of_false (fun h => ?_) fun h => ?_
    · have hnone : some refusal = none := congrArg Prod.fst h
      cases hnone
    · cases h

namespace Json

/-- a text that a value is written as, and that reads as the value: in ASCII, and without carriage returns -/
structure Carries (v : Json) (pretty : Bool) (text : String) : Prop where
  written : v.text? pretty = some text
  ascii : ∀ c ∈ text.toList, c.toNat < 0x80
  unreturned : '\r' ∉ text.toList
  reads : read text = .ok v

theorem exists_carries {v : Json} (h : v.Lossless) (pretty : Bool) : ∃ text, v.Carries pretty text := by
  obtain ⟨text, hwritten, hprinted, hread⟩ := read_text h pretty
  refine ⟨text, hwritten, fun c hc => ?_, fun hreturn => ?_, hread⟩
  · rcases hprinted c hc with rfl | ⟨-, hascii⟩
    · decide
    · exact hascii
  · rcases hprinted '\r' hreturn with hbreak | ⟨hblank, -⟩
    · exact absurd hbreak (by decide)
    · exact absurd hblank (by decide)

variable {v : Json} {pretty : Bool} {text : String}

theorem Carries.decode_encode (h : v.Carries pretty text) : Text.Utf8.decode (Text.Utf8.encode text) = .ok text :=
  Text.Utf8.decode_encode h.ascii

/-- its lines are as they would be read from a file -/
theorem Carries.unified (h : v.Carries pretty text) : String.ofList (Text.unifyNewlines text.toList) = text := by
  rw [Text.unifyNewlines_eq_self h.unreturned, String.ofList_toList]

/-- every file that a text is stored in is read as the value -/
def IsKept (v : Json) (text : String) : Prop :=
  ∀ (disk disk' : Disk) (path : Path), (Disk.access.store path text).run disk = (none, disk') →
    ∃ octets stored, disk'.source path = .file octets ∧ Text.Utf8.decode octets = .ok stored ∧
      read (String.ofList (Text.unifyNewlines stored.toList)) = .ok v

theorem Carries.isKept (h : v.Carries pretty text) : v.IsKept text := by
  intro disk disk' path hstore
  have hsource : disk'.source path = .file (Text.Utf8.encode text) := Disk.source_of_write (Disk.run_store_iff.1 hstore)
  refine ⟨Text.Utf8.encode text, text, hsource, h.decode_encode, ?_⟩
  rw [h.unified]
  exact h.reads

end Json

namespace Document

/-! ## Files -/

/-- a file that holds a value as JSON is loaded as the document of the value -/
theorem load_of_carries {v : Json} {doc : Document} {pretty : Bool} {text : String} (accepted : ofJson v = .ok doc)
    (h : v.Carries pretty text) {path : Path} (hpath : isYaml path = false) :
    load path (Text.Utf8.encode text) = .ok doc := by
  have hread : read path text = .ok (Data.ofJson v) := by
    unfold read
    rw [hpath, h.reads]
    rfl
  have htext : ofText path text = .ok doc := by
    unfold ofText
    rw [hread]
    change (ofJson v).mapError _ = _
    rw [accepted]
    rfl
  unfold load
  rw [h.decode_encode]
  dsimp only
  rw [h.unified, htext]

/-- **What is exported reads back.** A value without floats that a text can hold is written as ASCII text, in either
form; that text reads as the value, and so does every file that it is stored in. The schema of an accepted document is
such a value where the dump of the document is. And from the text of its dump, in a file that is not read as YAML, the
document is loaded again. -/
theorem exported_text_reads_back :
    (∀ v : Json, v.Lossless → ∀ pretty, ∃ text, v.Carries pretty text ∧ v.IsKept text) ∧
    ∀ data doc, ofData data = .ok doc → doc.Told →
      (∀ options : Options, options.handlers = [] → ∀ pretty, ∃ schema text,
        (generate doc.build options).1 = .ok schema ∧ (Json.obj schema).Carries pretty text ∧
          (Json.obj schema).IsKept text) ∧
      ∀ path, isYaml path = false → ∀ pretty, ∃ text,
        doc.toJson.Carries pretty text ∧ load path (Text.Utf8.encode text) = .ok doc := by
  have hcarried : ∀ v : Json, v.Lossless → ∀ pretty, ∃ text, v.Carries pretty text ∧ v.IsKept text := by
    intro v hv pretty
    obtain ⟨text, hcarries⟩ := Json.exists_carries hv pretty
    exact ⟨text, hcarries, hcarries.isKept⟩
  refine ⟨hcarried, fun data doc accepted htold => ⟨?_, ?_⟩⟩
  · intro options hplain pretty
    obtain ⟨schema, hschema, hlossless⟩ := schema_lossless (closed_of_ofData accepted) hplain htold
    obtain ⟨text, hcarries, hkept⟩ := hcarried (.obj schema) hlossless pretty
    exact ⟨schema, text, hschema, hcarries, hkept⟩
  · intro path hpath pretty
    obtain ⟨text, hcarries⟩ := Json.exists_carries htold.dump pretty
    exact ⟨text, hcarries, load_of_carries (ofJson_toJson accepted) hcarries hpath⟩

/-- a document with quotes, control characters, characters of two units, an integer of many digits, and a loop -/
def escaped : Document where
  codec := .object {} [("say \"hi\"", .literal ⟨some "tab\tand \\", true⟩ (.int (-123456789012345678901234567890))),
    ("\u0007", .enum {} [.str "😀", .str "\u007f", .bool false, .int 0])]
  definitions := [("é", .tuple {} [.ref {} "é", .leaf {} .null])]

theorem escaped_told : escaped.Told := by
  have hpow : ∀ k, 30 ≤ k → Nat.pow 10 30 ≤ Nat.pow 10 k := fun _ hk => Nat.pow_le_pow_right (by decide) hk
  have hint : ∀ n : Int, n.natAbs < Nat.pow 10 30 → (Json.int n).Lossless :=
    fun n hn => .int (Json.Reading.isLong_eq_false_iff.2 (hn.trans_le (hpow mostDigits (by decide))))
  have hnegative : (Json.int (-123456789012345678901234567890)).Lossless := hint _ (by decide)
  have hzero : (Json.int 0).Lossless := hint _ (by decide)
  refine ⟨?_, fun notes items hmem => ?_⟩
  · simp [escaped, toJson, Node.toJson, Node.toFields, Node.toItems, Node.fields, Scalar.toJson, Json.lossless_obj,
      Json.lossless_arr, Json.lossless_str, Text.unsplit_ofString, Json.Lossless.null, Json.Lossless.bool,
      Entries.Distinct, hnegative, hzero]
  · have hitems : items.length = 2 := by
      simp [escaped, walk, Node.walk, Node.walkShape, Node.walkList] at hmem
      simp [hmem]
    rw [hitems]
    exact Json.Reading.isLong_eq_false_iff.2 ((show 2 < Nat.pow 10 30 by decide).trans_le (hpow mostDigits (by decide)))

theorem escaped_reads_back :
    ofData (Data.ofJson escaped.toJson) = .ok escaped ∧ escaped.Told ∧
    (∃ schema text disk' octets stored, (generate escaped.build {}).1 = .ok schema ∧
      (Json.obj schema).Carries true text ∧
      (Disk.access.store ⟨"", ["out", "schema.json"]⟩ text).run ⟨[], [[]], []⟩ = (none, disk') ∧
      disk'.source ⟨"", ["out", "schema.json"]⟩ = .file octets ∧ Text.Utf8.decode octets = .ok stored ∧
      Json.read (String.ofList (Text.unifyNewlines stored.toList)) = .ok (.obj schema)) ∧
    ∃ text, escaped.toJson.Carries false text ∧
      load ⟨"", ["escaped.json"]⟩ (Text.Utf8.encode text) = .ok escaped := by
  have accepted : ofData (Data.ofJson escaped.toJson) = .ok escaped := rfl
  obtain ⟨hschema, hdump⟩ := exported_text_reads_back.2 _ _ accepted escaped_told
  obtain ⟨schema, text, hgenerate, hcarries, hkept⟩ := hschema {} rfl true
  have hwrite : ∀ octets, Disk.write ⟨[], [[]], []⟩ ⟨"", ["out", "schema.json"]⟩ octets =
      .ok ⟨[], [[], ["out"]], [(["out", "schema.json"], octets)]⟩ := by
    intro octets
    with_unfolding_all rfl
  have hstore := Disk.run_store_iff.2 (hwrite (Text.Utf8.encode text))
  obtain ⟨octets, stored, hsource, hdecode, hread⟩ := hkept _ _ _ hstore
  refine ⟨accepted, escaped_told, ⟨schema, text, _, octets, stored, hgenerate, hcarries, hstore, ?_⟩, ?_⟩
  · exact ⟨hsource, hdecode, hread⟩
  · exact hdump ⟨"", ["escaped.json"]⟩ rfl false

/-! ## What no text carries -/

/-- a document with an integer -/
def counting (n : Int) : Document := ⟨.literal {} (.int n), []⟩

/-- its schema -/
def countingSchema (n : Int) : Fields :=
  [("definitions", .obj []), ("type", .str "string"), ("const", .int n)]

/-- an integer of too many digits is accepted and compiled, but not written -/
theorem long_integer_unwritten {n : Int} (h : isLong n = true) (pretty : Bool) :
    (Json.obj (countingSchema n)).text? pretty = none ∧ (counting n).toJson.text? pretty = none := by
  refine ⟨if_neg ?_, if_neg ?_⟩
  · simp [countingSchema, Json.isWritable, Json.areWritableFields, h]
  · simp [counting, toJson, Node.toJson, Node.fields, Scalar.toJson, Json.isWritable, Json.areWritableFields, h]

/-- a document with a text of two halves that make up a pair, as two escapes in YAML can spell it -/
def halves : Document := ⟨.literal {} (.str ⟨[.half ⟨0x3D, by decide⟩, .half ⟨0x600, by decide⟩]⟩), []⟩

/-- the document with the character of that pair -/
def whole : Document := ⟨.literal {} (.str "😀"), []⟩

theorem whole_lossless : whole.toJson.Lossless := by
  simp [whole, toJson, Node.toJson, Node.toFields, Node.fields, Scalar.toJson, Json.lossless_obj, Json.lossless_str,
    Text.unsplit_ofString, Json.Lossless.null, Json.Lossless.bool, Entries.Distinct]

/-- the least integer that has too many digits -/
def leastLong : Int := Int.ofNat (Nat.pow 10 mostDigits)

/-- **Not all that is accepted is exported.** An integer of 4301 digits is written neither in a schema nor in a dump; and
where the two halves of a pair are written, they are read as one character. -/
theorem long_integer_not_exported :
    (ofJson (counting leastLong).toJson = .ok (counting leastLong) ∧
      (generate (counting leastLong).build {}).1 = .ok (countingSchema leastLong) ∧
      ∀ pretty, (Json.obj (countingSchema leastLong)).text? pretty = none ∧
        (counting leastLong).toJson.text? pretty = none) ∧
    ofJson halves.toJson = .ok halves ∧ halves.toJson ≠ whole.toJson ∧ ∃ text, halves.toJson.text? false = some text ∧
      load ⟨"", ["halves.json"]⟩ (Text.Utf8.encode text) = .ok whole := by
  have hcounting : ∀ n, ofJson (counting n).toJson = .ok (counting n) ∧
      (generate (counting n).build {}).1 = .ok (countingSchema n) := fun n => ⟨rfl, rfl⟩
  have hlong : ∀ k, Nat.pow 10 mostDigits ≤ k → isLong (Int.ofNat k) = true := fun k hk => decide_eq_true hk
  have hunwritten := long_integer_unwritten (hlong _ (Nat.le_refl _))
  obtain ⟨text, hcarries⟩ := Json.exists_carries whole_lossless false
  have hsame : halves.toJson.text? false = whole.toJson.text? false := rfl
  refine ⟨⟨(hcounting leastLong).1, (hcounting leastLong).2, hunwritten⟩, rfl, by decide, text, ?_, ?_⟩
  · rw [hsame]
    exact hcarries.written
  · exact load_of_carries rfl hcarries rfl

end Document

end CodecCompiler
