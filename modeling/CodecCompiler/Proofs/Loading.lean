/-
Loading: a file that holds a text is loaded as a document, or refused as an invalid document for a cause that can be
told, or, if it is YAML, breaks off at a scalar.

- `Yaml.Strays`: what in a text can make reading it break off: a tag that forces a type on a scalar, an escape by a
  number of more than 31 bits, a float in base sixty of more than 174 places. Besides, a mapping may be tagged as a text
  and stand for itself, and then reading it has no end.
- `Yaml.read_ensures`: nothing else can.
- `Document.Explains`: what the cause of an invalid document says about its text.
- `Document.load_outcome`: the three outcomes of loading, and what the command line makes of the last two.
-/
import CodecCompiler.Cli.Run
import CodecCompiler.Proofs.Files
import CodecCompiler.Proofs.Graphs
import CodecCompiler.Proofs.Scanning

namespace CodecCompiler

namespace Yaml

/-! ## Texts -/

/-- a float in base sixty of more than 174 places -/
def HasLongFloat (cs : List Char) : Prop := ∃ word, word <:+: cs ∧ Spelling.IsTooLong word

/-- what can make reading a text break off -/
inductive Strays (cs : List Char) : Failure → Prop
  | tag {f : Failure} {tag : String} (hmark : '!' ∈ cs) (htag : Tagged (Token.scan cs) tag) (h : IsForcing tag) :
    Strays cs f
  | escape (h : HasHugeEscape cs) : Strays cs .tooLarge
  | float (h : HasLongFloat cs) : Strays cs .tooLarge
  /-- a mapping is sought for the text that it stands for -/
  | endless {tag : String} (hmark : '!' ∈ cs) (htag : Tagged (Token.scan cs) tag)
      (h : (NodeType.ofTag tag).makesText = true) : Strays cs .endless

variable {cs : List Char}

theorem mark_of_tagged {tag : String} (h : Tagged (Token.scan cs) tag) : '!' ∈ cs := by
  cases h with
  | verbatim h | standard h _ | declared h _ => exact Token.sound_of_mem_scan h

/-- a plain scalar is read by its spelling, unless it is a float of too many places -/
theorem plain_ensures {text : Text} (h : .scalar text true ∈ Token.scan cs) :
    FailsWith (fun f => f.IsReported ∨ Strays cs f) (scalarValue (.ofSpelling text) text) := by
  obtain ⟨s, rfl, hplain⟩ := Token.sound_of_mem_scan h
  have hlast : s.toList.getLast? ≠ some '\n' := fun hlast => absurd (hplain.getLast?_ne _ hlast) (by decide)
  have hspelling : NodeType.ofSpelling (.ofString s) = .ofString s := by
    rw [NodeType.ofSpelling, Text.toString?_ofString]
    rfl
  rw [hspelling]
  refine (scalarValue_ofString hlast).weaken fun f hf => hf.imp_right ?_
  rintro ⟨rfl, hlong⟩
  exact .float ⟨_, hplain.isInfix (Spelling.solid_of_isFloat hlong.1), hlong⟩

/-- **Reading a text gives data or a failure that is reported, unless something in the text can make it break off.** -/
theorem read_ensures (cs : List Char) :
    FailsWith (fun f => f.IsReported ∨ Strays cs f) (read (String.ofList cs)) := by
  by_cases hforcing : ∃ tag, Tagged (Token.scan cs) tag ∧ IsForcing tag
  · obtain ⟨tag, htag, h⟩ := hforcing
    cases read (String.ofList cs) with
    | error f => exact .error (.inr (.tag (mark_of_tagged htag) htag h))
    | ok data => exact .ok trivial
  · have hreadable : Readable (fun f => f.IsReported ∨ Strays cs f) (Token.scan cs) := {
      reported := fun _ => .inl
      failure := fun f hf => (Token.sound_of_mem_scan hf).imp_right fun ⟨heq, hescape⟩ => heq ▸ .escape hescape
      plain := fun _ => plain_ensures
      tag := fun tag htag h => hforcing ⟨tag, htag, h⟩
      endless := fun tag htag h => .inr (.endless (mark_of_tagged htag) htag h) }
    unfold read
    rw [String.toList_ofList]
    dsimp only
    split
    · exact (Graph.ofTokens_ensures hreadable).bind fun g hg => Graph.evaluate_ensures hreadable.reported hg
    · exact .error (.inl Failure.isReported_malformed)

/-- a mapping that is tagged as a text and stands for itself -/
example : (read "x: &a !!str {=: *a}").map (fun _ => ()) = .error .endless := by decide +kernel

end Yaml

namespace Document

/-! ## Causes -/

/-- what the cause of an invalid document says about its text -/
inductive Explains (path : Path) (text : String) : InvalidCause → Prop
  | yaml (hyaml : isYaml path = true) (h : Yaml.read text = .error .malformed) : Explains path text .yaml
  | scalar (hyaml : isYaml path = true) (h : Yaml.read text = .error .noValue) : Explains path text .scalar
  | json (hjson : isYaml path = false) (h : Json.read text = .error .malformed) : Explains path text .json
  | number (hjson : isYaml path = false) (h : Json.read text = .error .longNumber) : Explains path text .scalar
  | issues {data : Data} {found : List Issue} (h : read path text = .ok data) (hissues : ofData data = .error found) :
    Explains path text (.issues found)

variable {path : Path} {text : String}

/-- what cannot be read is an invalid document, unless reading it breaks off -/
theorem read_error {e : LoadError} (h : read path text = .error e) :
    (∃ cause, e = .invalid path cause ∧ Explains path text cause) ∨
      isYaml path = true ∧ ∃ f, e = .unreadable f ∧ Yaml.read text = .error f ∧ ¬ f.IsReported := by
  unfold read at h
  split at h
  · rename_i hyaml
    cases hread : Yaml.read text with
    | ok data => simp [hread, Except.mapError] at h
    | error f =>
      obtain rfl : LoadError.ofYaml path f = e := by simpa [hread, Except.mapError] using h
      cases f with
      | malformed => exact .inl ⟨.yaml, rfl, .yaml hyaml hread⟩
      | noValue => exact .inl ⟨.scalar, rfl, .scalar hyaml hread⟩
      | noTruthWord | emptyNumber | noDate | noScalar | tooLarge | endless =>
        exact .inr ⟨hyaml, _, rfl, rfl, by simp [Yaml.Failure.IsReported]⟩
  · rename_i hjson
    rw [Bool.not_eq_true] at hjson
    cases hread : Json.read text with
    | ok data => simp [hread, Except.mapError, Except.map] at h
    | error fault =>
      have he : e = .invalid path (causeOfJson fault) := by simpa [hread, Except.mapError, Except.map] using h.symm
      cases fault with
      | malformed => exact .inl ⟨.json, he, .json hjson hread⟩
      | longNumber => exact .inl ⟨.scalar, he, .number hjson hread⟩

/-- a text is a document, or an invalid one for a cause, or reading it breaks off -/
theorem ofText_outcome (path : Path) (text : String) :
    (∃ data doc, read path text = .ok data ∧ ofData data = .ok doc ∧ ofText path text = .ok doc) ∨
      (∃ cause, Explains path text cause ∧ ofText path text = .error (.invalid path cause)) ∨
      isYaml path = true ∧
        ∃ f, Yaml.read text = .error f ∧ ¬ f.IsReported ∧ ofText path text = .error (.unreadable f) := by
  cases hread : read path text with
  | error e =>
    have htext : ofText path text = .error e := by rw [ofText, hread]; rfl
    rcases read_error hread with ⟨cause, rfl, hcause⟩ | ⟨hyaml, f, rfl, hf, hunreported⟩
    · exact .inr (.inl ⟨cause, hcause, htext⟩)
    · exact .inr (.inr ⟨hyaml, f, hf, hunreported, htext⟩)
  | ok data =>
    cases hdata : ofData data with
    | error found =>
      refine .inr (.inl ⟨.issues found, .issues hread hdata, ?_⟩)
      rw [ofText, hread]
      simp [bind, Except.bind, hdata, Except.mapError]
    | ok doc =>
      refine .inl ⟨data, doc, rfl, hdata, ?_⟩
      rw [ofText, hread]
      simp [bind, Except.bind, hdata, Except.mapError]

/-- **A file that holds a text has three outcomes.** It is loaded as the document of its data; or it is an invalid
document for a cause that its text bears out, and the command line reports it as such; or it is YAML in which a scalar
has no reading at all, which its text shows too, and the command line breaks off. -/
theorem load_outcome (console : Console) (path : Path) (options : Options) {octets : List UInt8} {text : String}
    (h : Text.Utf8.decode octets = .ok text) :
    let cs := Text.unifyNewlines text.toList
    (∃ data doc, read path (String.ofList cs) = .ok data ∧ ofData data = .ok doc ∧ load path octets = .ok doc) ∨
      (∃ cause, Explains path (String.ofList cs) cause ∧ load path octets = .error (.invalid path cause) ∧
        (LoadError.invalid path cause).message = "Invalid codec document " ++ path.text ∧
        Cli.schemaOf console path options (.file octets) =
          .error (Cli.report console ("Invalid codec document " ++ path.text))) ∨
      isYaml path = true ∧ ∃ f, Yaml.read (String.ofList cs) = .error f ∧ ¬ f.IsReported ∧ Yaml.Strays cs f ∧
        load path octets = .error (.unreadable f) ∧
        Cli.schemaOf console path options (.file octets) = .error (.crashed (.unreadable f)) := by
  intro cs
  have hload : load path octets = ofText path (String.ofList cs) := by rw [load, h]
  rcases ofText_outcome path (String.ofList cs) with ⟨data, doc, hread, hdata, htext⟩ | ⟨cause, hcause, htext⟩ |
    ⟨hyaml, f, hf, hunreported, htext⟩
  · exact .inl ⟨data, doc, hread, hdata, hload.trans htext⟩
  · refine .inr (.inl ⟨cause, hcause, hload.trans htext, rfl, ?_⟩)
    rw [Cli.schemaOf, hload.trans htext]
    rfl
  · have hstrays := Yaml.read_ensures cs
    rw [hf] at hstrays
    cases hstrays with
    | error hstrays =>
      refine .inr (.inr ⟨hyaml, f, hf, hunreported, hstrays.resolve_left hunreported, hload.trans htext, ?_⟩)
      rw [Cli.schemaOf, hload.trans htext]
      rfl

/-! ## Texts that cannot be read -/

theorem decode_encode_of_ascii (h : text.toList.all (·.toNat < 0x80) = true) :
    Text.Utf8.decode (Text.Utf8.encode text) = .ok text :=
  Text.Utf8.decode_encode fun c hc => by simpa using List.all_eq_true.1 h c hc

/-- a YAML text of ASCII that cannot be read, in a file -/
theorem load_of_read_error {f : Yaml.Failure} (hascii : text.toList.all (·.toNat < 0x80) = true)
    (hreturn : '\r' ∉ text.toList) (hyaml : isYaml path = true) (h : Yaml.read text = .error f) :
    load path (Text.Utf8.encode text) = .error (.ofYaml path f) := by
  have hread : read path text = .error (.ofYaml path f) := by
    rw [read, hyaml, h]
    rfl
  rw [load, decode_encode_of_ascii hascii]
  dsimp only
  rw [Text.unifyNewlines_eq_self hreturn, String.ofList_toList, ofText, hread]
  rfl

/-- a failure shows without the data that there would be instead -/
theorem eq_error_of_map {ε α : Type} {x : Except ε α} {e : ε} (h : x.map (fun _ => ()) = .error e) :
    x = .error e := by
  cases x with
  | error e' =>
    cases h
    rfl
  | ok a => cases h

/-- a date that is in no calendar is reported -/
theorem impossible_date_reported :
    ∃ octets, Text.Utf8.decode octets = .ok "codec:\n  type: literal\n  value: 2020-13-45\n" ∧
      load ⟨"", ["d.yaml"]⟩ octets = .error (.invalid ⟨"", ["d.yaml"]⟩ .scalar) ∧
      ∀ console : Console, Cli.schemaOf console ⟨"", ["d.yaml"]⟩ {} (.file octets) =
        .error (Cli.report console "Invalid codec document d.yaml") := by
  have hascii : "codec:\n  type: literal\n  value: 2020-13-45\n".toList.all (·.toNat < 0x80) = true := by decide
  have hread : Yaml.read "codec:\n  type: literal\n  value: 2020-13-45\n" = .error .noValue :=
    eq_error_of_map (by decide +kernel)
  have hload : load ⟨"", ["d.yaml"]⟩ (Text.Utf8.encode _) = .error (.invalid ⟨"", ["d.yaml"]⟩ .scalar) :=
    load_of_read_error hascii (by decide) rfl hread
  have hdecode := decode_encode_of_ascii hascii
  refine ⟨_, hdecode, hload, fun console => ?_⟩
  rcases load_outcome console ⟨"", ["d.yaml"]⟩ {} hdecode with ⟨data, doc, -, -, hdoc⟩ | ⟨cause, -, -, -, hreport⟩ |
    ⟨-, f, -, hunreported, -, hf, -⟩
  · cases hload.symm.trans hdoc
  · exact hreport
  · cases hload.symm.trans hf

/-- **Some texts are refused in another way**: a truth value by its tag alone, and an escape by too large a number. -/
theorem unreadable_scalars_crash :
    (∃ octets, Text.Utf8.decode octets = .ok "codec:\n  type: literal\n  value: !!bool maybe\n" ∧
      load ⟨"", ["d.yaml"]⟩ octets = .error (.unreadable .noTruthWord) ∧
      ∀ console : Console, Cli.schemaOf console ⟨"", ["d.yaml"]⟩ {} (.file octets) =
        .error (.crashed (.unreadable .noTruthWord))) ∧
    ∃ octets, Text.Utf8.decode octets = .ok "codec:\n  type: literal\n  value: \"\\U80000000\"\n" ∧
      load ⟨"", ["d.yaml"]⟩ octets = .error (.unreadable .tooLarge) ∧
      ∀ console : Console, Cli.schemaOf console ⟨"", ["d.yaml"]⟩ {} (.file octets) =
        .error (.crashed (.unreadable .tooLarge)) := by
  have hcrash : ∀ {octets : List UInt8} {f : Yaml.Failure}, load ⟨"", ["d.yaml"]⟩ octets = .error (.unreadable f) →
      ∀ console : Console, Cli.schemaOf console ⟨"", ["d.yaml"]⟩ {} (.file octets) =
        .error (.crashed (.unreadable f)) := fun hload console => by
    rw [Cli.schemaOf, hload]
    rfl
  constructor
  · have hascii : "codec:\n  type: literal\n  value: !!bool maybe\n".toList.all (·.toNat < 0x80) = true := by decide
    have hread : Yaml.read "codec:\n  type: literal\n  value: !!bool maybe\n" = .error .noTruthWord :=
      eq_error_of_map (by decide +kernel)
    have hload : load ⟨"", ["d.yaml"]⟩ (Text.Utf8.encode _) = .error (.unreadable .noTruthWord) :=
      load_of_read_error hascii (by decide) rfl hread
    exact ⟨_, decode_encode_of_ascii hascii, hload, hcrash hload⟩
  · have hascii : "codec:\n  type: literal\n  value: \"\\U80000000\"\n".toList.all (·.toNat < 0x80) = true := by decide
    have hread : Yaml.read "codec:\n  type: literal\n  value: \"\\U80000000\"\n" = .error .tooLarge :=
      eq_error_of_map (by decide +kernel)
    have hload : load ⟨"", ["d.yaml"]⟩ (Text.Utf8.encode _) = .error (.unreadable .tooLarge) :=
      load_of_read_error hascii (by decide) rfl hread
    exact ⟨_, decode_encode_of_ascii hascii, hload, hcrash hload⟩

end Document

end CodecCompiler
