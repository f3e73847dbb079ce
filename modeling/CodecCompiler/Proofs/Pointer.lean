/-
References read as JSON pointers in the fragment of a URI: what follows `#/` is split at slashes, each token is
percent-decoded, and then `~1` is read as a slash and `~0` as a tilde.

- `Pointer.path?` reads a reference, `Pointer.follow?` walks down a document; `Pointer.LeadsTo` says that a reference is
  the path of an id's definition, and that the definition is there.
- `Pointer.token?_eq_some_self_iff`: a token is read as itself when it has no escapes, and only then; every escape makes
  it shorter.
- `Pointer.path?_reference_iff`: so the reference to an id is the path of its definition exactly for the ids that are
  `Pointer.Verbatim`.
- `Document.references_lead_iff`: which references of a compiled document lead to their definitions.
-/
import CodecCompiler.Proofs.Compilation
import CodecCompiler.Proofs.References
import CodecCompiler.Text.Digits

namespace CodecCompiler

open Entries (names)

namespace Pointer

/-! ## Reading -/

/-- the octet that a percent sign and two hexadecimal digits stand for -/
def escape? : CodePoint → CodePoint → CodePoint → Option UInt8
  | .char sign, .char a, .char b => do
    if sign = '%' then return UInt8.ofNat (16 * (← Text.hexValue a) + (← Text.hexValue b)) else none
  | _, _, _ => none

/-- the code points of a token and the octets escaped in it; a percent sign that begins no escape stands for itself -/
def pieces : List CodePoint → List (CodePoint ⊕ UInt8)
  | p :: a :: b :: rest =>
    match escape? p a b with
    | some octet => .inr octet :: pieces rest
    | none => .inl p :: pieces (a :: b :: rest)
  | short => short.map .inl

/-- the code points that octets encode -/
def decoded (octets : List UInt8) : Option (List CodePoint) :=
  (Text.Utf8.decodeFrom 0 octets).toOption.map fun cs => cs.map .char

/-- puts pieces together; octets one after another, those of `run` first, are decoded as one -/
def assemble (run : List UInt8) : List (CodePoint ⊕ UInt8) → Option (List CodePoint)
  | [] => decoded run
  | .inr octet :: rest => assemble (run ++ [octet]) rest
  | .inl p :: rest => do return (← decoded run) ++ p :: (← assemble [] rest)

/-- reads a tilde with a digit behind it as another character, from left to right -/
def contract (digit read : Char) : List CodePoint → List CodePoint
  | p :: q :: rest =>
    if p = .char '~' ∧ q = .char digit then .char read :: contract digit read rest
    else p :: contract digit read (q :: rest)
  | short => short

/-- the text that a token stands for; none when its octets encode none -/
def token? (points : List CodePoint) : Option Text :=
  (assemble [] (pieces points)).map fun decoded => ⟨contract '0' '~' (contract '1' '/' decoded)⟩

/-- the path that a reference stands for -/
def path? (reference : Text) : Option (List Text) :=
  match reference.points with
  | .char '#' :: .char '/' :: rest => (rest.splitOn (.char '/')).mapM token?
  | _ => none

/-- a position in a list: a numeral without leading zeros -/
def index? (token : Text) : Option Nat := do
  let digits ← token.toChars?
  if digits = ['0'] ∨ digits ≠ [] ∧ digits.head? ≠ some '0' then Text.numeral? 10 digits else none

/-- the value at the end of a path -/
def follow? : Json → List Text → Option Json
  | v, [] => some v
  | .obj fields, name :: path => (Entries.get? fields name).bind fun v => follow? v path
  | .arr items, name :: path => (index? name).bind fun i => items[i]?.bind fun v => follow? v path
  | _, _ :: _ => none

/-- the path of an id's definition -/
def definitionPath (id : Text) : List Text := ["definitions", id]

/-- the reference is the path of an id's definition in a document that has it -/
def LeadsTo (document : Json) (reference id : Text) : Prop :=
  path? reference = some (definitionPath id) ∧ (follow? document (definitionPath id)).isSome

/-! ## Tokens without escapes -/

/-- an id without slashes and without escapes of either sort -/
structure Verbatim (id : Text) : Prop where
  undivided : .char '/' ∉ id.points
  unescaped : ∀ p a b, (escape? p a b).isSome → ¬ [p, a, b] <:+: id.points
  slash : ¬ [.char '~', .char '1'] <:+: id.points
  tilde : ¬ [.char '~', .char '0'] <:+: id.points

theorem length_pieces_le (ps : List CodePoint) : (pieces ps).length ≤ ps.length := by
  fun_induction pieces ps with
  | case1 p a b rest octet _ ih =>
    simp only [List.length_cons]
    omega
  | case2 p a b rest _ ih =>
    simp only [List.length_cons] at ih ⊢
    omega
  | case3 ps => simp

theorem pieces_eq_map {ps : List CodePoint} (h : ∀ p a b, (escape? p a b).isSome → ¬ [p, a, b] <:+: ps) :
    pieces ps = ps.map .inl := by
  fun_induction pieces ps with
  | case1 p a b rest octet hoctet _ =>
    have hfirst : [p, a, b] <:+: p :: a :: b :: rest := List.IsPrefix.isInfix ⟨rest, rfl⟩
    exact absurd hfirst (h p a b (by simp [hoctet]))
  | case2 p a b rest _ ih =>
    rw [List.map_cons, ih fun q c d hescape hmem => h q c d hescape (List.infix_cons_iff.2 (Or.inr hmem))]
  | case3 ps => rfl

/-- escapes make the pieces fewer than the code points -/
theorem unescaped_of_length {ps : List CodePoint} (h : ps.length ≤ (pieces ps).length) (p a b : CodePoint)
    (hescape : (escape? p a b).isSome) : ¬ [p, a, b] <:+: ps := by
  fun_induction pieces ps with
  | case1 q c d rest octet _ _ =>
    have hle := length_pieces_le rest
    simp only [List.length_cons] at h
    omega
  | case2 q c d rest hnone ih =>
    rw [List.infix_cons_iff, not_or]
    refine ⟨fun hstart => ?_, ih (by simpa using h)⟩
    obtain ⟨tail, heq⟩ := hstart
    obtain ⟨rfl, rfl, rfl, -⟩ : p = q ∧ a = c ∧ b = d ∧ tail = rest := by simpa using heq
    simp [hnone] at hescape
  | case3 ps hshort =>
    intro hoccurs
    have hlength := hoccurs.length_le
    match ps, hshort with
    | [], _ => simp at hlength
    | [_], _ => simp at hlength
    | [_, _], _ => simp at hlength
    | q :: c :: d :: rest, hshort => exact hshort q c d rest rfl

/-! ## Escapes shorten -/

theorem length_le_of_map_cons {ε α : Type} {x : Except ε (List α)} {a : α} {cs : List α} {n : Nat}
    (h : x.map (a :: ·) = .ok cs) (hx : ∀ {ds}, x = .ok ds → ds.length ≤ n) : cs.length ≤ n + 1 := by
  cases x with
  | error e => exact nomatch h
  | ok ds =>
    rw [← Except.ok.inj h]
    exact Nat.succ_le_succ (hx rfl)

/-- octets encode no more characters than they are -/
theorem length_decodeFrom_le (position : Nat) (octets : List UInt8) {cs : List Char}
    (h : Text.Utf8.decodeFrom position octets = .ok cs) : cs.length ≤ octets.length := by
  fun_induction Text.Utf8.decodeFrom position octets generalizing cs with
  | case1 => exact (Except.ok.inj h) ▸ Nat.le_refl 0
  | case2 => exact length_le_of_map_cons h ‹_›
  | case6 => exact (length_le_of_map_cons h ‹_›).trans (Nat.le_succ _)
  | case9 => exact (length_le_of_map_cons h ‹_›).trans (Nat.le_add_right _ 2)
  | case12 => exact (length_le_of_map_cons h ‹_›).trans (Nat.le_add_right _ 3)
  | _ => exact nomatch h

theorem length_decoded_le {octets : List UInt8} {ps : List CodePoint} (h : decoded octets = some ps) :
    ps.length ≤ octets.length := by
  unfold decoded at h
  cases hcs : Text.Utf8.decodeFrom 0 octets with
  | error e => simp [hcs, Except.toOption] at h
  | ok cs =>
    have hmap : cs.map CodePoint.char = ps := by simpa [hcs, Except.toOption] using h
    rw [← hmap, List.length_map]
    exact length_decodeFrom_le 0 octets hcs

theorem length_assemble_le {run : List UInt8} {us : List (CodePoint ⊕ UInt8)} {ps : List CodePoint}
    (h : assemble run us = some ps) : ps.length ≤ run.length + us.length := by
  induction us generalizing run ps with
  | nil => exact length_decoded_le h
  | cons u us ih =>
    cases u with
    | inl p =>
      simp only [assemble, Option.bind_eq_bind, Option.bind_eq_some_iff, Option.pure_def, Option.some.injEq] at h
      obtain ⟨first, hfirst, rest, hrest, rfl⟩ := h
      have hrun := length_decoded_le hfirst
      have hus := ih hrest
      simp only [List.length_append, List.length_cons, List.length_nil] at hus ⊢
      omega
    | inr octet =>
      have hus := ih h
      simp only [List.length_append, List.length_cons, List.length_nil] at hus ⊢
      omega

theorem assemble_map (ps : List CodePoint) : assemble [] (ps.map .inl) = some ps := by
  induction ps with
  | nil => rfl
  | cons p ps ih =>
    rw [List.map_cons, assemble, ih]
    rfl

theorem length_contract_le (digit read : Char) (ps : List CodePoint) : (contract digit read ps).length ≤ ps.length := by
  fun_induction contract digit read ps with
  | case1 p q rest _ ih =>
    simp only [List.length_cons]
    omega
  | case2 p q rest _ ih =>
    simp only [List.length_cons] at ih ⊢
    omega
  | case3 ps => exact Nat.le_refl _

theorem contract_eq_self {digit read : Char} {ps : List CodePoint} (h : ¬ [.char '~', .char digit] <:+: ps) :
    contract digit read ps = ps := by
  fun_induction contract digit read ps with
  | case1 p q rest hpair _ =>
    obtain ⟨rfl, rfl⟩ := hpair
    exact absurd (List.IsPrefix.isInfix ⟨rest, rfl⟩) h
  | case2 p q rest _ ih => rw [ih fun hmem => h (List.infix_cons_iff.2 (Or.inr hmem))]
  | case3 ps => rfl

theorem absent_of_length {digit read : Char} {ps : List CodePoint}
    (h : ps.length ≤ (contract digit read ps).length) : ¬ [.char '~', .char digit] <:+: ps := by
  fun_induction contract digit read ps with
  | case1 p q rest _ _ =>
    have hle := length_contract_le digit read rest
    simp only [List.length_cons] at h
    omega
  | case2 p q rest hpair ih =>
    rw [List.infix_cons_iff, not_or]
    refine ⟨fun hstart => hpair ?_, ih (by simpa using h)⟩
    obtain ⟨tail, heq⟩ := hstart
    obtain ⟨hp, hq, -⟩ : .char '~' = p ∧ .char digit = q ∧ tail = rest := by simpa using heq
    exact ⟨hp.symm, hq.symm⟩
  | case3 ps hshort =>
    intro hoccurs
    have hlength := hoccurs.length_le
    match ps, hshort with
    | [], _ => simp at hlength
    | [_], _ => simp at hlength
    | p :: q :: rest, hshort => exact hshort p q rest rfl

/-! ## References to definitions -/

/-- **A token is read as itself exactly when it has no escapes.** -/
theorem token?_eq_some_self_iff {id : Text} (hid : .char '/' ∉ id.points) :
    token? id.points = some id ↔ Verbatim id := by
  constructor
  · intro h
    unfold token? at h
    obtain ⟨qs, hqs, heq⟩ := Option.map_eq_some_iff.1 h
    have hpoints : contract '0' '~' (contract '1' '/' qs) = id.points := congrArg Text.points heq
    -- no step lengthens, so none of them shortens
    have hassemble := length_assemble_le hqs
    have hpieces := length_pieces_le id.points
    have hslash := length_contract_le '1' '/' qs
    have htilde := length_contract_le '0' '~' (contract '1' '/' qs)
    rw [hpoints] at htilde
    simp only [List.length_nil, Nat.zero_add] at hassemble
    have hescape : ∀ p a b, (escape? p a b).isSome → ¬ [p, a, b] <:+: id.points :=
      unescaped_of_length (by omega)
    rw [pieces_eq_map hescape, assemble_map] at hqs
    cases hqs
    have hnoslash := absent_of_length (show id.points.length ≤ (contract '1' '/' id.points).length by omega)
    rw [contract_eq_self hnoslash] at hpoints
    exact ⟨hid, hescape, hnoslash, absent_of_length (by rw [hpoints])⟩
  · intro h
    unfold token?
    rw [pieces_eq_map h.unescaped, assemble_map, Option.map_some, contract_eq_self h.slash,
      contract_eq_self h.tilde]

theorem path?_reference (id : Text) : path? ("#/definitions/" ++ id) =
    ((id.points.splitOn (.char '/')).mapM token?).map fun tokens => ("definitions" : Text) :: tokens := by
  have hpoints : ("#/definitions/" ++ id : Text).points =
      .char '#' :: .char '/' :: (("definitions" : Text).points ++ .char '/' :: id.points) := rfl
  have htoken : token? ("definitions" : Text).points = some "definitions" := by decide
  unfold path?
  rw [hpoints]
  simp only
  rw [List.splitOn_append_cons_self_of_not_mem (by decide), List.mapM_cons, htoken]
  cases (id.points.splitOn (.char '/')).mapM token? <;> rfl

theorem length_of_mapM {α β : Type} {f : α → Option β} {xs : List α} {ys : List β} (h : xs.mapM f = some ys) :
    ys.length = xs.length := by
  induction xs generalizing ys with
  | nil =>
    cases h
    rfl
  | cons x xs ih =>
    rw [List.mapM_cons, Option.bind_eq_bind, Option.bind_eq_some_iff] at h
    obtain ⟨y, -, h⟩ := h
    rw [Option.bind_eq_bind, Option.bind_eq_some_iff] at h
    obtain ⟨zs, hzs, h⟩ := h
    cases h
    rw [List.length_cons, List.length_cons, ih hzs]

/-- **The reference to an id is the path of its definition** exactly when the id is verbatim. -/
theorem path?_reference_iff (id : Text) : path? ("#/definitions/" ++ id) = some (definitionPath id) ↔ Verbatim id := by
  have hpath : path? ("#/definitions/" ++ id) = some (definitionPath id) ↔
      (id.points.splitOn (.char '/')).mapM token? = some [id] := by
    rw [path?_reference, definitionPath, Option.map_eq_some_iff]
    simp
  rw [hpath]
  by_cases hid : .char '/' ∈ id.points
  · -- a slash leaves several tokens
    refine iff_of_false (fun h => ?_) fun h => h.undivided hid
    obtain ⟨before, after, heq⟩ := List.append_of_mem hid
    have hlength := length_of_mapM h
    rw [heq, List.splitOn_append_cons_self, List.length_append, List.length_singleton] at hlength
    have hbefore := List.length_pos_of_ne_nil (List.splitOn_ne_nil (.char '/') before)
    have hafter := List.length_pos_of_ne_nil (List.splitOn_ne_nil (.char '/') after)
    omega
  · rw [List.splitOn_eq_singleton hid, ← token?_eq_some_self_iff hid, List.mapM_cons, List.mapM_nil]
    cases token? id.points <;> simp

end Pointer

/-! ## References of compiled documents -/

namespace Document

open Pointer (LeadsTo Verbatim definitionPath path? follow?)
open Json (RefersTo)

/-- **Which references lead to their definitions.** Every reference of a compiled document is made for an id that the
document refers to and has a definition for; read as a pointer it leads there exactly when the id is verbatim. -/
theorem references_lead_iff {data : Data} {doc : Document} {options : Options} (accepted : ofData data = .ok doc)
    (hplain : options.handlers = []) :
    ∃ schema progress, generate doc.build options = (.ok schema, progress) ∧
      ∀ r, RefersTo (.obj schema) r → ∃ id ∈ doc.refs, id ∈ names progress.definitions ∧
        r = .str ("#/definitions/" ++ id) ∧ (LeadsTo (.obj schema) ("#/definitions/" ++ id) id ↔ Verbatim id) := by
  obtain ⟨top, progress, -, -, hgenerate, -⟩ := exists_generate (closed_of_ofData accepted) hplain
  refine ⟨_, progress, hgenerate, fun r hr => ?_⟩
  obtain ⟨id, ⟨hdefined, hid⟩, heq⟩ := refersTo_defined hplain hgenerate hr
  rw [ids_build] at hid
  refine ⟨id, hid, hdefined, heq, ?_⟩
  obtain ⟨_, _, -, hschema, -, -⟩ := generate_ok hplain hgenerate
  obtain ⟨entry, hentry⟩ := Entries.exists_get? hdefined
  have hfollow : follow? (.obj (withDefinitions progress.definitions top)) (definitionPath id) = some entry := by
    rw [hschema]
    simp [definitionPath, follow?, Entries.get?_cons, hentry]
  rw [LeadsTo, hfollow, Pointer.path?_reference_iff]
  simp

/-- a document with an id that has a slash in it, and with the id that spells this one with an escape -/
def slashed : Document where
  codec := .tuple {} [.ref {} "a/b", .ref {} "a~1b"]
  definitions := [("a/b", .leaf {} .string), ("a~1b", .leaf {} .number)]

theorem slashed_references :
    ofData (Data.ofJson slashed.toJson) = .ok slashed ∧
    ∃ schema progress, generate slashed.build {} = (.ok schema, progress) ∧
      ∀ r, RefersTo (.obj schema) r → ∃ id ∈ slashed.refs, id ∈ names progress.definitions ∧
        r = .str ("#/definitions/" ++ id) ∧ (LeadsTo (.obj schema) ("#/definitions/" ++ id) id ↔ Verbatim id) :=
  ⟨rfl, references_lead_iff (show ofData (Data.ofJson slashed.toJson) = .ok slashed from rfl) rfl⟩

/-- **References go astray.** The reference made for the id with the slash leads nowhere, and the one made for the
other id leads to the definition of the first. -/
theorem slashed_references_astray :
    ofData (Data.ofJson slashed.toJson) = .ok slashed ∧
    ∃ schema progress, generate slashed.build {} = (.ok schema, progress) ∧
      RefersTo (.obj schema) (.str "#/definitions/a/b") ∧
      (path? "#/definitions/a/b").bind (follow? (.obj schema)) = none ∧
      RefersTo (.obj schema) (.str "#/definitions/a~1b") ∧
      ¬ LeadsTo (.obj schema) "#/definitions/a~1b" "a~1b" ∧ LeadsTo (.obj schema) "#/definitions/a~1b" "a/b" := by
  refine ⟨rfl, _, _, rfl, ⟨reference "a/b", .inside .top (by decide), by decide⟩, by decide,
    ⟨reference "a~1b", .inside .top (by decide), by decide⟩, fun h => ?_, by decide, by decide⟩
  exact absurd h.1 (by decide)

end Document

end CodecCompiler
