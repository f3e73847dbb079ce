/-
Files: what is stored on a disk is found there again, octet by octet and, where it is ASCII, character by character.

- `Text.Utf8.encode_ofList`: the octets of a text are those of its characters in order.
- `Text.Utf8.decode_encode`: ASCII that is encoded is decoded again; `Text.unifyNewlines_eq_self`: without carriage
  returns its lines stay as they are.
- `Disk.source_of_write`: a file that was written is there, with its octets.
-/
import CodecCompiler.Files.Disk
import CodecCompiler.Text.Newlines
import Mathlib.Tactic

namespace CodecCompiler

namespace Text

/-! ## Octets -/

theorem Utf8.toList_loop (octets : ByteArray) (i : Nat) (done : List UInt8) :
    ByteArray.toList.loop octets i done = done.reverse ++ octets.data.toList.drop i := by
  induction hn : octets.size - i generalizing i done with
  | zero =>
    have hend : ¬ i < octets.size := by omega
    have hdrop : octets.data.toList.drop i = [] := List.drop_eq_nil_of_le (by simpa using Nat.le_of_not_lt hend)
    rw [ByteArray.toList.loop, if_neg hend, hdrop, List.append_nil]
  | succ n ih =>
    have hin : i < octets.size := by omega
    have hlength : i < octets.data.toList.length := by simpa using hin
    have hget : octets.get! i = octets.data.toList[i] := by
      change octets.data[i]! = _
      rw [getElem!_pos octets.data i hin]
      rfl
    rw [ByteArray.toList.loop, if_pos hin, ih (i + 1) _ (by omega), List.drop_eq_getElem_cons hlength, hget]
    simp

/-- the octets of characters in order -/
theorem Utf8.encode_ofList (cs : List Char) : encode (String.ofList cs) = cs.flatMap String.utf8EncodeChar := by
  have hdata : (String.ofList cs).toUTF8.data.toList = cs.flatMap String.utf8EncodeChar := by
    rw [String.toUTF8_eq_toByteArray, String.toByteArray_ofList]
    exact List.toList_data_toByteArray
  unfold encode ByteArray.toList
  rw [Utf8.toList_loop, hdata]
  rfl

theorem Utf8.encodeChar_ascii {c : Char} (h : c.toNat < 0x80) : String.utf8EncodeChar c = [UInt8.ofNat c.toNat] := by
  have hle : c.val.toNat ≤ 127 := Nat.le_of_lt_succ h
  unfold String.utf8EncodeChar
  simp only [hle, if_true]
  rfl

theorem Utf8.encode_ascii {cs : List Char} (h : ∀ c ∈ cs, c.toNat < 0x80) :
    encode (String.ofList cs) = cs.map fun c => UInt8.ofNat c.toNat := by
  rw [encode_ofList, List.flatMap_congr fun c hc => encodeChar_ascii (h c hc), List.map_eq_flatMap]

theorem Utf8.decodeFrom_cons {octet : UInt8} (h : octet.toNat < 0x80) (position : Nat) (rest : List UInt8) :
    decodeFrom position (octet :: rest) =
      (decodeFrom (position + 1) rest).map (Char.ofNat octet.toNat :: ·) := by
  cases rest <;> simp only [decodeFrom, h, if_true]

theorem Utf8.decodeFrom_ascii {cs : List Char} (h : ∀ c ∈ cs, c.toNat < 0x80) (position : Nat) :
    decodeFrom position (cs.map fun c => UInt8.ofNat c.toNat) = .ok cs := by
  induction cs generalizing position with
  | nil => rfl
  | cons c cs ih =>
    have hc := h c List.mem_cons_self
    have hrest := ih (fun d hd => h d (List.mem_cons_of_mem c hd)) (position + 1)
    have hoctet : (UInt8.ofNat c.toNat).toNat = c.toNat := by
      rw [UInt8.toNat_ofNat']
      omega
    rw [List.map_cons, decodeFrom_cons (by rwa [hoctet]), hrest, hoctet, Char.ofNat_toNat]
    rfl

/-- **ASCII is decoded as it was encoded.** -/
theorem Utf8.decode_encode {s : String} (h : ∀ c ∈ s.toList, c.toNat < 0x80) : decode (encode s) = .ok s := by
  have hoctets : encode s = s.toList.map fun c => UInt8.ofNat c.toNat := by
    have hencode := encode_ascii h
    rwa [String.ofList_toList] at hencode
  rw [decode, hoctets, decodeFrom_ascii h]
  exact congrArg Except.ok String.ofList_toList

theorem unifyNewlines_eq_self {cs : List Char} (h : '\r' ∉ cs) : unifyNewlines cs = cs := by
  induction cs with
  | nil => rfl
  | cons c cs ih =>
    rw [List.mem_cons, not_or] at h
    rw [unifyNewlines, ih h.2]
    · exact fun _ hc => absurd hc.symm h.1
    · exact fun hc => absurd hc.symm h.1

end Text

namespace Disk

/-! ## Disks -/

variable {disk : Disk} {octets : List UInt8}

theorem look_folder_iff {place : Location} : disk.look place = .folder ↔ place ∈ disk.folders := by
  unfold look
  split_ifs with h
  · exact iff_of_true rfl h
  · refine iff_of_false (fun hlook => ?_) h
    cases hfile : disk.files.lookup place <;> rw [hfile] at hlook <;> cases hlook

theorem look_put {place : Location} (h : disk.look place ≠ .folder) :
    (disk.put place octets).look place = .file octets := by
  have hfolder : place ∉ disk.folders := fun hmem => h (look_folder_iff.2 hmem)
  have hothers : (disk.files.filter (·.1 ≠ place)).lookup place = none := by
    rw [List.lookup_eq_none_iff]
    intro file hfile
    have hne : file.1 ≠ place := by simpa using (List.mem_filter.1 hfile).2
    simpa using hne.symm
  have hlookup : (disk.put place octets).files.lookup place = some octets := by
    change (disk.files.filter (·.1 ≠ place) ++ [(place, octets)]).lookup place = some octets
    rw [List.lookup_append, hothers]
    simp
  unfold look
  rw [if_neg (show place ∉ (disk.put place octets).folders from hfolder), hlookup]

/-- a file more does not change where parts lead -/
theorem follow_put {place : Location} {parts : List String} {start found : Location}
    (h : disk.follow start parts = .ok found) : (disk.put place octets).follow start parts = .ok found := by
  induction parts generalizing start with
  | nil => exact h
  | cons part parts ih =>
    rw [follow] at h ⊢
    cases hlook : disk.look start with
    | folder =>
      have hmem : start ∈ disk.folders := look_folder_iff.1 hlook
      have hput : (disk.put place octets).look start = .folder := look_folder_iff.2 hmem
      rw [hlook] at h
      rw [hput]
      dsimp only at h ⊢
      split_ifs at h ⊢
      exact ih h
    | missing | file | refused =>
      rw [hlook] at h
      cases h

theorem locate_put {place found : Location} {path : Path} (h : disk.locate path = .ok found) :
    (disk.put place octets).locate path = .ok found := by
  unfold locate at h ⊢
  split_ifs at h ⊢
  all_goals exact follow_put h

/-- **A file that was written is there**, with the octets that were written. -/
theorem source_of_write {path : Path} {disk' : Disk} (h : disk.write path octets = .ok disk') :
    disk'.source path = .file octets := by
  unfold write at h
  cases hprepare : disk.prepare path with
  | error refusal =>
    rw [hprepare] at h
    cases h
  | ok prepared =>
    cases hlocate : prepared.locate path with
    | error refusal =>
      simp only [hprepare, bind, Except.bind, hlocate] at h
      cases h
    | ok place =>
      have hstored : prepared.look place ≠ .folder ∧ disk' = prepared.put place octets := by
        simp only [hprepare, bind, Except.bind, hlocate] at h
        cases hlook : prepared.look place with
        | folder =>
          rw [hlook] at h
          cases h
        | missing | file | refused =>
          rw [hlook] at h
          cases h
          exact ⟨Source.noConfusion, rfl⟩
      obtain ⟨hlook, rfl⟩ := hstored
      unfold source
      rw [locate_put hlocate]
      exact look_put hlook

end Disk

end CodecCompiler
