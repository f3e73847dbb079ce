/-
Printing on a console.

- `Console.message_of_verbatim`: a text that stands for itself is printed.
- `Console.readRows_of_read`: cells that can be read are what is read of rows, where there is room for them.
- `Console.table_of_unread`: where there is room, one cell that cannot be read is enough for a table not to be printed.
- `Console.table_of_read`: a table of texts without styles that cannot be read is printed, whatever its size, and no
  line is wider than the console.
-/
import CodecCompiler.Proofs.Columns
import CodecCompiler.Proofs.Translation

namespace CodecCompiler

namespace Console

variable {console : Console} {header : List (List Char)} {rows : List (List (List Char))}

theorem message_of_verbatim {cs : List Char} (h : Markup.Verbatim console.evaluates cs) :
    console.message cs = .ok (if console.width = 0 then []
      else (Styled.linesIn .fold console.width ⟨cs, []⟩).map Styled.text) := by
  have hread : console.read cs = .ok ⟨cs, []⟩ := h
  have hsound : (Styled.linesIn .fold console.width ⟨cs, []⟩).all Styled.isSound = true :=
    List.all_eq_true.2 (Styled.sound_linesIn rfl)
  unfold message
  rw [hread, ok_bind]
  by_cases hwidth : console.width = 0
  · simp only [hwidth, if_true]
    rfl
  · simp only [hwidth, if_false, hsound, if_true]
    rfl

theorem readRows_of_read (columns : Nat) {shown : List Char → List Char}
    (h : ∀ row ∈ rows, ∀ cell ∈ row, console.read cell = .ok ⟨shown cell, []⟩) :
    console.readRows columns rows = .ok (rows.map fun row => row.map fun cell =>
      ⟨if console.width ≤ columns + 3 then [] else shown cell, []⟩) := by
  unfold readRows
  by_cases hwidth : console.width ≤ columns + 3
  · simp only [hwidth, if_true]
    rfl
  · have hchecked : ((List.range columns).flatMap fun i => rows.filterMap fun row => row[i]?).mapM console.read =
        .ok (((List.range columns).flatMap fun i => rows.filterMap fun row => row[i]?).map fun cell =>
          ⟨shown cell, []⟩) := by
      refine mapM_eq_ok fun cell hcell => ?_
      obtain ⟨i, -, hcell⟩ := List.mem_flatMap.1 hcell
      obtain ⟨row, hrow, hcell⟩ := List.mem_filterMap.1 hcell
      exact h row hrow cell (List.mem_of_getElem? hcell)
    have hrows : (rows.mapM fun row => row.mapM console.read) =
        .ok (rows.map fun row => row.map fun cell => ⟨shown cell, []⟩) :=
      mapM_eq_ok fun row hrow => mapM_eq_ok fun cell hcell => h row hrow cell hcell
    simp only [hwidth, if_false, hchecked, hrows]
    rfl

/-- **A table with a cell that cannot be read is not printed**, where there is room for its cells. -/
theorem table_of_unread (title : List Char) {row : List (List Char)} {cell : List Char} {failure : Markup.Failure}
    (hwidth : header.length + 3 < console.width) (hrow : row ∈ rows) (hlength : row.length = header.length)
    (hcell : cell ∈ row) (hread : console.read cell = .error failure) :
    ∃ failure, console.table title header rows = .error failure := by
  obtain ⟨i, hi⟩ := List.getElem?_of_mem hcell
  have hcolumn : i < header.length := hlength ▸ (List.getElem?_eq_some_iff.1 hi).1
  have hmem : cell ∈ (List.range header.length).flatMap fun i => rows.filterMap fun row => row[i]? :=
    List.mem_flatMap.2 ⟨i, List.mem_range.2 hcolumn, List.mem_filterMap.2 ⟨row, hrow, hi⟩⟩
  obtain ⟨failure, hchecked⟩ := exists_mapM_eq_error hmem hread
  have hrows : console.readRows header.length rows = .error failure := by
    unfold readRows
    rw [if_neg (by omega), hchecked]
    rfl
  unfold table
  rw [if_neg (by omega), hrows]
  exact ⟨failure, rfl⟩

theorem textWidth_cropped (line : List Char) : Text.textWidth (console.cropped line) ≤ console.width := by
  unfold cropped
  split_ifs with hfits
  · exact hfits
  · exact Text.textWidth_cut _ _

theorem cropped_of_fits {line : List Char} (h : Text.textWidth line ≤ console.width) : console.cropped line = line :=
  if_pos h

/-- **A table of texts without styles that cannot be read is printed**, and no line is wider than the console. If a
column can have room for a character, the lines are those of the table. -/
theorem table_of_read {title heading : List Char} {shown : List Char → List Char}
    (htitle : console.read title = .ok ⟨heading, []⟩)
    (hcells : ∀ row ∈ rows, ∀ cell ∈ row, console.read cell = .ok ⟨shown cell, []⟩) (hheader : header ≠ [])
    (hregular : ∀ row ∈ rows, row.length = header.length) :
    ∃ lines, console.table title header rows = .ok lines ∧
      (∀ line ∈ lines, Text.textWidth line ≤ console.width) ∧
      (header.length + 3 < console.width → lines = Table.lines console.width
        ⟨⟨heading, []⟩, header.map (⟨·, []⟩), rows.map fun row => row.map fun cell => ⟨shown cell, []⟩⟩) := by
  unfold table
  by_cases hwidth : console.width = 0
  · rw [if_pos hwidth]
    exact ⟨[], rfl, by simp, fun hless => absurd hless (by omega)⟩
  · have hread := readRows_of_read header.length hcells
    generalize hrows : (rows.map fun row => row.map fun cell =>
      (⟨if console.width ≤ header.length + 3 then [] else shown cell, []⟩ : Styled)) = cells at hread
    have hsound : Table.isSound console.width ⟨⟨heading, []⟩, header.map (⟨·, []⟩), cells⟩ = true := by
      refine Table.isSound_of_cells rfl (List.forall_mem_cons.2 ⟨by simp [Styled.isSound], ?_⟩)
      rw [← hrows]
      simp [Styled.isSound]
    refine ⟨(Table.lines console.width ⟨⟨heading, []⟩, header.map (⟨·, []⟩), cells⟩).map console.cropped, ?_, ?_, ?_⟩
    · rw [if_neg hwidth, hread, ok_bind, htitle, ok_bind, if_pos hsound]
      rfl
    · intro line hline
      obtain ⟨whole, -, rfl⟩ := List.mem_map.1 hline
      exact textWidth_cropped whole
    · intro hroom
      have hsame : cells = rows.map fun row => row.map fun cell => ⟨shown cell, []⟩ := by
        rw [← hrows]
        simp only [if_neg (Nat.not_le.2 hroom)]
      -- all lines have the width of the table, so none is cropped
      have hwhole : Table.Regular ⟨⟨heading, []⟩, header.map (⟨·, []⟩), cells⟩ := by
        intro row hrow
        rw [hsame] at hrow
        obtain ⟨texts, htexts, rfl⟩ := List.mem_map.1 hrow
        simpa using hregular texts htexts
      rw [← hsame]
      refine (List.map_congr_left fun line hline => cropped_of_fits ?_).trans (List.map_id' _)
      rw [Table.textWidth_lines hwhole (by simpa using hheader) line hline]
      exact Table.width_le hwhole (by simp only [List.length_map]; omega)

end Console

end CodecCompiler
