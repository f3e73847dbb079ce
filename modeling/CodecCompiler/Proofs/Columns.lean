/-
The columns and the lines of tables.

- `Table.narrowed_le`, `Table.exists_narrowed_lt`: columns only lose cells, and where there are too many a widest column
  loses some. So `Table.exists_overlong`: where there are too many, some cell among the widest does not fit.
- `Table.sum_columns_le`: the columns get into their room. Of every narrowing `Table.count_lt_of_narrowed` says that it
  ends the excess or makes one more column as wide as the widest.
- `Table.textWidth_lines`: all lines have the width of the table; `Table.width_le`: they fit their place, if the borders
  alone fit it.
- `Table.fits_of_wide`: if the widest cells fit, all cells do; `Table.lines_of_fits`: rows that fit are one line each,
  with their texts as they are.
- `Table.isSound_of_cells`: without styles that cannot be read in its texts a table has none.
-/
import CodecCompiler.Proofs.Display

namespace CodecCompiler

namespace Table

open Text (Printable textWidth_of_ascii textWidth)

/-! ## Narrowing -/

variable {room width most total count : Nat} {ws : List Nat}

theorem giveUp_zero : giveUp width 0 total count ws = ws := by
  induction ws generalizing total count with
  | nil => rfl
  | cons w ws ih => simp [giveUp, ih]

@[simp] theorem length_giveUp : (giveUp width most total count ws).length = ws.length := by
  induction ws generalizing total count with
  | nil => rfl
  | cons w ws ih =>
    rw [giveUp]
    split_ifs
    · exact congrArg (· + 1) ih
    · exact congrArg (· + 1) ih

theorem giveUp_le {i n : Nat} (h : (giveUp width most total count ws)[i]? = some n) :
    ∃ w, ws[i]? = some w ∧ n ≤ w := by
  induction ws generalizing total count i with
  | nil => cases h
  | cons w ws ih =>
    rw [giveUp] at h
    split_ifs at h with hw
    · cases i with
      | zero => exact ⟨w, rfl, Option.some.inj h ▸ Nat.sub_le _ _⟩
      | succ i => exact ih h
    · cases i with
      | zero => exact ⟨w, rfl, (Option.some.inj h).ge⟩
      | succ i => exact ih h

/-- the last one gets all that is left -/
theorem share_one (total : Nat) : share total 1 = total := by
  simp [share, Nat.mod_one]

/-- where cells have to be given up, one of the columns does so -/
theorem exists_giveUp_lt (hwidth : 0 < width) (hmost : 0 < most) (htotal : 0 < total) (hmem : width ∈ ws) :
    ∃ i n : Nat, ws[i]? = some width ∧ (giveUp width most total (ws.count width) ws)[i]? = some n ∧ n < width := by
  induction ws with
  | nil => exact absurd hmem List.not_mem_nil
  | cons w ws ih =>
    rw [giveUp]
    by_cases hw : w = width
    · subst hw
      rw [if_pos rfl, List.count_cons_self]
      by_cases hpart : min most (share total (ws.count w + 1)) = 0
      · -- it gives up nothing: then others follow it
        have hrest : w ∈ ws := by
          by_contra hrest
          rw [List.count_eq_zero.2 hrest, share_one] at hpart
          omega
        obtain ⟨i, n, hi, hn, hlt⟩ := ih hrest
        refine ⟨i + 1, n, hi, ?_, hlt⟩
        rw [hpart]
        exact hn
      · exact ⟨0, w - min most (share total (ws.count w + 1)), rfl, rfl, by omega⟩
    · rw [if_neg hw, List.count_cons_of_ne hw]
      have hrest : width ∈ ws := (List.mem_cons.1 hmem).resolve_left (Ne.symm hw)
      obtain ⟨i, n, hi, hn, hlt⟩ := ih hrest
      exact ⟨i + 1, n, hi, hn, hlt⟩

@[simp] theorem length_narrowed : (narrowed room ws).length = ws.length := length_giveUp

/-- columns only become narrower -/
theorem narrowed_le {i n : Nat} (h : (narrowed room ws)[i]? = some n) : ∃ w, ws[i]? = some w ∧ n ≤ w := giveUp_le h

/-- with room for all, nothing is given up -/
theorem narrowed_eq_self (h : ws.sum ≤ room) : narrowed room ws = ws := by
  unfold narrowed
  simp only [← List.sum_eq_foldl, Nat.sub_eq_zero_of_le h, Nat.zero_min, giveUp_zero]

theorem le_widest {w : Nat} (h : w ∈ ws) : w ≤ widest ws := by
  obtain ⟨top, htop⟩ := Option.isSome_iff_exists.1 (List.isSome_max?_of_mem h)
  rw [widest, htop]
  exact (List.max?_eq_some_iff.1 htop).2 w h

theorem widest_mem (h : ws ≠ []) : widest ws ∈ ws := by
  obtain ⟨top, htop⟩ := Option.isSome_iff_exists.1 (List.isSome_max?_of_ne_nil h)
  rw [widest, htop]
  exact (List.max?_eq_some_iff.1 htop).1

theorem widest_eq {w : Nat} (hmem : w ∈ ws) (hle : ∀ v ∈ ws, v ≤ w) : widest ws = w := by
  rw [widest, List.max?_eq_some_iff.2 ⟨hmem, hle⟩, Option.getD_some]

/-- the columns that are not the widest are at most as wide as the next ones -/
theorem le_next {w : Nat} (h : w ∈ ws) (hne : w ≠ widest ws) : w ≤ widest (ws.filter (· ≠ widest ws)) :=
  le_widest (List.mem_filter.2 ⟨h, by simpa using hne⟩)

theorem widest_pos (h : 0 < ws.sum) : 0 < widest ws := by
  by_contra hzero
  have hsum : ws.sum = 0 := List.sum_eq_zero fun w hw => by
    have := le_widest hw
    omega
  omega

theorem next_lt (h : 0 < widest ws) : widest (ws.filter (· ≠ widest ws)) < widest ws := by
  by_cases hothers : ws.filter (· ≠ widest ws) = []
  · rw [hothers]
    exact h
  · obtain ⟨hmem, hne⟩ := List.mem_filter.1 (widest_mem hothers)
    exact lt_of_le_of_ne (le_widest hmem) (by simpa using hne)

/-- **Without room for all, one of the widest columns becomes narrower.** -/
theorem exists_narrowed_lt (h : room < ws.sum) :
    ∃ i n : Nat, ws[i]? = some (widest ws) ∧ (narrowed room ws)[i]? = some n ∧ n < widest ws := by
  have hne : ws ≠ [] := by
    rintro rfl
    exact absurd h (Nat.not_lt_zero room)
  have hwidest := widest_pos (Nat.zero_lt_of_lt h)
  have hnext := next_lt hwidest
  have hexcess : 0 < ws.foldl (· + ·) 0 - room := by
    rw [← List.sum_eq_foldl]
    omega
  exact exists_giveUp_lt hwidest (lt_min hexcess (by omega)) hexcess (widest_mem hne)

theorem length_repeat_narrowed (room steps : Nat) (ws : List Nat) :
    (Nat.repeat (narrowed room) steps ws).length = ws.length := by
  induction steps with
  | zero => rfl
  | succ steps ih => exact length_narrowed.trans ih

/-- narrowing again only takes away more -/
theorem repeat_narrowed_le {steps i n : Nat} (h : (Nat.repeat (narrowed room) (steps + 1) ws)[i]? = some n) :
    ∃ w, (narrowed room ws)[i]? = some w ∧ n ≤ w := by
  induction steps generalizing n with
  | zero => exact ⟨n, h, le_rfl⟩
  | succ steps ih =>
    obtain ⟨m, hm, hnm⟩ := narrowed_le h
    obtain ⟨w, hw, hmw⟩ := ih hm
    exact ⟨w, hw, hnm.trans hmw⟩

theorem repeat_narrowed_eq_self (h : ws.sum ≤ room) (steps : Nat) : Nat.repeat (narrowed room) steps ws = ws := by
  induction steps with
  | zero => rfl
  | succ steps ih => rw [Nat.repeat, ih, narrowed_eq_self h]

/-! ## The excess ends -/

/-- shares of one column less are what is left: either all columns give up the most, or the total is used up -/
theorem share_split (most total count : Nat) :
    min most (share total (count + 1)) ≤ total ∧
      min total ((count + 1) * most) =
        min most (share total (count + 1)) + min (total - min most (share total (count + 1))) (count * most) := by
  have hdiv := Nat.div_add_mod total (count + 1)
  have hmod := Nat.mod_lt total (Nat.succ_pos count)
  have hshare : share total (count + 1) = total / (count + 1) ∨
      share total (count + 1) = total / (count + 1) + 1 ∧ count + 1 ≤ total % (count + 1) * 2 := by
    unfold share
    simp only
    split_ifs with h
    · exact Or.inr ⟨rfl, by omega⟩
    · exact Or.inl rfl
  generalize total / (count + 1) = low at hdiv hshare
  generalize total % (count + 1) = rest at hdiv hmod hshare
  generalize share total (count + 1) = part at hshare
  have hlow : count * low + low + rest = total := by
    rw [← hdiv, Nat.succ_mul]
  by_cases hfull : most ≤ low
  · -- every column gives up the most
    have hle : count * most ≤ count * low := Nat.mul_le_mul_left _ hfull
    rw [Nat.succ_mul]
    omega
  · have hle : count * low + count ≤ count * most := by
      calc count * low + count = count * (low + 1) := by rw [Nat.mul_succ]
        _ ≤ count * most := Nat.mul_le_mul_left _ (by omega)
    rw [Nat.succ_mul]
    omega

/-- the columns of the width give up all of the total, or the most each -/
theorem sum_giveUp (hmost : most ≤ width) (total : Nat) (ws : List Nat) :
    (giveUp width most total (ws.count width) ws).sum + min total (ws.count width * most) = ws.sum := by
  induction ws generalizing total with
  | nil => simp [giveUp]
  | cons w ws ih =>
    rw [giveUp]
    by_cases hw : w = width
    · subst hw
      have hrest := ih (total - min most (share total (ws.count w + 1)))
      obtain ⟨hle, hsplit⟩ := share_split most total (ws.count w)
      rw [if_pos rfl, List.count_cons_self, hsplit, List.sum_cons, List.sum_cons, Nat.add_sub_cancel]
      have hpart : min most (share total (ws.count w + 1)) ≤ w := (min_le_left _ _).trans hmost
      omega
    · rw [if_neg hw, List.count_cons_of_ne hw, List.sum_cons, List.sum_cons, Nat.add_assoc, ih]

/-- with enough to give up, all columns of the width give up the most -/
theorem giveUp_eq_map (h : ws.count width * most ≤ total) :
    giveUp width most total (ws.count width) ws = ws.map fun w => if w = width then width - most else w := by
  induction ws generalizing total with
  | nil => rfl
  | cons w ws ih =>
    rw [giveUp, List.map_cons]
    by_cases hw : w = width
    · subst hw
      rw [List.count_cons_self] at h ⊢
      obtain ⟨hle, hsplit⟩ := share_split most total (ws.count w)
      have hpart : min most (share total (ws.count w + 1)) = most := by
        rw [Nat.min_eq_right h, Nat.succ_mul] at hsplit
        omega
      rw [Nat.succ_mul] at h
      simp only [if_pos, hpart, Nat.add_sub_cancel]
      rw [ih (by omega)]
    · rw [List.count_cons_of_ne hw] at h ⊢
      rw [if_neg hw, if_neg hw, ih h]

/-- where one number takes the place of another one, it is there as often as both were -/
theorem count_replaced {old new : Nat} (h : new ≠ old) (ws : List Nat) :
    (ws.map fun w => if w = old then new else w).count new = ws.count old + ws.count new := by
  induction ws with
  | nil => rfl
  | cons w ws ih =>
    rw [List.map_cons]
    by_cases hw : w = old
    · rw [if_pos hw, hw, List.count_cons_self, List.count_cons_self, List.count_cons_of_ne (Ne.symm h), ih]
      omega
    · rw [if_neg hw, List.count_cons, List.count_cons_of_ne hw, List.count_cons, ih]
      omega

/-- **One narrowing** ends the excess, or makes at least one more column as wide as the widest. -/
theorem count_lt_of_narrowed (h : room < (narrowed room ws).sum) :
    ws.count (widest ws) < (narrowed room ws).count (widest (narrowed room ws)) := by
  have hne : ws ≠ [] := by
    rintro rfl
    exact absurd h (Nat.not_lt_zero room)
  have hcount : 0 < ws.count (widest ws) := List.count_pos_iff.2 (widest_mem hne)
  unfold narrowed at h ⊢
  simp only [← List.sum_eq_foldl] at h ⊢
  generalize hnext : widest (ws.filter (· ≠ widest ws)) = next at h ⊢
  generalize hmost : min (ws.sum - room) (widest ws - next) = most at h ⊢
  have hsum := sum_giveUp (show most ≤ widest ws by omega) (ws.sum - room) ws
  have hlt : next < widest ws := hnext ▸ next_lt (widest_pos (by omega))
  -- the excess is more than all the widest columns give up, so they become as wide as the next ones
  have hless : ws.count (widest ws) * most < ws.sum - room := by
    by_contra hended
    rw [Nat.min_eq_left (Nat.not_lt.1 hended)] at hsum
    omega
  have hsame : widest ws - most = next := by
    have := Nat.le_mul_of_pos_left most hcount
    omega
  rw [giveUp_eq_map hless.le, hsame] at h ⊢
  have hmem : next ∈ ws := by
    by_cases hothers : ws.filter (· ≠ widest ws) = []
    · have hzero : next = 0 := by rw [← hnext, hothers]; rfl
      have hall : ∀ w ∈ ws, w = widest ws := by simpa using hothers
      refine absurd h (Nat.not_lt.2 (le_of_eq_of_le (List.sum_eq_zero fun v hv => ?_) (Nat.zero_le room)))
      obtain ⟨w, hw, rfl⟩ := List.mem_map.1 hv
      rw [if_pos (hall w hw), hzero]
    · exact hnext ▸ (List.mem_filter.1 (widest_mem hothers)).1
  have hwidest : widest (ws.map fun w => if w = widest ws then next else w) = next := by
    refine widest_eq (List.mem_map.2 ⟨next, hmem, if_neg hlt.ne⟩) fun v hv => ?_
    obtain ⟨w, hw, rfl⟩ := List.mem_map.1 hv
    split_ifs with htop
    · exact le_rfl
    · exact hnext ▸ le_next hw htop
  rw [hwidest, count_replaced hlt.ne]
  have := List.count_pos_iff.2 hmem
  omega

/-- after as many narrowings as there are columns the excess has ended -/
theorem sum_repeat_narrowed_le (room : Nat) (ws : List Nat) : (Nat.repeat (narrowed room) ws.length ws).sum ≤ room := by
  have hsteps : ∀ steps, ws ≠ [] → (Nat.repeat (narrowed room) steps ws).sum ≤ room ∨
      steps < (Nat.repeat (narrowed room) steps ws).count (widest (Nat.repeat (narrowed room) steps ws)) := by
    intro steps hne
    induction steps with
    | zero => exact Or.inr (List.count_pos_iff.2 (widest_mem hne))
    | succ steps ih =>
      rw [Nat.repeat]
      rcases ih with hended | hmore
      · rw [narrowed_eq_self hended]
        exact Or.inl hended
      · by_cases hended : (narrowed room (Nat.repeat (narrowed room) steps ws)).sum ≤ room
        · exact Or.inl hended
        · have := count_lt_of_narrowed (Nat.lt_of_not_le hended)
          exact Or.inr (by omega)
  by_cases hne : ws = []
  · subst hne
    exact Nat.zero_le room
  · refine (hsteps ws.length hne).resolve_right (Nat.not_lt.2 ?_)
    exact List.count_le_length.trans (length_repeat_narrowed room ws.length ws).le

/-! ## Cells and columns -/

theorem cellWidth_of_printable {cell : Styled} (h : Printable cell.text) : cellWidth cell = cell.text.length := by
  have hsplit : cell.text.splitOnP endsLine = [cell.text] := by
    refine List.splitOnP_eq_singleton fun c hc => ?_
    obtain ⟨hlow, hhigh⟩ := h c hc
    have hbreak : c ≠ '\n' := h.ne hc (by decide)
    simp only [endsLine, hbreak, decide_false, Bool.false_or, Bool.or_eq_false_iff, Bool.and_eq_false_iff,
      decide_eq_false_iff_not]
    omega
  rw [cellWidth, hsplit, List.map_singleton, List.max?_singleton, Option.getD_some, textWidth_of_ascii h]

/-- a column is as wide as one of its cells, from some widths on -/
theorem cells_attained {rows : List (List Styled)} {i n : Nat}
    (h : (rows.foldl (fun ws row => List.zipWith max ws (row.map cellWidth)) ws)[i]? = some n) :
    ws[i]? = some n ∨ ∃ row ∈ rows, ∃ cell, row[i]? = some cell ∧ cellWidth cell = n := by
  induction rows generalizing ws with
  | nil => exact Or.inl h
  | cons row rows ih =>
    rcases ih h with hfirst | ⟨other, hother, hcell⟩
    · obtain ⟨a, b, ha, hb, rfl⟩ := List.getElem?_zipWith_eq_some.1 hfirst
      rw [List.getElem?_map, Option.map_eq_some_iff] at hb
      obtain ⟨cell, hcell, rfl⟩ := hb
      rcases max_choice a (cellWidth cell) with hmax | hmax
      · exact Or.inl (ha.trans (congrArg some hmax.symm))
      · exact Or.inr ⟨row, List.mem_cons_self, cell, hcell, hmax.symm⟩
    · exact Or.inr ⟨other, List.mem_cons_of_mem row hother, hcell⟩

/-- and all its cells are at most as wide -/
theorem cells_le {rows : List (List Styled)} {i n : Nat}
    (h : (rows.foldl (fun ws row => List.zipWith max ws (row.map cellWidth)) ws)[i]? = some n) :
    (∃ w, ws[i]? = some w ∧ w ≤ n) ∧ ∀ row ∈ rows, ∃ cell, row[i]? = some cell ∧ cellWidth cell ≤ n := by
  induction rows generalizing ws with
  | nil => exact ⟨⟨n, h, le_rfl⟩, by simp⟩
  | cons row rows ih =>
    obtain ⟨⟨m, hm, hle⟩, hrows⟩ := ih h
    obtain ⟨a, b, ha, hb, rfl⟩ := List.getElem?_zipWith_eq_some.1 hm
    rw [List.getElem?_map, Option.map_eq_some_iff] at hb
    obtain ⟨cell, hcell, rfl⟩ := hb
    refine ⟨⟨a, ha, (le_max_left _ _).trans hle⟩, fun other hother => ?_⟩
    rcases List.mem_cons.1 hother with rfl | hother
    · exact ⟨cell, hcell, (le_max_right _ _).trans hle⟩
    · exact hrows other hother

theorem length_cells {rows : List (List Styled)} (h : ∀ row ∈ rows, row.length = ws.length) :
    (rows.foldl (fun ws row => List.zipWith max ws (row.map cellWidth)) ws).length = ws.length := by
  induction rows generalizing ws with
  | nil => rfl
  | cons row rows ih =>
    rw [List.forall_mem_cons] at h
    have hzip : (List.zipWith max ws (row.map cellWidth)).length = ws.length := by
      rw [List.length_zipWith, List.length_map, h.1, min_self]
    exact (ih fun other hother => (h.2 other hother).trans hzip.symm).trans hzip

/-- every row has a cell in each column -/
def Regular (t : Table) : Prop := ∀ row ∈ t.rows, row.length = t.header.length

variable {limit : Nat} {t : Table} {cells : List Styled} {cell : Styled} {i w : Nat}

theorem wanted_attained (h : (t.wanted limit)[i]? = some w) :
    ∃ cells ∈ t.header :: t.rows, ∃ cell, cells[i]? = some cell ∧ w ≤ cellWidth cell + 2 := by
  unfold wanted at h
  simp only [List.getElem?_map, Option.map_eq_some_iff] at h
  obtain ⟨n, hn, rfl⟩ := h
  rcases cells_attained hn with hheader | ⟨row, hrow, cell, hcell, rfl⟩
  · rw [List.getElem?_map, Option.map_eq_some_iff] at hheader
    obtain ⟨cell, hcell, rfl⟩ := hheader
    exact ⟨t.header, List.mem_cons_self, cell, hcell, min_le_left _ _⟩
  · exact ⟨row, List.mem_cons_of_mem _ hrow, cell, hcell, min_le_left _ _⟩

theorem le_wanted (h : (t.wanted limit)[i]? = some w) (hcells : cells ∈ t.header :: t.rows) :
    ∃ cell, cells[i]? = some cell ∧ min (cellWidth cell + 2) (t.room limit) ≤ w := by
  unfold wanted at h
  simp only [List.getElem?_map, Option.map_eq_some_iff] at h
  obtain ⟨n, hn, rfl⟩ := h
  have hle : ∃ cell, cells[i]? = some cell ∧ cellWidth cell ≤ n := by
    obtain ⟨⟨m, hm, hmn⟩, hrows⟩ := cells_le hn
    rcases List.mem_cons.1 hcells with rfl | hrow
    · rw [List.getElem?_map, Option.map_eq_some_iff] at hm
      obtain ⟨cell, hcell, rfl⟩ := hm
      exact ⟨cell, hcell, hmn⟩
    · exact hrows cells hrow
  obtain ⟨cell, hcell, hwidth⟩ := hle
  exact ⟨cell, hcell, by omega⟩

theorem length_wanted (limit : Nat) (hregular : t.Regular) : (t.wanted limit).length = t.header.length := by
  have hrows : ∀ row ∈ t.rows, row.length = (t.header.map cellWidth).length := by
    rw [List.length_map]
    exact hregular
  unfold wanted
  simp only [List.length_map, length_cells hrows]

theorem length_columns (limit : Nat) (hregular : t.Regular) : (t.columns limit).length = t.header.length := by
  rw [columns, length_repeat_narrowed, length_wanted limit hregular]

/-- **The columns get into their room.** -/
theorem sum_columns_le (limit : Nat) (hregular : t.Regular) : (t.columns limit).sum ≤ t.room limit := by
  rw [columns, ← length_wanted limit hregular]
  exact sum_repeat_narrowed_le _ _

/-- **Where there is not room for all, a cell among the widest does not fit.** -/
theorem exists_overlong (hregular : t.Regular) (h : t.room limit < (t.wanted limit).sum) :
    ∃ cells ∈ t.header :: t.rows, ∃ (i : Nat) (cell : Styled) (n : Nat), cells[i]? = some cell ∧
      (t.columns limit)[i]? = some n ∧ n < cellWidth cell + 2 ∧
      t.room limit < t.header.length * (cellWidth cell + 2) := by
  obtain ⟨i, narrower, hi, hnarrower, hlt⟩ := exists_narrowed_lt h
  obtain ⟨cells, hcells, cell, hcell, hwidth⟩ := wanted_attained hi
  have hlength := length_wanted limit hregular
  have hshare : t.room limit < t.header.length * (cellWidth cell + 2) := by
    calc t.room limit < (t.wanted limit).sum := h
      _ ≤ (t.wanted limit).length * widest (t.wanted limit) := List.sum_le_card_nsmul _ _ fun w hw => le_widest hw
      _ ≤ t.header.length * (cellWidth cell + 2) := by
        rw [hlength]
        exact Nat.mul_le_mul_left _ hwidth
  have hcolumns : 0 < t.header.length := Nat.pos_of_mul_pos_right (Nat.zero_lt_of_lt hshare)
  obtain ⟨steps, hsteps⟩ := Nat.exists_eq_add_one.2 hcolumns
  have hin : i < (Nat.repeat (narrowed (t.room limit)) (steps + 1) (t.wanted limit)).length := by
    rw [length_repeat_narrowed]
    exact (List.getElem?_eq_some_iff.1 hi).1
  obtain ⟨w, hw, hle⟩ := repeat_narrowed_le (List.getElem?_eq_getElem hin)
  rw [hnarrower] at hw
  cases hw
  refine ⟨cells, hcells, i, cell, _, hcell, ?_, hle.trans_lt (hlt.trans_le hwidth), hshare⟩
  rw [columns, hsteps, List.getElem?_eq_getElem hin]

/-- where no column is empty, the others take their part of the sum -/
theorem add_length_le_sum {ws : List Nat} (hpos : ∀ w ∈ ws, 0 < w) (h : ws[i]? = some w) :
    w + ws.length ≤ ws.sum + 1 := by
  have hlength : ∀ ws : List Nat, (∀ w ∈ ws, 0 < w) → ws.length ≤ ws.sum := by
    intro ws hpos
    simpa using List.card_nsmul_le_sum ws 1 hpos
  induction ws generalizing i with
  | nil => cases h
  | cons head ws ih =>
    rw [List.forall_mem_cons] at hpos
    rw [List.sum_cons, List.length_cons]
    cases i with
    | zero =>
      cases h
      have := hlength ws hpos.2
      omega
    | succ i =>
      have := ih hpos.2 h
      omega

/-! ## Texts that fit -/

/-- a row's texts are printable and fit their columns -/
def Fits (columns : List Nat) (cells : List Styled) : Prop :=
  List.Forall₂ (fun n cell => Printable cell.text ∧ cell.text.length + 2 ≤ n) columns cells

/-- **If the widest cells fit, all cells fit**: those that take more than an equal share of the room. -/
theorem fits_of_wide (hregular : t.Regular) (hroom : 0 < t.room limit) (hcolumns : 2 ≤ t.header.length)
    (hprintable : ∀ cells ∈ t.header :: t.rows, ∀ cell ∈ cells, Printable cell.text)
    (hwide : ∀ cells ∈ t.header :: t.rows, ∀ (i : Nat) cell n, cells[i]? = some cell →
      (t.columns limit)[i]? = some n → t.room limit < t.header.length * (cell.text.length + 2) →
        cell.text.length + 2 ≤ n) :
    ∀ cells ∈ t.header :: t.rows, Fits (t.columns limit) cells := by
  have hlengths : ∀ cells ∈ t.header :: t.rows, ∀ (i : Nat) cell, cells[i]? = some cell →
      cellWidth cell = cell.text.length := fun cells hcells i cell hcell =>
    cellWidth_of_printable (hprintable cells hcells cell (List.mem_of_getElem? hcell))
  have hsum : (t.wanted limit).sum ≤ t.room limit := by
    by_contra hover
    obtain ⟨cells, hcells, i, cell, n, hcell, hn, hlt, hshare⟩ :=
      exists_overlong hregular (Nat.lt_of_not_le hover)
    rw [hlengths cells hcells i cell hcell] at hlt hshare
    exact absurd (hwide cells hcells i cell n hcell hn hshare) (Nat.not_le.2 hlt)
  have hpos : ∀ w ∈ t.wanted limit, 0 < w := by
    intro w hw
    obtain ⟨j, hj⟩ := List.getElem?_of_mem hw
    obtain ⟨cell, -, hle⟩ := le_wanted hj List.mem_cons_self
    omega
  intro cells hcells
  have hlength : cells.length = t.header.length := by
    rcases List.mem_cons.1 hcells with rfl | hrow
    · rfl
    · exact hregular cells hrow
  refine List.forall₂_iff_get.2 ⟨(length_columns limit hregular).trans hlength.symm, fun i hi hcell => ?_⟩
  refine ⟨hprintable cells hcells _ (List.get_mem ..), ?_⟩
  -- with room for all, a column is as wide as it wants to be
  generalize hget : (t.columns limit).get ⟨i, hi⟩ = n
  have hn : (t.columns limit)[i]? = some n := hget ▸ List.getElem?_eq_getElem hi
  rw [columns, repeat_narrowed_eq_self hsum] at hn
  obtain ⟨cell, hsame, hle⟩ := le_wanted hn hcells
  rw [List.getElem?_eq_getElem hcell] at hsame
  cases hsame
  rw [hlengths cells hcells i _ (List.getElem?_eq_getElem hcell)] at hle
  have hothers := add_length_le_sum hpos hn
  rw [length_wanted limit hregular] at hothers
  change cells[i].text.length + 2 ≤ n
  omega

/-- one line of a row, between vertical signs -/
def rowLine (sign : Char) (columns : List Nat) (texts : List (List Char)) : List Char :=
  framed sign sign sign (List.zipWith part columns texts)

theorem parts_of_fits {n : Nat} (hprintable : Printable cell.text) (hfits : cell.text.length + 2 ≤ n) :
    (parts n cell).length ≤ 1 ∧ (parts n cell).getD 0 (Text.blanks n) = part n cell.text := by
  by_cases hempty : n ≤ 2
  · -- there is no room for a character, and no character either
    obtain rfl : n = 2 := by omega
    have hnil : cell.text = [] := List.length_eq_zero_iff.1 (by omega)
    rw [parts, cellLines, if_pos le_rfl, hnil]
    exact ⟨Nat.zero_le 1, rfl⟩
  · rw [parts, cellLines, if_neg hempty, Styled.linesIn_of_printable hprintable (by omega)]
    exact ⟨le_rfl, rfl⟩

/-- **A row whose texts fit is one line**, with the texts as they are. -/
theorem row_of_fits {columns : List Nat} (h : Fits columns cells) (sign : Char) :
    row sign columns cells = [rowLine sign columns (cells.map Styled.text)] := by
  have hheight : ((List.zipWith parts columns cells).map List.length).foldl max 1 = 1 := by
    clear sign
    induction h with
    | nil => rfl
    | cons hfirst _ ih =>
      rw [List.zipWith_cons_cons, List.map_cons, List.foldl_cons, max_eq_left (parts_of_fits hfirst.1 hfirst.2).1, ih]
  have hline : List.zipWith (fun n parts => parts.getD 0 (Text.blanks n)) columns (List.zipWith parts columns cells) =
      List.zipWith part columns (cells.map Styled.text) := by
    clear hheight sign
    induction h with
    | nil => rfl
    | cons hfirst _ ih =>
      rw [List.zipWith_cons_cons, List.zipWith_cons_cons, List.map_cons, List.zipWith_cons_cons, ih,
        (parts_of_fits hfirst.1 hfirst.2).2]
  unfold row
  simp only [hheight, List.range_one, List.map_singleton, hline]
  rfl

/-- **The lines of a table with rows that fit**: one line for each row. -/
theorem lines_of_fits (h : ∀ cells ∈ t.rows, Fits (t.columns limit) cells) :
    t.lines limit = (t.titleLines limit).map Styled.text ++ [above.line (t.columns limit)] ++
      row '┃' (t.columns limit) t.header ++ [under.line (t.columns limit)] ++
      t.rows.map (fun cells => rowLine '│' (t.columns limit) (cells.map Styled.text)) ++
      [below.line (t.columns limit)] := by
  have hrows : t.rows.flatMap (row '│' (t.columns limit)) =
      t.rows.map fun cells => rowLine '│' (t.columns limit) (cells.map Styled.text) := by
    rw [List.flatMap_congr fun cells hcells => row_of_fits (h cells hcells) '│', ← List.map_eq_flatMap]
  simp only [lines, hrows]

/-! ## The width of lines -/

/-- the signs of a line all belong to a box -/
def Rule.Drawn (r : Rule) : Prop :=
  (Text.IsBox r.left ∧ Text.IsBox r.cross ∧ Text.IsBox r.right) ∧ Text.IsBox r.fill

instance (r : Rule) : Decidable r.Drawn := inferInstanceAs (Decidable (_ ∧ _))

theorem textWidth_framed {left cross right : Char}
    (hsigns : Text.IsBox left ∧ Text.IsBox cross ∧ Text.IsBox right) {parts : List (List Char)} (hne : parts ≠ []) :
    textWidth (framed left cross right parts) = (parts.map textWidth).sum + parts.length + 1 := by
  have hleft := Text.width_of_box hsigns.1
  have hcross := Text.width_of_box hsigns.2.1
  have hright := Text.width_of_box hsigns.2.2
  have hrest : ∀ parts : List (List Char),
      textWidth (parts.flatMap (cross :: ·)) = (parts.map textWidth).sum + parts.length := by
    intro parts
    induction parts with
    | nil => rfl
    | cons part parts ih =>
      rw [List.flatMap_cons, Text.textWidth_append, Text.textWidth_cons, ih, List.map_cons, List.sum_cons,
        List.length_cons]
      omega
  obtain ⟨part, parts, rfl⟩ := List.exists_cons_of_ne_nil hne
  simp only [framed, Text.textWidth_cons, Text.textWidth_append, Text.textWidth_nil, hrest, hleft, hright,
    List.map_cons, List.sum_cons, List.length_cons]
  omega

theorem width_eq (limit : Nat) (t : Table) : t.width limit = (t.columns limit).sum + (t.columns limit).length + 1 := by
  have hfold : ∀ (ws : List Nat) (cells : Nat),
      ws.foldl (fun cells n => cells + n + 1) cells = ws.sum + ws.length + cells := by
    intro ws
    induction ws with
    | nil => simp
    | cons w ws ih =>
      intro cells
      rw [List.foldl_cons, ih, List.sum_cons, List.length_cons]
      omega
  exact hfold _ 1

/-- **A table fits its place**, if the borders alone do. -/
theorem width_le (hregular : t.Regular) (hborders : t.header.length + 1 ≤ limit) : t.width limit ≤ limit := by
  have hsum := sum_columns_le limit hregular
  rw [room] at hsum
  rw [width_eq, length_columns limit hregular]
  omega

theorem textWidth_parts {n : Nat} : ∀ line ∈ parts n cell, textWidth line = n := by
  intro line hline
  obtain ⟨short, hshort, rfl⟩ := List.mem_map.1 hline
  unfold cellLines at hshort
  split_ifs at hshort with hempty
  · cases hshort
  · obtain ⟨broken, -, rfl⟩ := List.mem_map.1 hshort
    have hfits : textWidth (broken.shortened .ellipsis (n - 2)).text ≤ n - 2 := by
      rw [Styled.shortened, Styled.text_become]
      exact Text.textWidth_shorten (by omega) _
    rw [part, Text.textWidth_cons, Text.textWidth_append, Text.textWidth_padded hfits, Text.textWidth_cons,
      Text.textWidth_nil, Text.width_of_blank]
    omega

theorem textWidth_row {sign : Char} (hsign : Text.IsBox sign) {columns : List Nat}
    (hlength : cells.length = columns.length) (hne : columns ≠ []) :
    ∀ line ∈ row sign columns cells, textWidth line = columns.sum + columns.length + 1 := by
  intro line hline
  obtain ⟨i, -, rfl⟩ := List.mem_map.1 hline
  have hwidths : (List.zipWith (fun n parts => parts.getD i (Text.blanks n)) columns
      (List.zipWith parts columns cells)).map textWidth = columns := by
    clear hne hline
    induction columns generalizing cells with
    | nil => rfl
    | cons n columns ih =>
      obtain ⟨cell, cells, rfl⟩ := List.exists_cons_of_length_eq_add_one hlength
      simp only [List.length_cons, Nat.add_right_cancel_iff] at hlength
      rw [List.zipWith_cons_cons, List.zipWith_cons_cons, List.map_cons, ih hlength]
      refine congrArg (· :: columns) ?_
      rw [List.getD_eq_getElem?_getD]
      cases hpart : (parts n cell)[i]? with
      | none => exact Text.textWidth_blanks n
      | some line => exact textWidth_parts line (List.mem_of_getElem? hpart)
  have hcount := congrArg List.length hwidths
  rw [List.length_map] at hcount
  rw [textWidth_framed ⟨hsign, hsign, hsign⟩, hwidths, hcount]
  exact fun hnil => hne (by rw [← hwidths, hnil]; rfl)

theorem textWidth_rule {r : Rule} (h : r.Drawn) {columns : List Nat} (hne : columns ≠ []) :
    textWidth (r.line columns) = columns.sum + columns.length + 1 := by
  have hfilled : ∀ n, textWidth (List.replicate n r.fill) = n := by
    intro n
    induction n with
    | zero => rfl
    | succ n ih => rw [List.replicate_succ, Text.textWidth_cons, ih, Text.width_of_box h.2, Nat.add_comm]
  have hwidths : (columns.map fun n => List.replicate n r.fill).map textWidth = columns := by
    rw [List.map_map]
    simp [Function.comp_def, hfilled]
  rw [Rule.line, textWidth_framed h.1 (by simpa using hne), hwidths, List.length_map]

theorem textWidth_centred {n : Nat} (hpos : 0 < n) (line : Styled) : textWidth (line.centred n).text = n := by
  have hfits : textWidth ((line.become (Text.trimEnd line.text)).shortened .fold n).text ≤ n := by
    rw [Styled.shortened, Styled.text_become]
    exact Text.textWidth_shorten hpos _
  unfold Styled.centred
  simp only
  refine Text.textWidth_padded ?_
  rw [Text.textWidth_append, Text.textWidth_blanks]
  omega

/-- **All lines have the width of the table.** -/
theorem textWidth_lines (hregular : t.Regular) (hcolumns : t.header ≠ []) :
    ∀ line ∈ t.lines limit, textWidth line = t.width limit := by
  have hne : t.columns limit ≠ [] := by
    rw [ne_eq, ← List.length_eq_zero_iff, length_columns limit hregular, List.length_eq_zero_iff]
    exact hcolumns
  rw [width_eq]
  intro line hline
  simp only [lines, List.mem_append, List.mem_singleton, List.mem_flatMap, List.mem_map] at hline
  obtain ((((⟨title, htitle, rfl⟩ | rfl) | hheader) | rfl) | ⟨cells, hcells, hrow⟩) | rfl := hline
  · obtain ⟨part, -, rfl⟩ := List.mem_map.1 htitle
    have hpos : 0 < t.width limit := by
      rw [width_eq]
      omega
    rw [textWidth_centred hpos, width_eq]
  · exact textWidth_rule (show above.Drawn by decide) hne
  · exact textWidth_row (show Text.IsBox '┃' by decide) (length_columns limit hregular).symm hne line hheader
  · exact textWidth_rule (show under.Drawn by decide) hne
  · have hlength := (hregular cells hcells).trans (length_columns limit hregular).symm
    exact textWidth_row (show Text.IsBox '│' by decide) hlength hne line hrow
  · exact textWidth_rule (show below.Drawn by decide) hne

/-- **Without styles that cannot be read in its texts**, a table has none. -/
theorem isSound_of_cells (htitle : t.title.isSound)
    (hcells : ∀ cells ∈ t.header :: t.rows, ∀ cell ∈ cells, cell.isSound) : t.isSound limit := by
  unfold isSound
  rw [Bool.and_eq_true, List.all_eq_true, List.all_eq_true]
  refine ⟨fun line hline => ?_, fun cells hmem => List.all_eq_true.2 fun line hline => ?_⟩
  · obtain ⟨part, hpart, rfl⟩ := List.mem_map.1 hline
    exact Styled.sound_centred (Styled.sound_broken htitle part hpart) _
  · obtain ⟨lines, hlines, hline⟩ := List.mem_flatten.1 hline
    obtain ⟨i, hi⟩ := List.getElem?_of_mem hlines
    obtain ⟨n, cell, -, hcell, rfl⟩ := List.getElem?_zipWith_eq_some.1 hi
    unfold cellLines at hline
    split_ifs at hline
    · cases hline
    · exact Styled.sound_linesIn (hcells cells hmem cell (List.mem_of_getElem? hcell)) line hline

end Table

end CodecCompiler
