import Martink.Tty.Vt100Returns

/-!
# Vertical moves

`_vt100_move(0, dy)` aims at row `cursor_y + dy` in 16 bits. A row of the region is reached
(`moveRow_inside`). For any other the lines are scrolled, and the helper that clears them leaves the
cursor in column 0 of the region's start, or of a row below the region: hardly ever in the row of
the region that is closest to the target (`rowMove_eq`). `RowsFit` is when the move comes out right.

`RowsAstray` are the moves for which it depends on what clearing the lines does to the scroll value:
all of them scroll the wrong way, or by the wrong number of lines.
-/

namespace Martink

namespace Vt100

/-- The row of the region that is closest to row `y`. -/
def clampRow (t : Vt100) (y : ℤ) : ℤ :=
  max t.scrollStartRow.toNat (min y (t.scrollEndRow.toNat - 1))

/-- The vertical move by `dy` ends in the same column and in the row of the region that is closest
to its target, and scrolls by the rows in between. -/
def MovesRows (t : Vt100) (dy : ℤ) : Prop :=
  let target := t.cursorY.toNat + dy
  ∃ fuel t', move (putc fuel) 0 dy t = .done t' ∧ t'.cursorX = t.cursorX ∧
    t'.cursorY.toNat = t.clampRow target ∧
    (t.scrollEndRow.toNat - t.scrollStartRow.toNat : ℤ) ∣
      t'.scrollValue.toNat - t.scrollValue.toNat - (target - t.clampRow target)

/-- The conversions to `int16_t` keep the column: the width fits, or column and width stay clear of
each other. -/
def KeepsColumn (t : Vt100) : Prop :=
  t.screenWidth.toNat < 2 ^ 15 ∨ t.cursorX.toNat < 2 ^ 15 ∧
    (t.cursorWrap = true → t.cursorX.toNat + t.screenWidth.toNat < 2 ^ 16)

/-- The target is a row of the region; or it is below a region of one row, from column 0, and
clearing the row does not wrap the line (without line wrap, or as the last line to clear
overflows). -/
def RowsFit (t : Vt100) (dy : ℤ) : Prop :=
  let target := t.cursorY.toNat + dy
  t.KeepsColumn ∧
    (t.scrollStartRow.toNat ≤ target ∧ target < t.scrollEndRow.toNat ∨
      t.cursorX = 0 ∧ t.scrollEndRow.toNat = t.scrollStartRow.toNat + 1 ∧
        t.scrollEndRow.toNat ≤ target ∧
        (t.screenWidth.toNat < 2 ^ 15 ∧ t.cursorWrap = false ∨ 65536 < target))

/-- The moves from column 0 after which the cursor is right although the lines were not: a region of
one row on a screen of a negative width; a target so far above row 0 that it counts as below the
region, where the lines cleared reach its end, or the width is negative; the row above a region of
`2 ^ 15` rows. -/
def RowsAstray (t : Vt100) (dy : ℤ) : Prop :=
  let target := t.cursorY.toNat + dy
  t.cursorX = 0 ∧
    (2 ^ 15 ≤ t.screenWidth.toNat ∧ t.scrollEndRow.toNat = t.scrollStartRow.toNat + 1 ∧
        t.scrollEndRow.toNat ≤ target ∧ target ≤ 65536 ∨
      target < 0 ∧ t.scrollEndRow.toNat ≤ target + 65536 ∧
        target + 65537 < t.scrollEndRow.toNat + 2 ^ 15 ∧
        (t.screenWidth.toNat < 2 ^ 15 → t.cursorWrap = true ∧
          t.scrollEndRow.toNat - t.scrollStartRow.toNat ≤ target + 65537 - t.scrollEndRow.toNat) ∨
      t.scrollStartRow.toNat = 0 ∧ t.scrollEndRow.toNat = 2 ^ 15 ∧ target = -1)

instance (t : Vt100) : Decidable t.KeepsColumn := inferInstanceAs (Decidable (_ ∨ _))

instance (t : Vt100) (dy : ℤ) : Decidable (RowsFit t dy) := inferInstanceAs (Decidable (_ ∧ _))

instance (t : Vt100) (dy : ℤ) : Decidable (RowsAstray t dy) := inferInstanceAs (Decidable (_ ∧ _))

/-- The bytes that move by rows, and what they do after the move. -/
inductive RowByte (t : Vt100) : BitVec 8 → ℤ → (Vt100 → Vt100) → Prop
  | newLine : t.state = .idle → RowByte t 0x0a 1 fun u ↦ { u with cursorX := 0 }
  | down : t.state = .escape → RowByte t (ascii 'D') 1 fun u ↦ { u with state := .idle }
  | nextLine : t.state = .escape →
      RowByte t (ascii 'E') 1 fun u ↦ { u with cursorX := 0, state := .idle }
  | up : t.state = .escape → RowByte t (ascii 'M') (-1) fun u ↦ { u with state := .idle }

/-! ## The column -/

section Columns

variable {w x : BitVec 16} {wrap : Bool} {rows : ℤ}

theorem column_keeps (hx : x.toNat < w.toNat) (hrows : -2 ^ 15 ≤ rows ∧ rows < 2 ^ 15)
    (h : w.toNat < 2 ^ 15 ∨ x.toNat < 2 ^ 15 ∧ (wrap = true → x.toNat + w.toNat < 2 ^ 16)) :
    column w wrap x 0 rows = some (x, rows) := by
  rcases Nat.lt_or_ge w.toNat (2 ^ 15) with hw | hw
  · exact column_stay hw hx rows
  obtain ⟨hx', hwrap⟩ := h.resolve_left (by omega)
  have hs : s16 (0 + x.toNat) = x.toNat := by rw [zero_add, s16_of_range (by omega) (by omega)]
  cases wrap with
  | true =>
    have hsum := hwrap rfl
    rw [column_wide_right hw rfl hs, Nat.mod_eq_of_lt (by omega), Nat.div_eq_of_lt (by omega),
      Nat.cast_zero, sub_zero, u16_toNat, s16_of_range (by omega) (by omega)]
  | false =>
    rw [column, hs, s16_width hw rfl, if_pos (by omega), u16_toNat]
    rfl

/-- Otherwise the cursor leaves its column, which is not the first one. -/
theorem column_loses (rows : ℤ) (hx : x.toNat < w.toNat)
    (h : ¬(w.toNat < 2 ^ 15 ∨ x.toNat < 2 ^ 15 ∧ (wrap = true → x.toNat + w.toNat < 2 ^ 16))) :
    ∃ x' rows', column w wrap x 0 rows = some (x', rows') ∧ x' ≠ x ∧ x ≠ 0 := by
  rw [not_or, not_lt] at h
  obtain ⟨hw, hlost⟩ := h
  have hwlt := w.isLt
  have hne : x.toNat ≠ 0 → x ≠ 0 := fun hne hzero ↦ hne (by rw [hzero]; rfl)
  generalize hm : 65536 - w.toNat = m
  rcases Nat.lt_or_ge x.toNat (2 ^ 15) with hlow | hhigh
  · -- the column is cut by the width
    have hs : s16 (0 + x.toNat) = x.toNat := by rw [zero_add, s16_of_range (by omega) (by omega)]
    obtain ⟨rfl, hsum⟩ : wrap = true ∧ 2 ^ 16 ≤ x.toNat + w.toNat := by
      by_contra hcon
      exact hlost ⟨hlow, fun hon ↦ by_contra fun hlt ↦ hcon ⟨hon, not_lt.mp hlt⟩⟩
    have hrem := Nat.mod_lt x.toNat (show m > 0 by omega)
    refine ⟨_, _, column_wide_right hw hm hs, fun heq ↦ ?_, hne (by omega)⟩
    have hval := congrArg BitVec.toNat heq
    rw [toNat_u16_natCast] at hval
    omega
  · -- the column is negative
    have hs : s16 (0 + x.toNat) = -((65536 - x.toNat : ℕ) : ℤ) := by rw [s16]; omega
    generalize hk : 65536 - x.toNat = k at hs
    have hsplit := Nat.div_add_mod k m
    have hquot : 1 ≤ k / m := Nat.div_pos (by omega) (by omega)
    have hmul : m * 1 ≤ m * (k / m) := Nat.mul_le_mul_left m hquot
    refine ⟨_, _, column_wide_far hw hm hs (by omega), fun heq ↦ ?_, hne (by omega)⟩
    have hval := toNat_u16 (-(m : ℤ) - ↑(k % m) + 1)
    rw [heq] at hval
    omega

end Columns

/-! ## The row -/

section Rows

variable {start stop x r : BitVec 16} {y : ℕ} {dy : ℤ}

theorem rowMove_fst (start stop x y : BitVec 16) :
    (rowMove start stop x y).1 = 0 ∨ (rowMove start stop x y).1 = x := by
  rw [rowMove]
  split_ifs
  · exact Or.inl rfl
  · exact Or.inl rfl
  · exact Or.inr rfl

/-- **A move out of the region** hardly ever ends in the closest row of the region. -/
theorem rowMove_eq (hy : start.toNat ≤ y ∧ y < stop.toNat) (hdy : -2 ^ 15 ≤ dy ∧ dy < 2 ^ 15)
    (hout : ¬(start.toNat ≤ y + dy ∧ y + dy < stop.toNat))
    (hmove : rowMove start stop x (u16 (y + dy)) = (x, r))
    (hr : (r.toNat : ℤ) = max (start.toNat : ℤ) (min (y + dy) (stop.toNat - 1))) :
    x = 0 ∧ (stop.toNat = start.toNat + 1 ∧ stop.toNat ≤ y + dy ∨
      y + dy < 0 ∧ stop.toNat ≤ y + dy + 65536 ∧ y + dy + 65537 < stop.toNat + 2 ^ 15 ∨
      start.toNat = 0 ∧ stop.toNat = 2 ^ 15 ∧ y + dy = -1) := by
  have hedge : y + dy < start.toNat ∧ r.toNat = start.toNat ∨
      stop.toNat ≤ y + dy ∧ r.toNat + 1 = stop.toNat := by omega
  clear hr hout
  have hnew := toNat_u16 (y + dy)
  have hstop := stop.isLt
  generalize u16 (y + dy) = newY at hmove hnew
  have hlines := lines_eq_ite start stop newY
  rw [rowMove] at hmove
  rw [s16, s16] at hlines
  generalize lines start stop newY = n at hmove hlines
  split_ifs at hmove with hup hdown
  · -- up: the cursor is at the start of the region
    obtain ⟨hx, hrow⟩ := Prod.mk.inj hmove
    subst hrow
    refine ⟨hx.symm, ?_⟩
    split_ifs at hlines <;> omega
  · -- down: it is below the region, or behind row 65535
    obtain ⟨hx, hrow⟩ := Prod.mk.inj hmove
    have hsum := toNat_u16 (stop.toNat - n)
    rw [hrow] at hsum
    refine ⟨hx.symm, ?_⟩
    split_ifs at hlines <;> omega
  · -- no scroll: the target is a row of the region in 16 bits only
    obtain ⟨-, hrow⟩ := Prod.mk.inj hmove
    obtain rfl : n = 0 := by omega
    split_ifs at hlines with hbelow habove
    · omega
    · omega
    · rw [parkRow_inside (by omega) (by omega)] at hrow
      rw [hrow] at hnew
      omega

/-- Below a region of one row the lines are those of the move. -/
theorem lines_one_row (hone : stop.toNat = start.toNat + 1) (hdy : 0 < dy ∧ dy < 2 ^ 15) :
    lines start stop (u16 (start.toNat + dy)) = dy := by
  have hnew := toNat_u16 (start.toNat + dy)
  have hstop := stop.isLt
  rcases Nat.lt_or_ge (u16 (start.toNat + dy)).toNat stop.toNat with habove | hbelow
  · -- the target has overflowed
    rw [lines_above habove (by omega), s16]
    omega
  · rw [lines_below hbelow, s16]
    omega

end Rows

/-! ## The scroll value -/

section Value

variable {f : ℕ} {n : ℤ} {t : Vt100}

/-- Scrolling up over lines that are left without a further scroll: all of them without line wrap,
else those above the last row of the region. -/
theorem scroll_value_of_rows (hw : t.screenWidth.toNat < 2 ^ 15)
    (hregion : t.scrollStartRow.toNat < t.scrollEndRow.toNat) (hn : 0 < n)
    (hsum : t.scrollStartRow.toNat + n ≤ 65536)
    (hrows : t.cursorWrap = true → t.scrollStartRow.toNat + n < t.scrollEndRow.toNat) :
    (scroll (putc f) n t).Sat (fun t' ↦ (t'.scrollValue.toNat : ℤ)
      = (t.scrollValue.toNat + n) % (t.scrollEndRow.toNat - t.scrollStartRow.toNat))
      fun _ _ ↦ True := by
  have hlast := toNat_u16_of_lt (z := t.scrollStartRow.toNat + n - 1) (by omega) (by omega)
  have hheight := toNat_u16_of_lt (z := t.scrollEndRow.toNat - t.scrollStartRow.toNat) (by omega)
    (by omega)
  have hclear : (clearLines (putc f) t.scrollStartRow (u16 (t.scrollStartRow.toNat + n - 1)) t).Sat
      (fun u ↦ u.scrollValue = t.scrollValue) fun _ _ ↦ True := by
    refine (clearLines_sat (P := fun u ↦ Frame t u ∧ u.scrollValue = t.scrollValue)
      (w := t.screenWidth) (X := fun _ _ ↦ True) (fun c hlo hhi ↦ ?_) (fun u hu ↦ hu.1.screenWidth)
      (fun u x y hu ↦ ⟨hu.1.trans (Frame.cursor u x y), hu.2⟩)
      ⟨Frame.refl t, rfl⟩).mono (fun u hu ↦ hu.1.2) fun _ _ hX ↦ hX
    rcases f with _ | f
    · exact fun u _ _ _ ↦ Outcome.sat_stuck trivial
    refine printsCell_of_moveRow hw.le (fun u hu ↦ hu.1.screenWidth)
      (fun u x y hu ↦ ⟨hu.1.trans (Frame.cursor u x y), hu.2⟩)
      (fun u hu _ _ ↦ ⟨hu.1.trans (Frame.draw u _), hu.2⟩) fun u hu hy hwrap ↦ ?_
    have hlt := hrows (hu.1.cursorWrap.symm.trans hwrap)
    have hstart := hu.1.scrollStartRow
    have hstop := hu.1.scrollEndRow
    rw [moveRow_inside (by rw [hstart, hy]; omega) (by rw [hstop, hy]; omega)]
    exact Outcome.sat_done ⟨hu.1.trans (Frame.cursor u u.cursorX _), hu.2⟩
  rw [scroll, if_pos hn]
  refine hclear.andThen fun u hu ↦ ?_
  rw [setScrollValue]
  split_ifs
  · exact Outcome.sat_stuck trivial
  · have hrem := Int.emod_nonneg (t.scrollValue.toNat + n)
      (b := (t.scrollEndRow.toNat - t.scrollStartRow.toNat : ℤ)) (by omega)
    have hlt := Int.emod_lt_of_pos (t.scrollValue.toNat + n)
      (b := (t.scrollEndRow.toNat - t.scrollStartRow.toNat : ℤ)) (by omega)
    refine Outcome.sat_done ?_
    dsimp only
    rw [hu, hheight, Int.tmod_eq_emod_of_nonneg (by omega)]
    exact toNat_u16_of_lt hrem (by omega)

end Value

/-! ## The move -/

section Move

variable {t : Vt100} {dy : ℤ}

/-- In a column that it keeps, the move is one of rows. -/
theorem move_rows (hx : t.cursorX.toNat < t.screenWidth.toNat) (hdy : -2 ^ 15 ≤ dy ∧ dy < 2 ^ 15)
    (hkeep : t.KeepsColumn) (fuel : ℕ) : move (putc fuel) 0 dy t = moveRow (putc fuel) dy t := by
  rw [move_of_column (column_keeps hx hdy hkeep)]

/-- To a row of the region. -/
theorem movesRows_inside (hx : t.cursorX.toNat < t.screenWidth.toNat)
    (hdy : -2 ^ 15 ≤ dy ∧ dy < 2 ^ 15) (hkeep : t.KeepsColumn)
    (hlo : t.scrollStartRow.toNat ≤ t.cursorY.toNat + dy)
    (hhi : t.cursorY.toNat + dy < t.scrollEndRow.toNat) : MovesRows t dy := by
  have hstop := t.scrollEndRow.isLt
  have hclamp : t.clampRow (t.cursorY.toNat + dy) = t.cursorY.toNat + dy := by
    rw [clampRow]
    omega
  have hrun := move_rows hx hdy hkeep 0
  rw [moveRow_inside hlo hhi] at hrun
  refine ⟨0, _, hrun, rfl, ?_, ?_⟩
  · rw [hclamp]
    exact toNat_u16_of_lt (by omega) (by omega)
  · rw [hclamp, sub_self, sub_self, sub_self]
    exact dvd_zero _

/-- Below a region of one row, from column 0: the cursor is put back where it was, and every scroll
value is the same modulo the height. -/
theorem movesRows_one_row (hrow : t.cursorY = t.scrollStartRow) (hcolumn : t.cursorX = 0)
    (hx : t.cursorX.toNat < t.screenWidth.toNat) (hdy : 0 < dy ∧ dy < 2 ^ 15)
    (hkeep : t.KeepsColumn) (hone : t.scrollEndRow.toNat = t.scrollStartRow.toNat + 1)
    (hclear : t.screenWidth.toNat < 2 ^ 15 ∧ t.cursorWrap = false ∨
      65536 < t.scrollStartRow.toNat + dy) : MovesRows t dy := by
  have hlines : lines t.scrollStartRow t.scrollEndRow (u16 (t.cursorY.toNat + dy)) = dy := by
    rw [hrow]
    exact lines_one_row hone hdy
  have hreturns : ScrollReturns t.screenWidth t.cursorWrap t.scrollStartRow t.scrollEndRow dy := by
    rcases hclear with ⟨hw, hoff⟩ | hover
    · exact Or.inr ⟨hw, fun hon ↦ by rw [hoff] at hon; cases hon⟩
    · exact Or.inl ⟨Or.inl hdy.1.le, Or.inr hover⟩
  have hdone : Done t (moveRow (putc 32768) dy t) := by
    rw [moveRow_eq (by omega), hlines]
    exact scroll_done (Frame.cursor t t.cursorX _) (fun heq ↦ by rw [heq] at hone; omega)
      (by omega) (by omega) le_rfl hreturns
  obtain ⟨t', hrun, -⟩ := Outcome.Sat.exists_done hdone
  have hcursor := (moveRow_cursor (by omega) t).of_done hrun
  rw [rowMove, hlines, if_pos hdy.1] at hcursor
  refine ⟨32768, t', (move_rows hx (by omega) hkeep _).trans hrun, ?_, ?_, ?_⟩
  · rw [cursorX_of_cursor hcursor, hcolumn]
  · have hstart : t'.cursorY = t.scrollStartRow := cursorY_of_cursor hcursor
    rw [hstart, clampRow, hrow]
    omega
  · have hheight : (t.scrollEndRow.toNat - t.scrollStartRow.toNat : ℤ) = 1 := by omega
    rw [hheight]
    exact one_dvd _

/-- The moves that come out right. -/
theorem movesRows_of_fit
    (hy : t.scrollStartRow.toNat ≤ t.cursorY.toNat ∧ t.cursorY.toNat < t.scrollEndRow.toNat)
    (hx : t.cursorX.toNat < t.screenWidth.toNat) (hdy : -2 ^ 15 ≤ dy ∧ dy < 2 ^ 15)
    (hfit : RowsFit t dy) : MovesRows t dy := by
  obtain ⟨hkeep, ⟨hlo, hhi⟩ | ⟨hcolumn, hone, hbelow, hclear⟩⟩ := hfit
  · exact movesRows_inside hx hdy hkeep hlo hhi
  · have hrow : t.cursorY = t.scrollStartRow := BitVec.eq_of_toNat_eq (by omega)
    rw [hrow] at hbelow hclear
    exact movesRows_one_row hrow hcolumn hx (by omega) hkeep hone hclear

/-- A move that leaves its column does not come out right. -/
theorem keepsColumn_of_movesRows (hx : t.cursorX.toNat < t.screenWidth.toNat)
    (hmoves : MovesRows t dy) : t.KeepsColumn := by
  by_contra hlost
  obtain ⟨fuel, t', hrun, hcolumn, -⟩ := hmoves
  obtain ⟨x', rows, hcol, hne, hzero⟩ := column_loses dy hx hlost
  rw [move_of_column hcol] at hrun
  rcases eq_or_ne rows 0 with rfl | hrows
  · rw [moveRow_zero] at hrun
    cases hrun
    exact hne hcolumn
  · have hcursor := (moveRow_cursor hrows { t with cursorX := x' }).of_done hrun
    rw [cursorX_of_cursor hcursor] at hcolumn
    rcases rowMove_fst t.scrollStartRow t.scrollEndRow x' (u16 (t.cursorY.toNat + rows)) with h | h
    · exact hzero (hcolumn.symm.trans h)
    · exact hne (h.symm.trans hcolumn)

/-- With line wrap a move below a region of one row never ends. -/
theorem moveRow_one_row (hw : t.screenWidth.toNat < 2 ^ 15) (hpos : 1 ≤ t.screenWidth.toNat)
    (hwrap : t.cursorWrap = true) (hone : t.scrollEndRow.toNat = t.scrollStartRow.toNat + 1)
    (hrow : t.cursorY = t.scrollStartRow) (hdy : 0 < dy ∧ dy < 2 ^ 15)
    (hsum : t.scrollStartRow.toNat + dy ≤ 65536) (fuel : ℕ) :
    (moveRow (putc fuel) dy t).Sat (fun _ ↦ False) fun _ _ ↦ True := by
  have hstop := t.scrollEndRow.isLt
  rw [moveRow_eq (by omega), hrow, lines_one_row hone hdy]
  exact scroll_one_row hpos hw (by omega) hdy.1 hsum ⟨rfl, hwrap, rfl, hone⟩

/-- A target above row 0 that counts as below the region is scrolled to by the wrong number of
lines: the two numbers differ by 65537 less the height, and 65537 is prime. -/
theorem moveRow_value_of_neg {fuel : ℕ} {t' : Vt100} (hw : t.screenWidth.toNat < 2 ^ 15)
    (hy : t.scrollStartRow.toNat ≤ t.cursorY.toNat ∧ t.cursorY.toNat < t.scrollEndRow.toNat)
    (hdy : -2 ^ 15 ≤ dy) (hneg : t.cursorY.toNat + dy < 0)
    (hbelow : t.scrollEndRow.toNat ≤ t.cursorY.toNat + dy + 65536)
    (hcount : t.cursorY.toNat + dy + 65537 < t.scrollEndRow.toNat + 2 ^ 15)
    (hrows : t.cursorWrap = true → t.cursorY.toNat + dy + 65537 - t.scrollEndRow.toNat
      < (t.scrollEndRow.toNat - t.scrollStartRow.toNat : ℤ))
    (hrun : moveRow (putc fuel) dy t = .done t') :
    ¬(t.scrollEndRow.toNat - t.scrollStartRow.toNat : ℤ) ∣
      t'.scrollValue.toNat - t.scrollValue.toNat
        - (t.cursorY.toNat + dy - t.scrollStartRow.toNat) := by
  have hnew := toNat_u16 (t.cursorY.toNat + dy)
  have hstop := t.scrollEndRow.isLt
  have hlines : lines t.scrollStartRow t.scrollEndRow (u16 (t.cursorY.toNat + dy))
      = t.cursorY.toNat + dy + 65537 - t.scrollEndRow.toNat := by
    rw [lines_below (by omega), s16]
    omega
  have hscroll : (moveRow (putc fuel) dy t).Sat (fun u ↦ (u.scrollValue.toNat : ℤ)
      = (t.scrollValue.toNat + (t.cursorY.toNat + dy + 65537 - t.scrollEndRow.toNat))
        % (t.scrollEndRow.toNat - t.scrollStartRow.toNat)) fun _ _ ↦ True := by
    refine moveRow_sat (by omega) (Frame.refl t) fun y ↦ ?_
    rw [hlines]
    exact scroll_value_of_rows (t := { t with cursorY := y }) hw (by dsimp only; omega) (by omega)
      (by dsimp only; omega) fun hwrap ↦ by have := hrows hwrap; dsimp only; omega
  have hvalue := hscroll.of_done hrun
  intro hdvd
  obtain ⟨height, hheight⟩ : ∃ height : ℕ,
      (height : ℤ) = t.scrollEndRow.toNat - t.scrollStartRow.toNat :=
    ⟨t.scrollEndRow.toNat - t.scrollStartRow.toNat, by omega⟩
  rw [← hheight] at hvalue hdvd hrows
  have hdvd' : (height : ℤ) ∣ (65537 : ℕ) := by
    have hsum := dvd_add (dvd_add (Int.dvd_self_sub_of_emod_eq hvalue.symm) hdvd)
      (dvd_refl (height : ℤ))
    have heq : (t.scrollValue.toNat + (t.cursorY.toNat + dy + 65537 - t.scrollEndRow.toNat)
        - t'.scrollValue.toNat) + (t'.scrollValue.toNat - t.scrollValue.toNat
          - (t.cursorY.toNat + dy - t.scrollStartRow.toNat)) + (height : ℤ) = (65537 : ℕ) := by
      rw [hheight]
      push_cast
      ring
    rwa [heq] at hsum
  have hprime : Nat.Prime 65537 := by norm_num
  rcases (Nat.dvd_prime hprime).mp (Int.natCast_dvd_natCast.mp hdvd') with hone | hbig
  · omega
  · omega

/-- A move that scrolls does not come out right, unless it goes astray. -/
theorem fit_of_movesRows
    (hy : t.scrollStartRow.toNat ≤ t.cursorY.toNat ∧ t.cursorY.toNat < t.scrollEndRow.toNat)
    (hx : t.cursorX.toNat < t.screenWidth.toNat) (hdy : -2 ^ 15 ≤ dy ∧ dy < 2 ^ 15)
    (hmoves : MovesRows t dy) : RowsFit t dy ∨ RowsAstray t dy := by
  have hkeep := keepsColumn_of_movesRows hx hmoves
  by_cases hin : t.scrollStartRow.toNat ≤ t.cursorY.toNat + dy ∧
      t.cursorY.toNat + dy < t.scrollEndRow.toNat
  · exact Or.inl ⟨hkeep, Or.inl hin⟩
  obtain ⟨fuel, t', hrun, hcolumn, hrow, hvalue⟩ := hmoves
  rw [move_rows hx hdy hkeep] at hrun
  have hne : dy ≠ 0 := by omega
  have hcursor := (moveRow_cursor hne t).of_done hrun
  have hmove : rowMove t.scrollStartRow t.scrollEndRow t.cursorX (u16 (t.cursorY.toNat + dy))
      = (t.cursorX, t'.cursorY) := by
    rw [← hcursor, cursor, hcolumn]
  obtain ⟨hzero, hbelow | habove | hlast⟩ := rowMove_eq hy hdy hin hmove hrow
  · obtain ⟨hone, hle⟩ := hbelow
    rcases lt_or_ge 65536 (t.cursorY.toNat + dy) with hover | hsum
    · exact Or.inl ⟨hkeep, Or.inr ⟨hzero, hone, hle, Or.inr hover⟩⟩
    rcases Nat.lt_or_ge t.screenWidth.toNat (2 ^ 15) with hw | hw
    · by_cases hwrap : t.cursorWrap = true
      · have hstart : t.cursorY = t.scrollStartRow := BitVec.eq_of_toNat_eq (by omega)
        rw [hstart] at hle hsum
        exact ((moveRow_one_row hw (by omega) hwrap hone hstart (by omega) hsum fuel).of_done
          hrun).elim
      · have hoff := Bool.eq_false_of_not_eq_true hwrap
        exact Or.inl ⟨hkeep, Or.inr ⟨hzero, hone, hle, Or.inl ⟨hw, hoff⟩⟩⟩
    · exact Or.inr ⟨hzero, Or.inl ⟨hw, hone, hle, hsum⟩⟩
  · obtain ⟨hneg, hbelow, hcount⟩ := habove
    by_cases hastray : t.screenWidth.toNat < 2 ^ 15 → t.cursorWrap = true ∧
        (t.scrollEndRow.toNat - t.scrollStartRow.toNat : ℤ)
          ≤ t.cursorY.toNat + dy + 65537 - t.scrollEndRow.toNat
    · exact Or.inr ⟨hzero, Or.inr (Or.inl ⟨hneg, hbelow, hcount, hastray⟩)⟩
    · obtain ⟨hw, hrows⟩ := Classical.not_imp.mp hastray
      have hclamp : t.clampRow (t.cursorY.toNat + dy) = t.scrollStartRow.toNat := by
        rw [clampRow]
        omega
      rw [hclamp] at hvalue
      refine absurd hvalue (moveRow_value_of_neg hw hy hdy.1 hneg hbelow hcount
        (fun hwrap ↦ ?_) hrun)
      exact not_le.mp fun hle ↦ hrows ⟨hwrap, hle⟩
  · exact Or.inr ⟨hzero, Or.inr (Or.inr hlast)⟩

theorem vt100Putc_rowByte {c : BitVec 8} {after : Vt100 → Vt100} (h : RowByte t c dy after)
    (fuel : ℕ) :
    vt100Putc fuel t c = (move (putc fuel) 0 dy t).andThen fun u ↦ .done (after u) := by
  cases h with
  | newLine hstate | down hstate | nextLine hstate | up hstate =>
    rw [vt100Putc, hstate]
    rfl

/-- **Vertical moves.** A move by `dy` rows ends in the closest row of the region, in its column,
and scrolls by the rows in between, exactly when `RowsFit` says so, apart from the moves that go
astray. Line feeds and the escapes `D`, `E` and `M` are such moves. -/
theorem movesRows_iff
    (hy : t.scrollStartRow.toNat ≤ t.cursorY.toNat ∧ t.cursorY.toNat < t.scrollEndRow.toNat)
    (hx : t.cursorX.toNat < t.screenWidth.toNat) (hdy : -2 ^ 15 ≤ dy ∧ dy < 2 ^ 15) :
    (RowsFit t dy → MovesRows t dy) ∧ (¬RowsAstray t dy → (MovesRows t dy ↔ RowsFit t dy)) ∧
      ∀ c after, RowByte t c dy after → ∀ fuel,
        vt100Putc fuel t c = (move (putc fuel) 0 dy t).andThen fun u ↦ .done (after u) := by
  refine ⟨movesRows_of_fit hy hx hdy, fun hastray ↦ ⟨fun hmoves ↦ ?_, movesRows_of_fit hy hx hdy⟩,
    fun c after ↦ vt100Putc_rowByte⟩
  exact (fit_of_movesRows hy hx hdy hmoves).resolve_right hastray

/-- In the first of 24 rows. -/
theorem movesRows_iff_top :
    MovesRows (freshTerminal 80 24) 1 ∧ ¬MovesRows (freshTerminal 80 24) (-1) := by
  have htop : ∀ dy : ℤ, -2 ^ 15 ≤ dy ∧ dy < 2 ^ 15 → ¬RowsAstray (freshTerminal 80 24) dy →
      (MovesRows (freshTerminal 80 24) dy ↔ RowsFit (freshTerminal 80 24) dy) :=
    fun dy hdy hastray ↦ (movesRows_iff (by decide) (by decide) hdy).2.1 hastray
  exact ⟨(htop 1 (by decide) (by decide)).mpr (by decide),
    fun hmoves ↦ absurd ((htop (-1) (by decide) (by decide)).mp hmoves) (by decide)⟩

/-- A line feed in the last of 24 rows. -/
theorem not_movesRows_bottom :
    ¬MovesRows { freshTerminal 80 24 with cursorX := 5, cursorY := 23 } 1 := by
  intro hmoves
  rcases fit_of_movesRows (by decide) (by decide) (by decide) hmoves with hfit | hastray
  · exact absurd hfit (by decide)
  · exact absurd hastray (by decide)

/-- **In the last row.** The row below the region scrolls by one line, and the cursor ends in the
first row of the region. -/
theorem moveRow_bottom (hw : t.screenWidth.toNat < 2 ^ 15)
    (htwo : t.scrollStartRow.toNat + 2 ≤ t.scrollEndRow.toNat)
    (hy : t.cursorY.toNat + 1 = t.scrollEndRow.toNat) :
    ∃ t', moveRow (putc 32768) 1 t = .done t' ∧ t'.cursor = (0, t.scrollStartRow) ∧
      (t'.scrollValue.toNat : ℤ)
        = (t.scrollValue.toNat + 1) % (t.scrollEndRow.toNat - t.scrollStartRow.toNat) := by
  have hnew := toNat_u16 (t.cursorY.toNat + 1)
  have hstop := t.scrollEndRow.isLt
  have hlines : lines t.scrollStartRow t.scrollEndRow (u16 (t.cursorY.toNat + 1)) = 1 := by
    rw [lines_below (by omega), s16]
    omega
  have hdone : Done t (moveRow (putc 32768) 1 t) := by
    refine done_moveRow_one (Frame.refl t) fun u hu ↦ ?_
    rw [hlines]
    exact scroll_up_done hw htwo hu one_pos (by omega) (by norm_num) (by norm_num)
  have hscroll : (moveRow (putc 32768) 1 t).Sat (fun u ↦ (u.scrollValue.toNat : ℤ)
      = (t.scrollValue.toNat + 1) % (t.scrollEndRow.toNat - t.scrollStartRow.toNat))
      fun _ _ ↦ True := by
    refine moveRow_sat one_ne_zero (Frame.refl t) fun y ↦ ?_
    rw [hlines]
    exact scroll_value_of_rows (t := { t with cursorY := y }) hw (by dsimp only; omega) one_pos
      (by dsimp only; omega) fun _ ↦ by dsimp only; omega
  obtain ⟨t', hrun, -⟩ := Outcome.Sat.exists_done hdone
  have hcursor := (moveRow_cursor one_ne_zero t).of_done hrun
  rw [rowMove, hlines] at hcursor
  exact ⟨t', hrun, hcursor, hscroll.of_done hrun⟩

end Move

end Vt100

end Martink
