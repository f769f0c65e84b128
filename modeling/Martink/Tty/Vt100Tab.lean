import Martink.Tty.Vt100Blanks

/-!
# Tabs

A tab prints the blanks up to the next multiple of 4, however wide the screen is. Where the line
ends before that, the other blanks go to the next line, or behind the end of this one without line
wrap: on the display of 21 columns that happens in the last column. `Vt100.tabs_iff` says where a
tab is right.
-/

namespace Martink

namespace Vt100

/-- The next multiple of 4. -/
def tabStop (x : ℕ) : ℕ := (x / 4 + 1) * 4

/-- A tab returns, after blanks from the cursor up to the tab stop or the end of the line, with the
cursor at the tab stop, or at the start of the next line if the line has ended. -/
def Tabs (t : Vt100) : Prop :=
  let x := t.cursorX.toNat
  let w := t.screenWidth.toNat
  ∃ t', Returns t 0x09 t' ∧
    t'.display.calls
      = t.display.calls ++ t.blankCalls (rowCells x (min (tabStop x) w - x) t.cursorY) ∧
    t'.cursor = if tabStop x < w then (u16 (tabStop x), t.cursorY)
      else (0, u16 (t.cursorY.toNat + 1))

/-- From row `y` the cursor gets to the next one, and nothing is cleared: the next row is in the
region, or it is the last one that a `uint16_t` counts and the region ends at row 0, or scrolling
goes to it as the first row of the region and clears no line because the bound overflows. -/
def NextRow (start stop y : BitVec 16) : Prop :=
  start.toNat ≤ y.toNat + 1 ∧ y.toNat + 1 < stop.toNat ∨
    stop.toNat = 0 ∧ y.toNat + 1 = 65535 ∨
      start.toNat = y.toNat + 1 ∧ stop.toNat ≤ y.toNat ∧ y.toNat + 2 < stop.toNat + 2 ^ 15 ∧
        2 ^ 16 + stop.toNat ≤ 2 * (y.toNat + 1)

/-- Where a tab is right: the tab stop is on the line, or it is the end of the line, and with line
wrap the cursor gets to the next row. On screens of more than `2 ^ 15` columns the blanks must not
pass the column where moves to the right break off. -/
def TabFits (t : Vt100) : Prop :=
  let x := t.cursorX.toNat
  let w := t.screenWidth.toNat
  tabStop x < w ∧ tabStop x < lineLimit t.screenWidth t.cursorWrap ∨
    tabStop x = w ∧ t.cursorWrap = true ∧ NextRow t.scrollStartRow t.scrollEndRow t.cursorY ∧
      (w ≤ 2 ^ 15 ∨ x + 1 = w)

instance (start stop y : BitVec 16) : Decidable (NextRow start stop y) :=
  inferInstanceAs (Decidable (_ ∨ _))

instance (t : Vt100) : Decidable (TabFits t) := inferInstanceAs (Decidable (_ ∨ _))

/-! ## The next row -/

section NextRow

variable {start stop y : BitVec 16} {f : ℕ} {t u : Vt100}

/-- A move to the next row that ends there and clears nothing. -/
theorem nextRow_iff (hy : y.toNat + 1 < 65536) :
    (∀ r, ¬ScrollClears start stop (lines start stop (u16 (y.toNat + 1))) r) ∧
        rowMove start stop 0 (u16 (y.toNat + 1)) = (0, u16 (y.toNat + 1)) ↔
      NextRow start stop y := by
  have hnext := toNat_u16_of_lt (z := y.toNat + 1) (by omega) (by omega)
  generalize u16 (y.toNat + 1) = r at *
  have hlines := lines_eq_ite start stop r
  have hstart := start.isLt
  have hstop := stop.isLt
  have hpark := @parkRow_of_lines start stop r
  rw [rowMove]
  generalize lines start stop r = n at *
  rw [s16, s16] at hlines
  rcases lt_trichotomy n 0 with hneg | rfl | hpos
  · -- the row behind the region that the cursor goes to, cleared when its number overflows
    rw [if_neg (by omega), if_pos hneg]
    refine iff_of_false ?_ fun hfit ↦ ?_
    · rintro ⟨hempty, hrow⟩
      have hend := toNat_u16 (stop.toNat - n)
      have hbehind := toNat_u16 (stop.toNat - 1)
      have hfirst := hempty r
      rw [ScrollClears, (Prod.mk.inj hrow).2] at hfirst
      rw [(Prod.mk.inj hrow).2] at hend
      split_ifs at hlines <;> omega
    · rw [NextRow] at hfit
      split_ifs at hlines <;> omega
  · -- no scroll, and the cursor is put in the row that it moves to
    rw [if_neg (lt_irrefl 0), if_neg (lt_irrefl 0), hpark rfl]
    refine iff_of_true ⟨fun r' ↦ ?_, rfl⟩ ?_
    · rw [ScrollClears]
      omega
    · rw [NextRow]
      split_ifs at hlines <;> omega
  · -- a scroll that leaves the cursor in the first row of the region: it has to be the next row
    rw [if_pos hpos]
    have hend := toNat_u16 (start.toNat + n - 1)
    constructor
    · rintro ⟨hempty, hrow⟩
      have hfirst := hempty start
      rw [ScrollClears] at hfirst
      have hsame := congrArg BitVec.toNat (Prod.mk.inj hrow).2
      rw [NextRow]
      split_ifs at hlines <;> omega
    · intro hfit
      rw [NextRow] at hfit
      have hsame : start.toNat = r.toNat := by
        split_ifs at hlines <;> omega
      refine ⟨fun r' ↦ ?_, congrArg (Prod.mk 0) (BitVec.eq_of_toNat_eq hsame)⟩
      rw [ScrollClears]
      split_ifs at hlines <;> omega

/-- So it is when the cursor gets there. -/
theorem nextRow_of_moveRow (hw : 1 ≤ t.screenWidth.toNat) (hy : t.cursorY.toNat + 1 < 65536)
    (h : moveRow (putc f) 1 t = .done u) (hcalls : u.display.calls = t.display.calls)
    (hcursor : u.cursor = (0, u16 (t.cursorY.toNat + 1))) (hx : t.cursorX = 0) :
    NextRow t.scrollStartRow t.scrollEndRow t.cursorY := by
  have hend := (moveRow_cursor one_ne_zero t).of_done h
  rw [hx, hcursor] at hend
  exact (nextRow_iff hy).mp ⟨moveRow_silent one_ne_zero hw h hcalls, hend.symm⟩

theorem height_of_nextRow (hy : y.toNat + 1 < 65536) (h : NextRow start stop y)
    (hne : lines start stop (u16 (y.toNat + 1)) ≠ 0) : u16 (stop.toNat - start.toNat) ≠ 0 := by
  intro hheight
  have hnext := toNat_u16_of_lt (z := y.toNat + 1) (by omega) (by omega)
  have hlines := lines_eq_ite start stop (u16 (y.toNat + 1))
  have hmod := toNat_u16 (stop.toNat - start.toNat)
  have hnat : ((0 : BitVec 16).toNat : ℤ) = 0 := rfl
  rw [hheight] at hmod
  rw [NextRow] at h
  rw [s16, s16] at hlines
  split_ifs at hlines <;> omega

theorem moveRow_of_nextRow (putc : BitVec 8 → Vt100 → Vt100Run) (hy : t.cursorY.toNat + 1 < 65536)
    (hx : t.cursorX = 0) (h : NextRow t.scrollStartRow t.scrollEndRow t.cursorY) :
    ∃ u, moveRow putc 1 t = .done u ∧ u.display.calls = t.display.calls ∧
      u.cursor = (0, u16 (t.cursorY.toNat + 1)) := by
  obtain ⟨hsilent, hrow⟩ := (nextRow_iff hy).mpr h
  have hdone : ∃ u, moveRow putc 1 t = .done u ∧ u.display.calls = t.display.calls := by
    have hheight := height_of_nextRow hy h
    rw [moveRow_of_silent one_ne_zero hsilent]
    generalize lines t.scrollStartRow t.scrollEndRow (u16 (t.cursorY.toNat + 1)) = n at hheight ⊢
    rcases eq_or_ne n 0 with hzero | hne
    · rw [if_pos hzero]
      exact ⟨_, rfl, rfl⟩
    · rw [if_neg hne, setScrollValue, if_neg (hheight hne)]
      exact ⟨_, rfl, rfl⟩
  obtain ⟨u, hdone, hcalls⟩ := hdone
  refine ⟨u, hdone, hcalls, ?_⟩
  rw [(moveRow_cursor one_ne_zero t).of_done hdone, hx, hrow]

end NextRow

/-! ## The blanks -/

section Blanks

variable {f n : ℕ} {t u : Vt100}

/-- A blank that leaves the cursor in the next column of its row. -/
theorem lineLimit_of_putc (hx : t.cursorX.toNat + 1 < t.screenWidth.toNat)
    (h : putc f (ascii ' ') t = .done u) (hcursor : u.cursor = (t.cursorX + 1, t.cursorY)) :
    t.cursorX.toNat + 1 < lineLimit t.screenWidth t.cursorWrap := by
  obtain ⟨g, x, rows, -, hcolumn, hrow⟩ := move_of_putc h
  rcases eq_or_ne rows 0 with rfl | hrows
  · rw [moveRow_zero] at hrow
    cases hrow
    obtain rfl : x = t.cursorX + 1 := congrArg Prod.fst hcursor
    exact (column_next_iff hx).mp hcolumn
  · -- a scroll would leave the cursor in column 0
    have hend : u.cursor = rowMove t.scrollStartRow t.scrollEndRow x
        (u16 (t.cursorY.toNat + rows)) :=
      (moveRow_cursor hrows { t.draw (ascii ' ') with cursorX := x }).of_done hrow
    rw [hcursor] at hend
    have hne : (rowMove t.scrollStartRow t.scrollEndRow x (u16 (t.cursorY.toNat + rows))).1
        ≠ 0 := by
      rw [← hend]
      intro hzero
      have hnext := toNat_succ hx
      rw [show t.cursorX + 1 = 0 from hzero] at hnext
      cases hnext
    have hrow' := congrArg BitVec.toNat ((congrArg Prod.snd hend).trans (rowMove_snd_of_ne hne))
    have hmod := toNat_u16 (t.cursorY.toNat + rows)
    have hrange := column_rows_range hcolumn
    have hlt := t.cursorY.isLt
    dsimp only at hrow'
    omega

/-- If the first of the blanks is followed by those that draw the next cells, it has drawn one
cell. -/
theorem first_of_blanks {x : ℕ} {y : BitVec 16} (h : blanks (putc f) (n + 2) t = .done u)
    (hcalls : u.display.calls = t.display.calls ++ t.blankCalls
      (t.cursor :: rowCells x (n + 1) y)) :
    ∃ v, putc f (ascii ' ') t = .done v ∧ blanks (putc f) (n + 1) v = .done u ∧
      v.display.calls = t.display.calls ++ t.blankCalls [t.cursor] ∧ v.cursor = (u16 x, y) := by
  rw [blanks_succ] at h
  rcases hputc : putc f (ascii ' ') t with v | ⟨e, v⟩
  swap
  · rw [hputc] at h
    cases h
  rw [hputc, Outcome.andThen_done] at h
  have hframe := (frame_putc f (ascii ' ') t).of_done hputc
  have hfirst := putc_grows hputc
  have hrest := blanks_length h
  rw [calls_draw_blank] at hfirst
  rw [hcalls, List.length_append, length_blankCalls, List.length_cons, length_rowCells] at hrest
  -- each of the other blanks draws a cell, so the first has drawn only its own
  have hone : v.display.calls = t.display.calls ++ t.blankCalls [t.cursor] := by
    refine (List.IsPrefix.eq_of_length_le hfirst ?_).symm
    rw [List.length_append, length_blankCalls, List.length_singleton]
    omega
  refine ⟨v, rfl, h, hone, ?_⟩
  -- the second blank moves the display to the cell where the cursor is
  have hnext := blanks_grows h
  rw [calls_draw_blank, hframe.blankCalls, hone, hcalls, rowCells_succ, blankCalls_cons t t.cursor,
    blankCalls_cons t t.cursor, List.append_assoc, List.prefix_append_right_inj, List.cons_append,
    List.cons_append, List.cons_prefix_cons, List.cons_prefix_cons, blankCalls_cons,
      blankCalls_cons]
    at hnext
  have hcall := (List.cons_prefix_cons.mp hnext.2.2).1
  rw [TtyCall.moveCursor.injEq] at hcall
  exact Prod.ext hcall.1 hcall.2

/-- If blanks draw the next cells, and no others, the cursor has gone from one to the next. -/
theorem run_of_blanks : ∀ {n : ℕ} {t : Vt100}, t.cursorX.toNat + n < t.screenWidth.toNat →
    blanks (putc f) (n + 1) t = .done u →
    u.display.calls = t.display.calls ++ t.blankCalls (rowCells t.cursorX.toNat (n + 1) t.cursorY) →
      (∀ c, t.cursorX.toNat ≤ c → c < t.cursorX.toNat + n →
        c + 1 < lineLimit t.screenWidth t.cursorWrap) ∧
      ∃ v, putc f (ascii ' ') v = .done u ∧ Frame t v ∧
        v.cursor = (u16 (t.cursorX.toNat + n : ℕ), t.cursorY) ∧
        u.display.calls = (v.draw (ascii ' ')).display.calls := by
  intro n
  induction n with
  | zero =>
    intro t hx h hcalls
    have hone : blanks (putc f) 1 t = putc f (ascii ' ') t :=
      (blanks_succ 0 t).trans (Outcome.andThen_done_right _)
    rw [rowCells_succ, u16_toNat] at hcalls
    rw [hone] at h
    refine ⟨fun c hlo hhi ↦ by omega, t, h, Frame.refl t, ?_, ?_⟩
    · exact Prod.ext (u16_toNat t.cursorX).symm rfl
    · rw [calls_draw_blank, hcalls]
      rfl
  | succ n ih =>
    intro t hx h hcalls
    rw [rowCells_succ, u16_toNat] at hcalls
    obtain ⟨v, hfirst, hrest, hcallsv, hcursor⟩ := first_of_blanks h hcalls
    have hframe := (frame_putc f (ascii ' ') t).of_done hfirst
    have hnext := toNat_succ (x := t.cursorX) (w := t.screenWidth) (by omega)
    have hcol : u16 (t.cursorX.toNat + 1 : ℕ) = t.cursorX + 1 := by
      rw [← hnext, u16_toNat]
    rw [hcol] at hcursor
    have hx' : v.cursorX.toNat = t.cursorX.toNat + 1 := by
      rw [cursorX_of_cursor hcursor, hnext]
    have hlimit := lineLimit_of_putc (by omega) hfirst hcursor
    have hcells : u.display.calls = v.display.calls
        ++ v.blankCalls (rowCells v.cursorX.toNat (n + 1) v.cursorY) := by
      rw [hcallsv, hframe.blankCalls, hx', cursorY_of_cursor hcursor, hcalls, List.append_assoc,
        ← blankCalls_append]
      rfl
    obtain ⟨hrun, v', hlast, hframe', hcursor', hcalls'⟩ :=
      ih (by rw [hframe.screenWidth]; omega) hrest hcells
    refine ⟨fun c hlo hhi ↦ ?_, v', hlast, hframe.trans hframe', ?_, hcalls'⟩
    · rcases Nat.eq_or_lt_of_le hlo with rfl | hlt
      · exact hlimit
      · have hc := hrun c (by omega) (by omega)
        rwa [hframe.screenWidth, hframe.cursorWrap] at hc
    · rw [hcursor', hx', cursorY_of_cursor hcursor, Nat.add_assoc, Nat.add_comm 1 n]

end Blanks

/-! ## The tab -/

section Tab

variable {t : Vt100}

theorem tabStop_bounds (x : ℕ) : x < tabStop x ∧ tabStop x ≤ x + 4 := by
  rw [tabStop]
  omega

theorem vt100Putc_tab (hidle : t.state = .idle) (f : ℕ) :
    vt100Putc f t 0x09 = blanks (putc f) (tabStop t.cursorX.toNat - t.cursorX.toNat) t := by
  have hcount : 4 - t.cursorX.toNat % 4 = tabStop t.cursorX.toNat - t.cursorX.toNat := by
    rw [tabStop]
    omega
  rw [← hcount]
  exact vt100Putc_control f hidle rfl

/-- The blank in the last column, if it goes to the next row. -/
theorem nextRow_of_putc {f : ℕ} {u : Vt100} (hx : t.cursorX.toNat + 1 = t.screenWidth.toNat)
    (hy : t.cursorY.toNat + 1 < 65536) (h : putc f (ascii ' ') t = .done u)
    (hcalls : u.display.calls = (t.draw (ascii ' ')).display.calls)
    (hcursor : u.cursor = (0, u16 (t.cursorY.toNat + 1))) :
    t.cursorWrap = true ∧ NextRow t.scrollStartRow t.scrollEndRow t.cursorY := by
  obtain ⟨g, x, rows, -, hcolumn, hrow⟩ := move_of_putc h
  rw [column_margin hx] at hcolumn
  by_cases hwrap : t.cursorWrap = true
  · rw [if_pos hwrap] at hcolumn
    cases hcolumn
    have hw : 1 ≤ t.screenWidth.toNat := by omega
    exact ⟨hwrap, nextRow_of_moveRow
      (t := { t.draw (ascii ' ') with cursorX := 0 }) hw hy hrow hcalls
      hcursor rfl⟩
  · rw [if_neg hwrap] at hcolumn
    cases hcolumn
    rw [moveRow_zero] at hrow
    cases hrow
    have hzero : t.screenWidth.toNat = 0 := congrArg BitVec.toNat (congrArg Prod.fst hcursor)
    omega

/-- Where a tab is right, it fits. -/
theorem tabFits_of_tabs (hidle : t.state = .idle) (hx : t.cursorX.toNat < t.screenWidth.toNat)
    (hy : t.cursorY.toNat + 1 < 65536) (h : Tabs t) : TabFits t := by
  obtain ⟨u, ⟨f, hdone⟩, hcalls, hcursor⟩ := h
  rw [vt100Putc_tab hidle] at hdone
  have hstop := tabStop_bounds t.cursorX.toNat
  have hlen := blanks_length hdone
  rw [hcalls, List.length_append, length_blankCalls, length_rowCells] at hlen
  have hle : tabStop t.cursorX.toNat ≤ t.screenWidth.toNat := by omega
  rw [Nat.min_eq_left hle] at hcalls
  obtain ⟨n, hn⟩ : ∃ n, tabStop t.cursorX.toNat = t.cursorX.toNat + n + 1 :=
    ⟨tabStop t.cursorX.toNat - t.cursorX.toNat - 1, by omega⟩
  rw [show tabStop t.cursorX.toNat - t.cursorX.toNat = n + 1 by omega] at hdone hcalls
  obtain ⟨hrun, v, hlast, hframe, hat, hone⟩ := run_of_blanks (by omega) hdone hcalls
  have hxv : v.cursorX.toNat = t.cursorX.toNat + n := by
    have := t.screenWidth.isLt
    rw [cursorX_of_cursor hat, toNat_u16_natCast]
    omega
  rcases Nat.lt_or_eq_of_le hle with hlt | heq
  · -- the last blank goes to the tab stop
    rw [if_pos hlt] at hcursor
    have hnext := toNat_succ (x := v.cursorX) (w := t.screenWidth) (by omega)
    have hcol : u16 (tabStop t.cursorX.toNat) = v.cursorX + 1 := by
      rw [← u16_toNat (v.cursorX + 1), hnext, hxv, hn]
    have hyv : v.cursorY = t.cursorY := cursorY_of_cursor hat
    rw [hcol, ← hyv] at hcursor
    have hlimit := lineLimit_of_putc (by rw [hframe.screenWidth]; omega) hlast hcursor
    rw [hframe.screenWidth, hframe.cursorWrap, hxv, ← hn] at hlimit
    exact Or.inl ⟨hlt, hlimit⟩
  · -- the last blank goes to the next row
    have hyv : v.cursorY = t.cursorY := cursorY_of_cursor hat
    rw [if_neg (by omega), ← hyv] at hcursor
    obtain ⟨hwrap, hnext⟩ := nextRow_of_putc (by rw [hframe.screenWidth]; omega)
      (by rw [hyv]; exact hy) hlast hone hcursor
    rw [hframe.cursorWrap] at hwrap
    rw [hframe.scrollStartRow, hframe.scrollEndRow, hyv] at hnext
    refine Or.inr ⟨heq, hwrap, hnext, ?_⟩
    rcases Nat.eq_zero_or_pos n with rfl | hpos
    · exact Or.inr (by omega)
    · have hlimit := hrun (t.cursorX.toNat + n - 1) (by omega) (by omega)
      rw [lineLimit, hwrap] at hlimit
      split_ifs at hlimit <;> omega

/-- Where it fits, it is right. -/
theorem tabs_of_tabFits (hidle : t.state = .idle) (hy : t.cursorY.toNat + 1 < 65536)
    (h : TabFits t) : Tabs t := by
  have hstop := tabStop_bounds t.cursorX.toNat
  rcases h with ⟨hlt, hlimit⟩ | ⟨heq, hwrap, hnext, hw⟩
  · -- the tab stop is on the line
    refine ⟨_, ⟨1, (vt100Putc_tab hidle 1).trans (blanks_run fun c hlo hhi ↦ by omega)⟩, ?_, ?_⟩
    · rw [Nat.min_eq_left hlt.le]
      rfl
    · rw [if_pos hlt, Nat.add_sub_cancel' hstop.1.le]
      rfl
  · obtain ⟨n, hn⟩ : ∃ n, t.screenWidth.toNat = t.cursorX.toNat + n + 1 :=
      ⟨t.screenWidth.toNat - t.cursorX.toNat - 1, by omega⟩
    have hcount : t.screenWidth.toNat - t.cursorX.toNat = n + 1 := by omega
    have hrun : ∀ c, t.cursorX.toNat ≤ c → c < t.cursorX.toNat + n →
        c + 1 < lineLimit t.screenWidth t.cursorWrap := by
      intro c hlo hhi
      rw [lineLimit_of_le (by omega)]
      omega
    have hprint := blanks_margin (f := 0) hn.symm hrun
    rw [lineEnd, if_pos (show (t.blanked _).cursorWrap = true from hwrap)] at hprint
    obtain ⟨u, hdone, hcalls, hcursor⟩ := moveRow_of_nextRow (putc 0)
      (t := { t.blanked (rowCells t.cursorX.toNat (n + 1) t.cursorY) with cursorX := 0 }) hy rfl
        hnext
    refine ⟨u, ⟨1, ?_⟩, ?_, ?_⟩
    · rw [vt100Putc_tab hidle, heq, hcount, hprint, hdone]
    · rw [hcalls, heq, Nat.min_self, hcount]
      rfl
    · rw [hcursor, if_neg (by omega)]
      rfl

/-- **Tabs.** From a cursor on the screen, a tab writes the blanks up to the tab stop or the end of
the line, and goes there, exactly if `TabFits` says so. -/
theorem tabs_iff (hidle : t.state = .idle) (hx : t.cursorX.toNat < t.screenWidth.toNat)
    (hy : t.cursorY.toNat < t.screenHeight.toNat) : Tabs t ↔ TabFits t := by
  have hrow : t.cursorY.toNat + 1 < 65536 := by
    have := t.screenHeight.isLt
    omega
  exact ⟨tabFits_of_tabs hidle hx hrow, tabs_of_tabFits hidle hrow⟩

/-- In column 18 of 21. -/
theorem tabs_iff_eighteen : Tabs { freshTerminal 21 8 with cursorX := 18 } :=
  (tabs_iff rfl (by decide) (by decide)).mpr (by decide)

/-- In the last of 21 columns, which is before the tab stop. -/
theorem not_tabs_last_column : ¬Tabs { freshTerminal 21 8 with cursorX := 20 } :=
  fun h ↦ absurd (tabFits_of_tabs rfl (by decide) (by decide) h) (by decide)

end Tab

end Vt100

end Martink
