import Martink.Tty.Vt100Trail

/-!
# When the recursion ends

A scroll that clears lines prints on them, and with line wrap every line that it clears moves the
cursor to the next row. In a region of one row that is a scroll of the same line again, and the
recursion never ends (`scroll_one_row`); in a higher region the nested scroll is by fewer lines, and
`scroll_up_done` is the induction on their number. Scrolls whose first line is behind their last one
clear nothing, and return whatever the region is.

`ScrollReturns` collects the cases, and `vt100Putc_returns` is the result for the runs whose bytes
only make such scrolls.
-/

namespace Martink

namespace Vt100

/-- The lines that a scroll by `n` clears are none, because a bound overflows or they lie behind the
end of the region; or, with line wrap, the region has two rows and no line is the last one that a
`uint16_t` can count, and a scroll down starts in a row from which it does not scroll down again. -/
def ScrollReturns (width : BitVec 16) (wrap : Bool) (start stop : BitVec 16) (n : ℤ) : Prop :=
  (0 ≤ n ∨ 1 ≤ stop.toNat ∧ stop.toNat - n ≤ 65535) ∧ (n ≤ 0 ∨ 65536 < start.toNat + n) ∨
    width.toNat < 2 ^ 15 ∧ (wrap = true → start.toNat + 2 ≤ stop.toNat ∧
      (0 < n → start.toNat + n < 65536) ∧ (n < 0 → start.toNat + n ≤ 0))

instance (width : BitVec 16) (wrap : Bool) (start stop : BitVec 16) (n : ℤ) :
    Decidable (ScrollReturns width wrap start stop n) := inferInstanceAs (Decidable (_ ∨ _))

/-- The byte does not index outside `args`, and its moves scroll in a way that ends. -/
def RecursionEnds (t : Vt100) (c : BitVec 8) : Prop :=
  ArgsFit t c ∧ ∀ y ∈ targets t c,
    ScrollReturns t.screenWidth t.cursorWrap t.scrollStartRow t.scrollEndRow
      (lines t.scrollStartRow t.scrollEndRow y)

instance (t : Vt100) (c : BitVec 8) : Decidable (RecursionEnds t c) :=
  -- along the list, not over all rows
  have := List.decidableBAll (fun y ↦ ScrollReturns t.screenWidth t.cursorWrap t.scrollStartRow
    t.scrollEndRow (lines t.scrollStartRow t.scrollEndRow y)) (targets t c)
  inferInstanceAs (Decidable (_ ∧ _))

/-! ## Scrolls -/

section Scrolls

variable {putc : BitVec 8 → Vt100 → Vt100Run} {f : ℕ} {t₀ t : Vt100} {n : ℤ} {w c : BitVec 16}

/-- Code that is done, and keeps the settings of `t₀`. -/
def Done (t₀ : Vt100) (o : Vt100Run) : Prop := o.Sat (Frame t₀) fun _ _ ↦ False

theorem done_setScrollValue (h : Frame t₀ t) {scrollHeight : BitVec 16} (hne : scrollHeight ≠ 0)
    (z : ℤ) : Done t₀ (setScrollValue scrollHeight z t) := by
  rw [setScrollValue, if_neg hne]
  exact Outcome.sat_done h

/-- A scroll returns if the lines that it clears are cleared; the region is not empty. -/
theorem done_scroll (h : Frame t₀ t) (hregion : t₀.scrollStartRow ≠ t₀.scrollEndRow)
    (hup : 0 < n → Done t₀
      (clearLines putc t₀.scrollStartRow (u16 (t₀.scrollStartRow.toNat + n - 1)) t))
    (hdown : n < 0 → Done t₀
      (clearLines putc (u16 (t₀.scrollEndRow.toNat - n)) (u16 (t₀.scrollEndRow.toNat - 1)) t)) :
    Done t₀ (scroll putc n t) := by
  have hheight : u16 (t₀.scrollEndRow.toNat - t₀.scrollStartRow.toNat) ≠ 0 := by
    intro hzero
    have hmod := toNat_u16 (t₀.scrollEndRow.toNat - t₀.scrollStartRow.toNat)
    have hnat : ((0 : BitVec 16).toNat : ℤ) = 0 := rfl
    rw [hzero] at hmod
    exact hregion (BitVec.eq_of_toNat_eq (by omega))
  rw [scroll, h.scrollStartRow, h.scrollEndRow]
  split_ifs with hpos hneg
  · exact (hup hpos).andThen fun u hu ↦ done_setScrollValue hu hheight _
  · exact (hdown hneg).andThen fun u hu ↦ done_setScrollValue hu hheight _
  · exact Outcome.sat_done h

theorem done_clearLines_of_lt {startLine endLine : BitVec 16} (h : Frame t₀ t)
    (hlt : endLine.toNat < startLine.toNat) : Done t₀ (clearLines putc startLine endLine t) := by
  rw [clearLines_of_lt hlt]
  exact Outcome.sat_done (h.trans (Frame.cursor t 0 startLine))

/-- Lines are cleared if the moves to the rows below them return. -/
theorem done_clearLines {startLine endLine : BitVec 16} (h : Frame t₀ t)
    (hw : t₀.screenWidth.toNat ≤ 2 ^ 15)
    (hrow : t₀.cursorWrap = true → ∀ (c : BitVec 16) u, startLine.toNat ≤ c.toNat →
      c.toNat ≤ endLine.toNat → Frame t₀ u → u.cursorY = c → Done t₀ (moveRow (Vt100.putc f) 1 u)) :
    Done t₀ (clearLines (Vt100.putc (f + 1)) startLine endLine t) := by
  have hcursor : ∀ u x y, Frame t₀ u → Frame t₀ { u with cursorX := x, cursorY := y } :=
    fun u x y hu ↦ hu.trans (Frame.cursor u x y)
  refine (clearLines_sat (P := Frame t₀) (w := t₀.screenWidth) (fun c hlo hhi ↦ ?_)
    (fun u hu ↦ hu.screenWidth) hcursor h).mono (fun _ h' ↦ h'.1) fun _ _ hX ↦ hX
  refine printsCell_of_moveRow hw (fun u hu ↦ hu.screenWidth) hcursor
    (fun u hu _ _ ↦ hu.trans (Frame.draw u _)) fun u hu hy hwrap ↦ ?_
  exact hrow (hu.cursorWrap.symm.trans hwrap) c u hlo hhi hu hy

theorem done_moveRow_one (h : Frame t₀ t)
    (hscroll : ∀ u, Frame t₀ u → Done t₀ (scroll putc
      (lines t₀.scrollStartRow t₀.scrollEndRow (u16 (t.cursorY.toNat + 1))) u)) :
    Done t₀ (moveRow putc 1 t) :=
  moveRow_sat one_ne_zero h fun y ↦ hscroll _ (h.trans (Frame.cursor t t.cursorX y))

theorem done_scroll_zero (h : Frame t₀ t) : Done t₀ (scroll putc 0 t) := by
  rw [scroll, if_neg (lt_irrefl 0), if_neg (lt_irrefl 0)]
  exact Outcome.sat_done h

/-- **Scrolling up returns** in a region of two rows: the scroll by `n` lines nests scrolls by less
than `n` lines. -/
theorem scroll_up_done (hw : t₀.screenWidth.toNat < 2 ^ 15)
    (htwo : t₀.scrollStartRow.toNat + 2 ≤ t₀.scrollEndRow.toNat) :
    ∀ {f : ℕ} {n : ℤ} {t : Vt100}, Frame t₀ t → 0 < n → t₀.scrollStartRow.toNat + n < 65536 →
      n < 32768 → n ≤ f → Done t₀ (scroll (Vt100.putc f) n t) := by
  intro f
  induction f with
  | zero => exact fun {n t} _ hpos _ _ hle ↦ absurd hle (by omega)
  | succ f ih =>
    intro n t h hpos hsum hrange hle
    refine done_scroll h (fun heq ↦ by rw [heq] at htwo; omega) (fun _ ↦ ?_) fun hneg ↦ by omega
    have hlast := toNat_u16_of_lt (z := t₀.scrollStartRow.toNat + n - 1) (by omega) (by omega)
    refine done_clearLines h hw.le fun _ c u hlo hhi hu hy ↦ done_moveRow_one hu fun v hv ↦ ?_
    have hnext := toNat_u16_of_lt (z := u.cursorY.toNat + 1) (by omega) (by rw [hy]; omega)
    rw [hy] at hnext ⊢
    rcases Nat.lt_or_ge (c.toNat + 1) t₀.scrollEndRow.toNat with hinside | hbelow
    · rw [lines_inside (by omega) (by omega)]
      exact done_scroll_zero hv
    · rw [lines_below (by omega), hnext, s16_of_range (by omega) (by omega)]
      exact ih hv (by omega) (by omega) (by omega) (by omega)

/-- A scroll that clears no line. -/
theorem scroll_empty_done (h : Frame t₀ t) (hregion : t₀.scrollStartRow ≠ t₀.scrollEndRow)
    (hdown : 0 ≤ n ∨ 1 ≤ t₀.scrollEndRow.toNat ∧ t₀.scrollEndRow.toNat - n ≤ 65535)
    (hup : n ≤ 0 ∨ 65536 < t₀.scrollStartRow.toNat + n) (hn : n < 32768) :
    Done t₀ (scroll putc n t) := by
  refine done_scroll h hregion (fun hpos ↦ done_clearLines_of_lt h ?_)
    fun hneg ↦ done_clearLines_of_lt h ?_
  · have hlast := toNat_u16 (t₀.scrollStartRow.toNat + n - 1)
    omega
  · have hfirst := toNat_u16_of_lt (z := t₀.scrollEndRow.toNat - n) (by omega) (by omega)
    have hlast := toNat_u16_of_lt (z := t₀.scrollEndRow.toNat - 1) (by omega) (by omega)
    omega

/-- Scrolling down over the lines above the region. -/
theorem scroll_down_done (h : Frame t₀ t) (hw : t₀.screenWidth.toNat < 2 ^ 15)
    (htwo : t₀.scrollStartRow.toNat + 2 ≤ t₀.scrollEndRow.toNat) (hneg : n < 0)
    (hsum : t₀.scrollStartRow.toNat + n ≤ 0) (hn : -32768 ≤ n)
    (hover : 65535 < t₀.scrollEndRow.toNat - n) (hf : 2 ≤ f) :
    Done t₀ (scroll (Vt100.putc f) n t) := by
  have hregion : t₀.scrollStartRow ≠ t₀.scrollEndRow := fun heq ↦ by rw [heq] at htwo; omega
  obtain ⟨f, rfl⟩ : ∃ g, f = g + 1 := Nat.exists_eq_add_of_le' (by omega)
  refine done_scroll h hregion (fun hpos ↦ by omega) fun _ ↦ ?_
  have hfirst := toNat_u16 (t₀.scrollEndRow.toNat - n)
  have hlast := toNat_u16_of_lt (z := t₀.scrollEndRow.toNat - 1) (by omega) (by omega)
  refine done_clearLines h hw.le fun _ c u hlo hhi hu hy ↦ done_moveRow_one hu fun v hv ↦ ?_
  have hnext := toNat_u16_of_lt (z := u.cursorY.toNat + 1) (by omega) (by rw [hy]; omega)
  rw [hy] at hnext ⊢
  rcases Nat.lt_or_ge (c.toNat + 1) t₀.scrollEndRow.toNat with hinside | hbelow
  · rcases Nat.lt_or_ge (c.toNat + 1) t₀.scrollStartRow.toNat with habove | hregion'
    · -- the rows above the region: the nested scroll clears no line
      rw [lines_above (by omega) (by omega), hnext]
      have hs := s16_range (c.toNat + 1 - t₀.scrollStartRow.toNat)
      refine scroll_empty_done hv hregion ?_ ?_ hs.2
      · rw [s16]
        omega
      · rw [s16]
        omega
    · rw [lines_inside (by omega) (by omega)]
      exact done_scroll_zero hv
  · rw [lines_below (by omega), hnext, s16_of_range (by omega) (by omega)]
    exact scroll_up_done hw htwo hv (by omega) (by omega) (by omega) (by omega)

/-- **One scroll returns**, when the recursion may be as deep as there are lines. -/
theorem scroll_done (h : Frame t₀ t) (hregion : t₀.scrollStartRow ≠ t₀.scrollEndRow)
    (hlo : -32768 ≤ n) (hhi : n < 32768) (hf : 32768 ≤ f)
    (hn : ScrollReturns t₀.screenWidth t₀.cursorWrap t₀.scrollStartRow t₀.scrollEndRow n) :
    Done t₀ (scroll (Vt100.putc f) n t) := by
  rcases hn with ⟨hdown, hup⟩ | ⟨hw, hwrap⟩
  · exact scroll_empty_done h hregion hdown hup hhi
  by_cases hon : t₀.cursorWrap = true
  · obtain ⟨htwo, hup, hdown⟩ := hwrap hon
    rcases lt_trichotomy n 0 with hneg | rfl | hpos
    · rcases le_or_gt (t₀.scrollEndRow.toNat - n) 65535 with hempty | hover
      · exact scroll_empty_done h hregion (Or.inr ⟨by omega, hempty⟩) (Or.inl hneg.le) hhi
      · exact scroll_down_done h hw htwo hneg (hdown hneg) hlo hover (by omega)
    · exact done_scroll_zero h
    · exact scroll_up_done hw htwo h hpos (hup hpos) hhi (by omega)
  · obtain ⟨f, rfl⟩ : ∃ g, f = g + 1 := Nat.exists_eq_add_of_le' (by omega)
    exact done_scroll h hregion
      (fun _ ↦ done_clearLines h hw.le fun hwrap ↦ absurd hwrap hon)
      fun _ ↦ done_clearLines h hw.le fun hwrap ↦ absurd hwrap hon

end Scrolls

/-! ## A region of one row -/

/-- A screen of width `w` with line wrap whose region is the row `start`. -/
structure OneRow (w start : BitVec 16) (t : Vt100) : Prop where
  /-- The width. -/
  width : t.screenWidth = w
  /-- Line wrap is on. -/
  wrap : t.cursorWrap = true
  /-- The row of the region. -/
  start_eq : t.scrollStartRow = start
  /-- There is only one. -/
  stop_eq : t.scrollEndRow.toNat = start.toNat + 1

section OneRow

variable {w start : BitVec 16} {f : ℕ} {t : Vt100}

/-- The next row is a scroll by one line. -/
theorem OneRow.lines_next (h : OneRow w start t) (hy : t.cursorY = start)
    (hstart : start.toNat + 1 < 65536) :
    lines t.scrollStartRow t.scrollEndRow (u16 (t.cursorY.toNat + 1)) = 1 := by
  have hnext := toNat_u16_of_lt (z := t.cursorY.toNat + 1) (by omega) (by rw [hy]; omega)
  have hstop := h.stop_eq
  rw [hy] at hnext ⊢
  rw [lines_below (by omega), hnext, s16_of_range (by omega) (by omega)]
  omega

/-- If printing at the end of the row never returns, neither does printing over the whole row. -/
theorem blanks_one_row (hw : 1 ≤ w.toNat) (hw' : w.toNat < 2 ^ 15)
    (hmargin : ∀ u, OneRow w start u → u.cursorX.toNat + 1 = w.toNat → u.cursorY = start →
      (putc f (ascii ' ') u).Sat (fun _ ↦ False) fun _ _ ↦ True)
    (h : OneRow w start t) (hcursor : t.cursor = (0, start)) :
    (blanks (putc f) w.toNat t).Sat (fun _ ↦ False) fun _ _ ↦ True := by
  -- after `i` blanks the cursor is in column `i`, which is never the width
  refine (Outcome.Sat.forRange (X := fun _ _ ↦ True) (I := fun i u ↦ OneRow w start u ∧
    i < w.toNat ∧ u.cursorX.toNat = i ∧ u.cursorY = start) w.toNat (fun i v _ _ hv ↦ ?_)
      ⟨h, hw, ?_, cursorY_of_cursor hcursor⟩).mono (fun v hv ↦ by omega) fun _ _ hX ↦ hX
  · obtain ⟨hv, hi, hx, hy⟩ := hv
    rcases Nat.lt_or_ge (i + 1) w.toNat with hinside | hend
    · rcases f with _ | f
      · exact Outcome.sat_stuck trivial
      · rw [putc_inside (by rw [hv.width]; exact hw'.le) (by rw [hv.width, hx]; exact hinside)]
        refine Outcome.sat_done ⟨⟨hv.width, hv.wrap, hv.start_eq, hv.stop_eq⟩, hinside, ?_, hy⟩
        have hnext : (v.cursorX + 1).toNat = i + 1 := by
          rw [BitVec.toNat_add, hx]
          simp
          omega
        exact hnext
    · exact (hmargin v hv (by omega) hy).mono (fun _ hfalse ↦ hfalse.elim) fun _ _ hX ↦ hX
  · rw [cursorX_of_cursor hcursor]
    rfl

/-- Neither does a scroll up that clears the row. -/
theorem scroll_one_row_of_margin {n : ℤ} (hw : 1 ≤ w.toNat) (hw' : w.toNat < 2 ^ 15)
    (hn : 0 < n) (hsum : start.toNat + n ≤ 65536) (h : OneRow w start t)
    (hmargin : ∀ u, OneRow w start u → u.cursorX.toNat + 1 = w.toNat → u.cursorY = start →
      (putc f (ascii ' ') u).Sat (fun _ ↦ False) fun _ _ ↦ True) :
    (scroll (putc f) n t).Sat (fun _ ↦ False) fun _ _ ↦ True := by
  have hlast := toNat_u16_of_lt (z := start.toNat + n - 1) (by omega) (by omega)
  have hclear : (clearLines (putc f) t.scrollStartRow (u16 (t.scrollStartRow.toNat + n - 1)) t).Sat
      (fun _ ↦ False) fun _ _ ↦ True := by
    obtain ⟨m, hm⟩ : ∃ m, (u16 (start.toNat + n - 1)).toNat + 1 - start.toNat = m + 1 :=
      Nat.exists_eq_add_of_le' (by omega)
    rw [h.start_eq, clearLines, hm]
    refine Outcome.Sat.andThen (Q := fun _ ↦ False) ?_ fun _ hfalse ↦ hfalse.elim
    rw [Outcome.forRange]
    refine Outcome.Sat.andThen (Q := fun _ ↦ False) ?_ fun _ hfalse ↦ hfalse.elim
    rw [u16_toNat, h.width]
    exact blanks_one_row hw hw' hmargin ⟨rfl, h.wrap, h.start_eq, h.stop_eq⟩ rfl
  rw [scroll, if_pos hn]
  exact hclear.andThen fun _ hfalse ↦ hfalse.elim

/-- **A scroll up in a region of one row never ends**: clearing the row moves to the next one, which
is a scroll of the same row again. -/
theorem scroll_one_row (hw : 1 ≤ w.toNat) (hw' : w.toNat < 2 ^ 15)
    (hstart : start.toNat + 1 < 65536) :
    ∀ {f : ℕ} {n : ℤ} {t : Vt100}, 0 < n → start.toNat + n ≤ 65536 → OneRow w start t →
      (scroll (putc f) n t).Sat (fun _ ↦ False) fun _ _ ↦ True := by
  intro f
  induction f with
  | zero => exact fun hn hsum h ↦ scroll_one_row_of_margin hw hw' hn hsum h fun _ _ _ _ ↦
      Outcome.sat_stuck trivial
  | succ f ih =>
    refine fun hn hsum h ↦ scroll_one_row_of_margin hw hw' hn hsum h fun u hu hx hy ↦ ?_
    have hnext := hu.lines_next hy hstart
    rw [putc_margin (by rw [hu.width]; exact hx), if_pos hu.wrap,
      moveRow_eq one_ne_zero]
    dsimp only [draw]
    rw [hnext]
    exact ih one_pos (by omega) ⟨hu.width, hu.wrap, hu.start_eq, hu.stop_eq⟩

/-- A line feed in the region's row. -/
theorem not_returns_newLine (hw' : w.toNat < 2 ^ 15) (hstart : start.toNat + 1 < 65536)
    (h : OneRow w start t) (hstate : t.state = .idle) (hx : t.cursorX.toNat < w.toNat)
    (hy : t.cursorY = start) (t' : Vt100) : ¬Returns t 0x0a t' := by
  rintro ⟨fuel, hdone⟩
  have hputc : vt100Putc fuel t 0x0a = t.controlBody fuel 0x0a .newLine :=
    vt100Putc_control fuel hstate rfl
  have hcolumn : column t.screenWidth t.cursorWrap t.cursorX 0 1 = some (t.cursorX, 1) :=
    column_stay (by rw [h.width]; exact hw') (by rw [h.width]; exact hx) 1
  have hnever : (move (putc fuel) 0 1 t).Sat (fun _ ↦ False) fun _ _ ↦ True := by
    rw [move_of_column hcolumn, moveRow_eq one_ne_zero]
    dsimp only
    rw [h.lines_next hy hstart]
    exact scroll_one_row (by omega) hw' hstart one_pos (by omega)
      ⟨h.width, h.wrap, h.start_eq, h.stop_eq⟩
  rw [controlBody] at hputc
  rw [hputc] at hdone
  have hline : ((move (putc fuel) 0 1 t).andThen fun u ↦ .done { u with cursorX := 0 }).Sat
      (fun _ ↦ False) fun _ _ ↦ True := hnever.andThen fun _ hfalse ↦ hfalse.elim
  exact hline.of_done hdone

end OneRow

/-! ## The trail -/

/-- While the rows `ys` are still to be aimed at, their scrolls return. -/
structure ReturnTrail (ys : List (BitVec 16)) (t : Vt100) : Prop where
  /-- There is a column. -/
  width_pos : 1 ≤ t.screenWidth.toNat
  /-- The region is not empty. -/
  region : t.scrollStartRow ≠ t.scrollEndRow
  /-- The scrolls of the rows return. -/
  returns : ∀ y ∈ ys, ScrollReturns t.screenWidth t.cursorWrap t.scrollStartRow t.scrollEndRow
    (lines t.scrollStartRow t.scrollEndRow y)

section Trail

variable {fuel : ℕ} {ys : List (BitVec 16)} {y : BitVec 16} {t t' : Vt100} {c : BitVec 8}

theorem ReturnTrail.congr (h : ReturnTrail ys t) (hregion : t'.region = t.region)
    (hwrap : ys = [] ∨ t'.cursorWrap = t.cursorWrap) : ReturnTrail ys t' := by
  simp only [Vt100.region, Prod.mk.injEq] at hregion
  obtain ⟨hwidth, hstart, hstop, -⟩ := hregion
  refine ⟨?_, ?_, ?_⟩
  · rw [hwidth]
    exact h.width_pos
  · rw [hstart, hstop]
    exact h.region
  · rcases hwrap with rfl | hwrap
    · exact fun y hy ↦ absurd hy List.not_mem_nil
    · rw [hwidth, hwrap, hstart, hstop]
      exact h.returns

theorem ReturnTrail.tail (h : ReturnTrail (y :: ys) t) (hframe : Frame t t') :
    ReturnTrail ys t' := by
  refine ⟨?_, ?_, ?_⟩
  · rw [hframe.screenWidth]
    exact h.width_pos
  · rw [hframe.scrollStartRow, hframe.scrollEndRow]
    exact h.region
  · rw [hframe.screenWidth, hframe.cursorWrap, hframe.scrollStartRow, hframe.scrollEndRow]
    exact fun z hz ↦ h.returns z (List.mem_cons_of_mem y hz)

theorem returnTrail_rule (hfuel : 32768 < fuel) : TrailRule fuel ReturnTrail fun _ _ ↦ False where
  congr h heq hwrap := h.congr heq hwrap
  row {f bottomTop y ys t} hf hrows hy h := by
    have hrange := s16_range (toScroll t.scrollStartRow t.scrollEndRow y).toNat
    have hscroll := scroll_done (f := f) (Frame.cursor t t.cursorX
      (parkRow t.scrollStartRow t.scrollEndRow y)) h.region hrange.1 hrange.2 (by omega)
      (h.returns y (List.mem_cons_self ..))
    rw [moveRow_eq hrows, hy]
    exact Outcome.Sat.mono hscroll (fun t' hframe ↦ h.tail hframe) fun _ _ hX ↦ hX
  noFuel hzero := by omega
  divZero h hzero := by
    have := h.width_pos
    omega

/-- **One byte returns.** -/
theorem vt100Putc_done (hfuel : 32768 < fuel) (hwidth : 1 ≤ t.screenWidth.toNat)
    (hregion : t.scrollStartRow ≠ t.scrollEndRow) (hc : RecursionEnds t c) :
    ∃ t', vt100Putc fuel t c = .done t' := by
  have htrail : ReturnTrail (targets t c) t := ⟨hwidth, hregion, hc.2⟩
  obtain ⟨t', hdone, -⟩ := (trail_vt100Putc (returnTrail_rule hfuel)
    (fun hfit ↦ absurd hc.1 hfit) htrail).exists_done
  exact ⟨t', hdone⟩

end Trail

end Vt100

open Vt100

/-- **Bytes return in every run** whose bytes make only scrolls that end. -/
theorem vt100Putc_returns_of_reached {self t : Vt100} {display : TtyDevice}
    (hwidth : 1 ≤ display.width.toNat) (hheight : 1 ≤ display.height.toNat)
    (hrun : Reached Returns RecursionEnds (vt100Init self display) t) {c : BitVec 8}
    (hc : RecursionEnds t c) : ∃ t', Returns t c t' := by
  have hwf := wellformed_reached hheight hrun
  have hregion : t.scrollStartRow ≠ t.scrollEndRow := by
    intro heq
    have hrows := hwf.region
    rw [heq] at hrows
    omega
  rw [← hwf.screenWidth] at hwidth
  obtain ⟨t', hdone⟩ := vt100Putc_done (lt_add_one 32768) hwidth hregion hc
  exact ⟨t', 32769, hdone⟩


/-- `ESC [ B` on a screen of two rows: a line feed scrolls, and returns. -/
theorem vt100Putc_returns_two : ∃ t, Reached Returns RecursionEnds (freshTerminal 80 2) t ∧
    targets t 0x0a = [2] ∧ lines t.scrollStartRow t.scrollEndRow 2 = 1 ∧ ∃ t',
      Returns t 0x0a t' := by
  have hmeets : Meets RecursionEnds 0 (freshTerminal 80 2) [0x1b, ascii '[', ascii 'B'] := by
    decide +kernel
  have hrun : ∃ t, Reached Returns RecursionEnds (freshTerminal 80 2) t ∧
      targets t 0x0a = [2] ∧ lines t.scrollStartRow t.scrollEndRow 2 = 1 ∧ RecursionEnds t 0x0a :=
    ⟨_, reached_of_meets 0 _ .start hmeets, by decide +kernel, by decide +kernel, by decide +kernel⟩
  obtain ⟨t, hrun, htargets, hlines, hc⟩ := hrun
  exact ⟨t, hrun, htargets, hlines, vt100Putc_returns_of_reached (by decide) (by decide) hrun hc⟩

/-- `ESC [ 1;2r` sets a region of one row, in which a line feed never returns. -/
theorem not_returns_one_row :
    ∃ t, Path Returns (freshTerminal 80 24)
      [0x1b, ascii '[', ascii '1', ascii ';', ascii '2', ascii 'r'] t ∧
        ∀ t', ¬Returns t 0x0a t' := by
  refine ⟨_, .cons ⟨0, rfl⟩ (.cons ⟨0, rfl⟩ (.cons ⟨0, rfl⟩ (.cons ⟨0, rfl⟩ (.cons ⟨0, rfl⟩
    (.cons ⟨0, rfl⟩ (.nil _)))))), ?_⟩
  exact not_returns_newLine (w := 80) (by decide) (by decide) ⟨rfl, rfl, rfl, by decide⟩ rfl
    (by decide) rfl

end Martink
