import Martink.Tty.Vt100Moves

/-!
# Printing text

With line wrap on, on a screen whose scroll region is the whole screen, the cells of the screen can
be numbered row by row: `Vt100.linear` is the number of the cell under the cursor. Printing goes
from each cell to the next, whether this one is in the same row or not (`Vt100.putc_cell`), so that
a string that ends before the last cell is written cell by cell and nothing scrolls
(`Vt100.vt100Puts_print`).
-/

namespace Martink

namespace Vt100

/-- The number of the cell under the cursor, row by row. -/
def linear (t : Vt100) : ℕ := t.cursorY.toNat * t.screenWidth.toNat + t.cursorX.toNat

/-- The terminal with the cursor in the cell of number `p`. -/
def atCell (t : Vt100) (p : ℕ) : Vt100 :=
  { t with cursorX := u16 ↑(p % t.screenWidth.toNat), cursorY := u16 ↑(p / t.screenWidth.toNat) }

/-- The display calls that print `ch` in the cell of number `p`. -/
def cellCalls (t : Vt100) (ch : BitVec 8) (p : ℕ) : List TtyCall :=
  [.moveCursor (u16 ↑(p % t.screenWidth.toNat)) (u16 ↑(p / t.screenWidth.toNat)),
    .put ch t.frontColor t.backColor]

/-- The display calls that print a string from the cell of number `p` on. -/
def stringCalls (t : Vt100) (str : List (BitVec 8)) (p : ℕ) : List TtyCall :=
  (str.zipIdx p).flatMap fun ch ↦ t.cellCalls ch.1 ch.2

/-- The terminal after the display calls. -/
def shown (t : Vt100) (calls : List TtyCall) : Vt100 :=
  { t with display := { t.display with calls := t.display.calls ++ calls } }

/-- A terminal that wraps lines and scrolls the whole screen, of the sizes that its columns and rows
can be told apart in 16 signed bits. -/
structure FullScreen (t : Vt100) : Prop where
  /-- There is a column. -/
  width_pos : 1 ≤ t.screenWidth.toNat
  /-- The columns are numbers of 15 bits. -/
  width_lt : t.screenWidth.toNat < 2 ^ 15
  /-- The rows are numbers of 15 bits. -/
  height_lt : t.screenHeight.toNat < 2 ^ 15
  /-- Line wrap is on. -/
  wrap : t.cursorWrap = true
  /-- The region begins in the first row. -/
  start : t.scrollStartRow = 0
  /-- It ends with the screen. -/
  stop : t.scrollEndRow = t.screenHeight

theorem FullScreen.of_frame {t u : Vt100} (h : FullScreen t) (hframe : Frame t u) :
    FullScreen u where
  width_pos := by rw [hframe.screenWidth]; exact h.width_pos
  width_lt := by rw [hframe.screenWidth]; exact h.width_lt
  height_lt := by rw [hframe.screenHeight]; exact h.height_lt
  wrap := hframe.cursorWrap.trans h.wrap
  start := hframe.scrollStartRow.trans h.start
  stop := by rw [hframe.scrollEndRow, hframe.screenHeight]; exact h.stop

section Cells

variable {t : Vt100} {p fuel : ℕ} {ch : BitVec 8}

theorem atCell_mul_add (t : Vt100) (y : ℕ) {x : ℕ} (hx : x < t.screenWidth.toNat) :
    t.atCell (y * t.screenWidth.toNat + x) = { t with cursorX := u16 x, cursorY := u16 y } := by
  have hrow : (y * t.screenWidth.toNat + x) / t.screenWidth.toNat = y := by
    rw [Nat.mul_comm, Nat.mul_add_div (by omega), Nat.div_eq_of_lt hx, Nat.add_zero]
  rw [atCell, Nat.mul_add_mod_of_lt hx, hrow]

theorem atCell_linear (hx : t.cursorX.toNat < t.screenWidth.toNat) : t.atCell t.linear = t := by
  rw [linear, atCell_mul_add t _ hx, u16_toNat, u16_toNat]

/-- A cell of the screen has the number that the cursor stands for. -/
theorem linear_atCell (h : FullScreen t) (hp : p < t.screenWidth.toNat * t.screenHeight.toNat) :
    (t.atCell p).linear = p ∧ (t.atCell p).cursorX.toNat < t.screenWidth.toNat := by
  have hx := Nat.mod_lt p h.width_pos
  have hy := Nat.div_lt_of_lt_mul hp
  have hw := h.width_lt
  have hh := h.height_lt
  have hcolumn : (t.atCell p).cursorX.toNat = p % t.screenWidth.toNat := by
    rw [atCell, toNat_u16_natCast, Nat.mod_eq_of_lt (by omega)]
  have hrow : (t.atCell p).cursorY.toNat = p / t.screenWidth.toNat := by
    rw [atCell, toNat_u16_natCast, Nat.mod_eq_of_lt (by omega)]
  rw [linear, hcolumn, hrow]
  exact ⟨Nat.div_add_mod' p t.screenWidth.toNat, hx⟩

theorem draw_eq_shown (hx : t.cursorX.toNat < t.screenWidth.toNat) :
    t.draw ch = t.shown (t.cellCalls ch t.linear) := by
  have hcolumn : u16 ↑(t.linear % t.screenWidth.toNat) = t.cursorX :=
    congrArg Vt100.cursorX (atCell_linear hx)
  have hrow : u16 ↑(t.linear / t.screenWidth.toNat) = t.cursorY :=
    congrArg Vt100.cursorY (atCell_linear hx)
  rw [draw, shown, cellCalls, hcolumn, hrow, ttyPut, ttyMoveCursor, List.append_assoc]
  rfl

theorem u16_toNat_succ (x : BitVec 16) : u16 ↑(x.toNat + 1) = x + 1 := by
  apply BitVec.eq_of_toNat_eq
  rw [toNat_u16_natCast, BitVec.toNat_add]
  rfl

/-- **The next cell.** -/
theorem putc_cell (h : FullScreen t) (hx : t.cursorX.toNat < t.screenWidth.toNat)
    (hp : t.linear + 1 < t.screenWidth.toNat * t.screenHeight.toNat) :
    putc (fuel + 1) ch t = .done ((t.draw ch).atCell (t.linear + 1)) := by
  rcases Nat.lt_or_ge (t.cursorX.toNat + 1) t.screenWidth.toNat with hinside | hmargin
  · have hcell : (t.draw ch).atCell (t.linear + 1)
        = { t.draw ch with cursorX := u16 ↑(t.cursorX.toNat + 1),
                           cursorY := u16 t.cursorY.toNat } :=
      atCell_mul_add (t.draw ch) t.cursorY.toNat hinside
    rw [putc_inside h.width_lt.le hinside, hcell, u16_toNat_succ, u16_toNat]
    rfl
  · have hnext : t.linear + 1 = (t.cursorY.toNat + 1) * t.screenWidth.toNat + 0 := by
      rw [linear, Nat.succ_mul]
      omega
    have hcell : (t.draw ch).atCell (t.linear + 1)
        = { t.draw ch with cursorX := u16 (0 : ℕ), cursorY := u16 ↑(t.cursorY.toNat + 1) } := by
      rw [hnext]
      exact atCell_mul_add (t.draw ch) (t.cursorY.toNat + 1) h.width_pos
    have hrow : t.cursorY.toNat + 1 < t.screenHeight.toNat := by
      rw [hnext, Nat.add_zero, Nat.mul_comm] at hp
      exact Nat.lt_of_mul_lt_mul_left hp
    rw [putc_margin (by omega), if_pos h.wrap, hcell, moveRow_inside]
    · rfl
    · change (t.scrollStartRow.toNat : ℤ) ≤ t.cursorY.toNat + 1
      rw [h.start]
      exact Int.natCast_nonneg _
    · change (t.cursorY.toNat : ℤ) + 1 < t.scrollEndRow.toNat
      rw [h.stop]
      exact_mod_cast hrow

theorem shown_shown (t : Vt100) (calls calls' : List TtyCall) :
    (t.shown calls).shown calls' = t.shown (calls ++ calls') := by
  simp only [shown, List.append_assoc]

/-- A string of text goes from cell to cell. -/
theorem vt100Puts_text (fuel : ℕ) (str : List (BitVec 8)) :
    ∀ {t : Vt100}, (∀ c ∈ str, Control.ofChar c = .print) → t.state = .idle → FullScreen t →
      t.cursorX.toNat < t.screenWidth.toNat →
      t.linear + str.length < t.screenWidth.toNat * t.screenHeight.toNat →
      vt100Puts (fuel + 1) t str
        = .done ((t.shown (t.stringCalls str t.linear)).atCell (t.linear + str.length)) := by
  induction str with
  | nil =>
    intro t _ _ _ hx _
    have hstay : t.shown (t.stringCalls [] t.linear) = t := by simp [stringCalls, shown]
    rw [hstay]
    exact congrArg Outcome.done (atCell_linear hx).symm
  | cons c str ih =>
    intro t hstr hidle h hx hfit
    obtain ⟨hc, hrest⟩ := List.forall_mem_cons.mp hstr
    rw [List.length_cons] at hfit ⊢
    have hputc : vt100Putc (fuel + 1) t c = putc (fuel + 1) c t := by
      rw [vt100Putc_control _ hidle hc, controlBody]
    have hnext : t.linear + 1 + str.length < t.screenWidth.toNat * t.screenHeight.toNat := by omega
    obtain ⟨hlinear, hx'⟩ := linear_atCell (p := t.linear + 1) (h.of_frame (Frame.draw t c))
      (show t.linear + 1 < t.screenWidth.toNat * t.screenHeight.toNat by omega)
    have hrun := ih (t := (t.draw c).atCell (t.linear + 1)) hrest hidle (h.of_frame rfl) hx'
      (hlinear.symm ▸ hnext)
    rw [vt100Puts, hputc, putc_cell h hx (by omega), Outcome.andThen_done, hrun, hlinear,
      draw_eq_shown hx, Nat.add_right_comm, Nat.add_assoc, stringCalls, stringCalls,
        List.zipIdx_cons, List.flatMap_cons, ← shown_shown]
    rfl

end Cells

/-- **Printing text.** The `i`-th byte is printed, in the current colours, in the `i`-th cell from
that under the cursor on, nothing else is drawn and nothing scrolls, and the cursor ends behind the
last byte. -/
theorem vt100Puts_print {t : Vt100} {str : List (BitVec 8)} (fuel : ℕ) (hidle : t.state = .idle)
    (hscreen : FullScreen t) (hx : t.cursorX.toNat < t.screenWidth.toNat)
    (hstr : ∀ c ∈ str, Control.ofChar c = .print)
    (hfit : t.linear + str.length < t.screenWidth.toNat * t.screenHeight.toNat) :
    ∃ t', vt100Puts (fuel + 1) t str = .done t' ∧
      t'.display.calls = t.display.calls ++ t.stringCalls str t.linear ∧
      Frame t t' ∧ t'.scrollValue = t.scrollValue ∧
      t'.cursorX.toNat < t.screenWidth.toNat ∧ t'.linear = t.linear + str.length := by
  have hshown : FullScreen (t.shown (t.stringCalls str t.linear)) := hscreen.of_frame rfl
  obtain ⟨hlinear, hx'⟩ := linear_atCell hshown hfit
  exact ⟨_, vt100Puts_text fuel str hstr hidle hscreen hx hfit, rfl, rfl, rfl, hx', hlinear⟩

/-- Three bytes on a screen of three columns and two rows, from the second cell on. -/
theorem vt100Puts_print_wrapped :
    ∃ t', vt100Puts 1 { freshTerminal 3 2 with cursorX := 1 } [97, 98, 99] = .done t' ∧
      t'.display.calls
        = [.moveCursor 1 0, .put 97 0xffff 0, .moveCursor 2 0, .put 98 0xffff 0,
          .moveCursor 0 1, .put 99 0xffff 0] ∧
      t'.scrollValue = 0 ∧ t'.linear = 4 := by
  have hstr : ∀ c ∈ ([97, 98, 99] : List (BitVec 8)), Control.ofChar c = .print := by decide
  obtain ⟨t', hrun, hcalls, -, hvalue, -, hlinear⟩ :=
    vt100Puts_print (t := { freshTerminal 3 2 with cursorX := 1 }) 0 rfl
      ⟨by decide, by decide, by decide, rfl, rfl, rfl⟩ (by decide) hstr (by decide)
  exact ⟨t', hrun, hcalls, hvalue, hlinear⟩

end Vt100

end Martink
