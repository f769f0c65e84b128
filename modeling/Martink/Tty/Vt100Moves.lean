import Martink.Tty.Vt100

/-!
# Moving, scrolling and printing

The facts about the mutual recursion that do not depend on where it starts:

* nothing but the cursor, the scroll value and the display's log changes (`Vt100.frame_putc`);
* wherever the cursor was, scrolling leaves it in column 0 of a row that only the region and the
  number of lines decide (`Vt100.scroll_cursor`), so that a move ends at `Vt100.rowMove`;
* inside a row printing is a step to the right (`Vt100.putc_inside`), and at the margin it is a move
  by one row (`Vt100.putc_margin`).

`Vt100.PrintRule` is the induction over that recursion: what drawing a character and the moves of
the cursor keep is kept by printing, scrolling and clearing lines. `Vt100.clearLines_sat` reduces
clearing lines to printing blanks, cell by cell.
-/

namespace Martink

namespace Vt100

/-! ## What stays -/

/-- The terminal without what printing changes. -/
def settings (t : Vt100) : Vt100 :=
  { t with cursorX := 0, cursorY := 0, scrollValue := 0, display := { t.display with calls := [] } }

/-- `t'` differs from `t` at most in the cursor, the scroll value and the display's log. -/
def Frame (t t' : Vt100) : Prop := t'.settings = t.settings

namespace Frame

variable {t t' t'' : Vt100}

theorem refl (t : Vt100) : Frame t t := rfl

theorem trans (h : Frame t t') (h' : Frame t' t'') : Frame t t'' := Eq.trans h' h

theorem cursor (t : Vt100) (x y : BitVec 16) : Frame t { t with cursorX := x, cursorY := y } := rfl

theorem draw (t : Vt100) (ch : BitVec 8) : Frame t (t.draw ch) := rfl

/-- Code that keeps its start's settings keeps those of any state with the same settings. -/
theorem sat {o : Vt100Run} (h : Frame t t')
    (ho : o.Sat (Frame t') fun e s ↦ e ≠ .args ∧ Frame t' s) :
    o.Sat (Frame t) fun e s ↦ e ≠ .args ∧ Frame t s :=
  ho.mono (fun _ ↦ h.trans) fun _ _ h' ↦ ⟨h'.1, h.trans h'.2⟩

theorem screenWidth (h : Frame t t') : t'.screenWidth = t.screenWidth :=
  congrArg (fun u ↦ u.screenWidth) h

theorem screenHeight (h : Frame t t') : t'.screenHeight = t.screenHeight :=
  congrArg (fun u ↦ u.screenHeight) h

theorem cursorWrap (h : Frame t t') : t'.cursorWrap = t.cursorWrap :=
  congrArg (fun u ↦ u.cursorWrap) h

theorem scrollStartRow (h : Frame t t') : t'.scrollStartRow = t.scrollStartRow :=
  congrArg (fun u ↦ u.scrollStartRow) h

theorem scrollEndRow (h : Frame t t') : t'.scrollEndRow = t.scrollEndRow :=
  congrArg (fun u ↦ u.scrollEndRow) h

theorem savedCursorX (h : Frame t t') : t'.savedCursorX = t.savedCursorX :=
  congrArg (fun u ↦ u.savedCursorX) h

theorem savedCursorY (h : Frame t t') : t'.savedCursorY = t.savedCursorY :=
  congrArg (fun u ↦ u.savedCursorY) h

theorem state (h : Frame t t') : t'.state = t.state :=
  congrArg (fun u ↦ u.state) h

theorem width (h : Frame t t') : t'.display.width = t.display.width :=
  congrArg (fun u ↦ u.display.width) h

theorem height (h : Frame t t') : t'.display.height = t.display.height :=
  congrArg (fun u ↦ u.display.height) h

end Frame

/-- Printing a character of `C` keeps `I`, whether `putc` is done or stuck, and has nothing to do
with the parameters. -/
def Keeps (C : BitVec 8 → Prop) (putc : BitVec 8 → Vt100 → Vt100Run) (I : Vt100 → Prop) : Prop :=
  ∀ ch t, C ch → I t → (putc ch t).Sat I fun e s ↦ e ≠ .args ∧ I s

/-- What has to be shown of `I` for the recursion to keep it: the assignments that it makes, and its
display calls. Whatever is printed, the recursion prints blanks. -/
structure PrintRule (C : BitVec 8 → Prop) (I : Vt100 → Prop) : Prop where
  /-- A blank may be printed. -/
  blank : C (ascii ' ')
  /-- A character is drawn. -/
  draw : ∀ ch t, C ch → I t → I (t.draw ch)
  /-- The cursor moves in its row. -/
  column : ∀ t x rows, I t →
    column t.screenWidth t.cursorWrap t.cursorX 1 0 = some (x, rows) → I { t with cursorX := x }
  /-- It moves to the first column. -/
  home : ∀ t, I t → I { t with cursorX := 0 }
  /-- It moves to a row. -/
  row : ∀ t y, I t → I { t with cursorY := y }
  /-- The scroll value is set. -/
  scrollValue : ∀ t v, I t → I { t with scrollValue := v }

namespace PrintRule

variable {C : BitVec 8 → Prop} {I : Vt100 → Prop} {putc : BitVec 8 → Vt100 → Vt100Run} {t : Vt100}

theorem blanks (rule : PrintRule C I) (hputc : Keeps C putc I) (n : ℕ) (h : I t) :
    (blanks putc n t).Sat I fun e s ↦ e ≠ .args ∧ I s :=
  Outcome.Sat.forRange (I := fun _ ↦ I) n (fun _ t' _ _ h' ↦ hputc _ t' rule.blank h') h

theorem clearRows (rule : PrintRule C I) (hputc : Keeps C putc I) (lo n : ℕ) (h : I t) :
    (Outcome.forRange (fun c self ↦ Vt100.blanks putc self.screenWidth.toNat
      { self with cursorY := u16 c, cursorX := 0 }) lo n t).Sat I fun e s ↦ e ≠ .args ∧ I s :=
  Outcome.Sat.forRange (I := fun _ ↦ I) n
    (fun c _ _ _ h' ↦ rule.blanks hputc _ (rule.home _ (rule.row _ (u16 c) h'))) h

theorem clearLines (rule : PrintRule C I) (hputc : Keeps C putc I) (startLine endLine : BitVec 16)
    (h : I t) : (clearLines putc startLine endLine t).Sat I fun e s ↦ e ≠ .args ∧ I s :=
  (rule.clearRows hputc _ _ h).andThen fun _ h' ↦
    Outcome.sat_done (rule.row _ startLine (rule.home _ h'))

theorem setScrollValue (rule : PrintRule C I) (scrollHeight : BitVec 16) (lines : ℤ) (h : I t) :
    (setScrollValue scrollHeight lines t).Sat I fun e s ↦ e ≠ .args ∧ I s := by
  rw [Vt100.setScrollValue]
  split_ifs
  · exact Outcome.sat_stuck ⟨nofun, h⟩
  · exact Outcome.sat_done (rule.scrollValue _ _ h)

theorem scroll (rule : PrintRule C I) (hputc : Keeps C putc I) (lines : ℤ) (h : I t) :
    (scroll putc lines t).Sat I fun e s ↦ e ≠ .args ∧ I s := by
  rw [Vt100.scroll]
  split_ifs
  · exact (rule.clearLines hputc _ _ h).andThen fun t' h' ↦ rule.setScrollValue _ _ h'
  · exact (rule.clearLines hputc _ _ h).andThen fun t' h' ↦ rule.setScrollValue _ _ h'
  · exact Outcome.sat_done h

theorem moveRow (rule : PrintRule C I) (hputc : Keeps C putc I) (bottomTop : ℤ) (h : I t) :
    (moveRow putc bottomTop t).Sat I fun e s ↦ e ≠ .args ∧ I s := by
  rw [Vt100.moveRow]
  split_ifs
  · exact Outcome.sat_done h
  · exact rule.scroll hputc _ (rule.row _ _ h)

theorem moveOne (rule : PrintRule C I) (hputc : Keeps C putc I) (h : I t) :
    (move putc 1 0 t).Sat I fun e s ↦ e ≠ .args ∧ I s := by
  rw [move]
  split
  · exact Outcome.sat_stuck ⟨nofun, h⟩
  · next hcolumn => exact rule.moveRow hputc _ (rule.column _ _ _ h hcolumn)

/-- **The recursion keeps what its steps keep.** -/
theorem keeps (rule : PrintRule C I) (fuel : ℕ) : Keeps C (Vt100.putc fuel) I := by
  induction fuel with
  | zero => exact fun _ t _ h ↦ Outcome.sat_stuck ⟨nofun, h⟩
  | succ fuel ih => exact fun ch t hch h ↦ rule.moveOne ih (rule.draw ch t hch h)

end PrintRule

theorem frame_rule (t : Vt100) : PrintRule (fun _ ↦ True) (Frame t) where
  blank := trivial
  draw ch t' _ h := h.trans (Frame.draw t' ch)
  column t' x _ h _ := h.trans (Frame.cursor t' x t'.cursorY)
  home t' h := h.trans (Frame.cursor t' 0 t'.cursorY)
  row t' y h := h.trans (Frame.cursor t' t'.cursorX y)
  scrollValue _ _ h := h.trans rfl

/-- `putc` keeps the settings. -/
def KeepsFrame (putc : BitVec 8 → Vt100 → Vt100Run) : Prop :=
  ∀ ch t, (putc ch t).Sat (Frame t) fun e s ↦ e ≠ .args ∧ Frame t s

section Frames

variable {putc : BitVec 8 → Vt100 → Vt100Run}

theorem KeepsFrame.keeps (hputc : KeepsFrame putc) (t : Vt100) :
    Keeps (fun _ ↦ True) putc (Frame t) :=
  fun ch t' _ h ↦ h.sat (hputc ch t')

theorem frame_blanks (hputc : KeepsFrame putc) (n : ℕ) (t : Vt100) :
    (blanks putc n t).Sat (Frame t) fun e s ↦ e ≠ .args ∧ Frame t s :=
  (frame_rule t).blanks (hputc.keeps t) n (Frame.refl t)

theorem frame_clearLines (hputc : KeepsFrame putc) (startLine endLine : BitVec 16) (t : Vt100) :
    (clearLines putc startLine endLine t).Sat (Frame t) fun e s ↦ e ≠ .args ∧ Frame t s :=
  (frame_rule t).clearLines (hputc.keeps t) _ _ (Frame.refl t)

theorem frame_scroll (hputc : KeepsFrame putc) (lines : ℤ) (t : Vt100) :
    (scroll putc lines t).Sat (Frame t) fun e s ↦ e ≠ .args ∧ Frame t s :=
  (frame_rule t).scroll (hputc.keeps t) _ (Frame.refl t)

theorem frame_moveRow (hputc : KeepsFrame putc) (bottomTop : ℤ) (t : Vt100) :
    (moveRow putc bottomTop t).Sat (Frame t) fun e s ↦ e ≠ .args ∧ Frame t s :=
  (frame_rule t).moveRow (hputc.keeps t) _ (Frame.refl t)

theorem frame_move (hputc : KeepsFrame putc) (rightLeft bottomTop : ℤ) (t : Vt100) :
    (move putc rightLeft bottomTop t).Sat (Frame t) fun e s ↦ e ≠ .args ∧ Frame t s := by
  rw [move]
  split
  · exact Outcome.sat_stuck ⟨nofun, Frame.refl t⟩
  · exact (Frame.cursor t _ t.cursorY).sat (frame_moveRow hputc _ _)

end Frames

/-- **The frame of the recursion.** -/
theorem frame_putc (fuel : ℕ) : KeepsFrame (putc fuel) :=
  fun ch t ↦ (frame_rule t).keeps fuel ch t trivial (Frame.refl t)

/-! ## Columns -/

section Columns

variable {screenWidth cursorX : BitVec 16} {cursorWrap : Bool}

theorem column_inside (hwidth : screenWidth.toNat ≤ 2 ^ 15)
    (hx : cursorX.toNat + 1 < screenWidth.toNat) :
    column screenWidth cursorWrap cursorX 1 0 = some (cursorX + 1, 0) := by
  have hs : s16 (1 + cursorX.toNat) = cursorX.toNat + 1 := by rw [s16]; omega
  have hnext : u16 (cursorX.toNat + 1) = cursorX + 1 := by
    apply BitVec.eq_of_toNat_eq
    have := toNat_u16_of_lt (z := cursorX.toNat + 1) (by omega) (by omega)
    rw [BitVec.toNat_add]
    simp
    omega
  rcases Nat.lt_or_eq_of_le hwidth with hlt | heq
  · have hw : s16 screenWidth.toNat = screenWidth.toNat := s16_of_range (by omega) (by omega)
    rw [column, hs, hw, if_neg (by omega), if_neg (by omega), hnext]
  · -- the width is -2 ^ 15 as an `int16_t`, and the quotient is 0
    have hw : s16 screenWidth.toNat = -(32768 : ℕ) := by rw [heq]; decide
    have hsmall : cursorX.toNat + 1 < 32768 := by omega
    have hquot : (cursorX.toNat + 1 : ℤ).tdiv (32768 : ℕ) = 0 :=
      congrArg Nat.cast (Nat.div_eq_of_lt hsmall)
    have hrem : (cursorX.toNat + 1 : ℤ).tmod (32768 : ℕ) = cursorX.toNat + 1 :=
      congrArg Nat.cast (Nat.mod_eq_of_lt hsmall)
    have hne : (-(32768 : ℕ) : ℤ) ≠ 0 := by decide
    rw [column, hs, hw, if_pos (by omega), if_neg hne, Int.tmod_neg, Int.tdiv_neg,
      hquot, hrem, hnext]
    exact ite_self _

theorem column_margin (hx : cursorX.toNat + 1 = screenWidth.toNat) :
    column screenWidth cursorWrap cursorX 1 0
      = if cursorWrap then some (0, 1) else some (screenWidth, 0) := by
  have hs : s16 (1 + cursorX.toNat) = s16 screenWidth.toNat := by rw [← hx, add_comm]; rfl
  have hlt := screenWidth.isLt
  have hwidth : s16 screenWidth.toNat ≠ 0 := by rw [s16]; omega
  have hback : u16 (s16 screenWidth.toNat) = screenWidth := by
    apply BitVec.eq_of_toNat_eq
    have := toNat_u16 (s16 screenWidth.toNat)
    rw [s16] at this ⊢
    omega
  rw [column, hs, if_pos le_rfl, if_neg hwidth, Int.tmod_self, Int.tdiv_self hwidth, hback]
  rfl

/-- Moving to another row. -/
theorem column_stay (hwidth : screenWidth.toNat < 2 ^ 15) (hx : cursorX.toNat < screenWidth.toNat)
    (bottomTop : ℤ) :
    column screenWidth cursorWrap cursorX 0 bottomTop = some (cursorX, bottomTop) := by
  have hs : s16 (0 + cursorX.toNat) = cursorX.toNat := by rw [s16]; omega
  have hw : s16 screenWidth.toNat = screenWidth.toNat := s16_of_range (by omega) (by omega)
  rw [column, hs, hw, if_neg (by omega), if_neg (by omega), u16_toNat]

/-- Moving left inside the row. -/
theorem column_left (hwidth : screenWidth.toNat < 2 ^ 15) {n : ℕ} (hn : n ≤ cursorX.toNat)
    (hx : cursorX.toNat < screenWidth.toNat + n) (hx' : cursorX.toNat < 2 ^ 15) :
    column screenWidth cursorWrap cursorX (s16 (-n)) 0
      = some (u16 (cursorX.toNat - n), 0) := by
  have hneg : s16 (-n) = -n := s16_of_range (by omega) (by omega)
  have hs : s16 (-n + cursorX.toNat) = cursorX.toNat - n := by rw [s16]; omega
  have hw : s16 screenWidth.toNat = screenWidth.toNat := s16_of_range (by omega) (by omega)
  rw [column, hneg, hs, hw, if_neg (by omega), if_neg (by omega)]

/-! A screen of `2 ^ 15` columns and more has a negative width. -/

variable {m k : ℕ} {rightLeft bottomTop : ℤ}

theorem s16_width (hwidth : 2 ^ 15 ≤ screenWidth.toNat) (hm : 65536 - screenWidth.toNat = m) :
    s16 screenWidth.toNat = -m := by
  have hlt := screenWidth.isLt
  rw [s16]
  omega

theorem column_wide_right (hwidth : 2 ^ 15 ≤ screenWidth.toNat)
    (hm : 65536 - screenWidth.toNat = m) (hs : s16 (rightLeft + cursorX.toNat) = k) :
    column screenWidth true cursorX rightLeft bottomTop
      = some (u16 ↑(k % m), s16 (bottomTop - ↑(k / m))) := by
  have hlt := screenWidth.isLt
  rw [column, hs, s16_width hwidth hm, if_pos (by omega), if_pos rfl, if_neg (by omega),
    Int.tmod_neg, Int.tdiv_neg, sub_eq_add_neg]
  rfl

theorem column_wide_left (hwidth : 2 ^ 15 ≤ screenWidth.toNat)
    (hm : 65536 - screenWidth.toNat = m) (hs : s16 (rightLeft + cursorX.toNat) = -k) (hk : k ≤ m) :
    column screenWidth true cursorX rightLeft bottomTop
      = some (u16 (-↑(k % m)), s16 (bottomTop + ↑(k / m))) := by
  have hlt := screenWidth.isLt
  rw [column, hs, s16_width hwidth hm, if_pos (by omega), if_pos rfl, if_neg (by omega),
    Int.tmod_neg, Int.tdiv_neg, Int.neg_tmod, Int.neg_tdiv, neg_neg]
  rfl

theorem column_wide_far (hwidth : 2 ^ 15 ≤ screenWidth.toNat)
    (hm : 65536 - screenWidth.toNat = m) (hs : s16 (rightLeft + cursorX.toNat) = -k) (hk : m < k) :
    column screenWidth cursorWrap cursorX rightLeft bottomTop
      = some (u16 (-m - ↑(k % m) + 1), s16 (bottomTop + (↑(k / m) - 1))) := by
  have hlt := screenWidth.isLt
  rw [column, hs, s16_width hwidth hm, if_neg (by omega), if_pos (by omega), if_neg (by omega),
    Int.natAbs_neg, Int.natAbs_natCast, Int.tmod_neg, Int.tdiv_neg, Int.neg_tdiv, neg_neg]
  rfl

end Columns

/-! ## Rows -/

def cursor (t : Vt100) : BitVec 16 × BitVec 16 := (t.cursorX, t.cursorY)

theorem cursorX_of_cursor {t : Vt100} {p : BitVec 16 × BitVec 16} (h : t.cursor = p) :
    t.cursorX = p.1 := congrArg Prod.fst h

theorem cursorY_of_cursor {t : Vt100} {p : BitVec 16 × BitVec 16} (h : t.cursor = p) :
    t.cursorY = p.2 := congrArg Prod.snd h

/-- The lines that `_vt100_scroll` gets when the cursor moves to row `newY`. -/
def lines (scrollStartRow scrollEndRow newY : BitVec 16) : ℤ :=
  s16 (toScroll scrollStartRow scrollEndRow newY).toNat

/-- Where a move from column `x` to row `newY` ends: in the row itself, or wherever the scrolling
leaves the cursor. -/
def rowMove (scrollStartRow scrollEndRow x newY : BitVec 16) : BitVec 16 × BitVec 16 :=
  let n := lines scrollStartRow scrollEndRow newY
  if 0 < n then (0, scrollStartRow)
  else if n < 0 then (0, u16 (scrollEndRow.toNat - n))
  else (x, parkRow scrollStartRow scrollEndRow newY)

section Lines

variable {start stop y : BitVec 16}

theorem lines_below (h : stop.toNat ≤ y.toNat) :
    lines start stop y = s16 (y.toNat - stop.toNat + 1) := by
  rw [lines, toScroll, if_pos (BitVec.le_def.mpr h), s16_toNat_u16]

theorem lines_above (h : y.toNat < stop.toNat) (h' : y.toNat < start.toNat) :
    lines start stop y = s16 (y.toNat - start.toNat) := by
  have hle : ¬stop ≤ y := by rw [BitVec.le_def]; omega
  rw [lines, toScroll, if_neg hle, if_pos (BitVec.lt_def.mpr h'), s16_toNat_u16]

theorem lines_inside (h : y.toNat < stop.toNat) (h' : start.toNat ≤ y.toNat) :
    lines start stop y = 0 := by
  have hle : ¬stop ≤ y := by rw [BitVec.le_def]; omega
  have hlt : ¬y < start := by rw [BitVec.lt_def]; omega
  rw [lines, toScroll, if_neg hle, if_neg hlt]
  simp [s16]

theorem parkRow_inside (h : y.toNat < stop.toNat) (h' : start.toNat ≤ y.toNat) :
    parkRow start stop y = y := by
  rw [parkRow, if_neg (by rw [BitVec.le_def]; omega), if_neg (by rw [BitVec.lt_def]; omega)]

theorem lines_eq_ite (start stop y : BitVec 16) :
    lines start stop y = if stop.toNat ≤ y.toNat then s16 (y.toNat - stop.toNat + 1)
      else if y.toNat < start.toNat then s16 (y.toNat - start.toNat) else 0 := by
  split_ifs with hbelow habove
  · exact lines_below hbelow
  · exact lines_above (by omega) habove
  · exact lines_inside (by omega) (by omega)

end Lines

section Rows

variable {putc : BitVec 8 → Vt100 → Vt100Run}

theorem moveRow_eq {bottomTop : ℤ} (h : bottomTop ≠ 0) (t : Vt100) :
    let newY := u16 (t.cursorY.toNat + bottomTop)
    moveRow putc bottomTop t
      = scroll putc (lines t.scrollStartRow t.scrollEndRow newY)
          { t with cursorY := parkRow t.scrollStartRow t.scrollEndRow newY } := by
  rw [moveRow, if_neg h]
  rfl

/-- A move by rows is a scroll by the lines of the row it aims at. -/
theorem moveRow_sat {t₀ t : Vt100} {Q : Vt100 → Prop} {X : Vt100Fault → Vt100 → Prop}
    {bottomTop : ℤ} (hrows : bottomTop ≠ 0) (hframe : Frame t₀ t)
    (hscroll : ∀ y, (scroll putc (lines t₀.scrollStartRow t₀.scrollEndRow
      (u16 (t.cursorY.toNat + bottomTop))) { t with cursorY := y }).Sat Q X) :
    (moveRow putc bottomTop t).Sat Q X := by
  have hmoved := hscroll
    (parkRow t.scrollStartRow t.scrollEndRow (u16 (t.cursorY.toNat + bottomTop)))
  rw [← hframe.scrollStartRow, ← hframe.scrollEndRow] at hmoved
  rw [moveRow_eq hrows]
  exact hmoved

theorem setScrollValue_cursor (scrollHeight : BitVec 16) (n : ℤ) (t : Vt100) :
    (setScrollValue scrollHeight n t).Sat (fun t' ↦ t'.cursor = t.cursor) fun _ _ ↦ True := by
  rw [setScrollValue]
  split_ifs
  · exact Outcome.sat_stuck trivial
  · exact Outcome.sat_done rfl

theorem clearLines_cursor (startLine endLine : BitVec 16) (t : Vt100) :
    (clearLines putc startLine endLine t).Sat (fun t' ↦ t'.cursor = (0, startLine))
      fun _ _ ↦ True := by
  refine Outcome.Sat.andThen (Q := fun _ ↦ True) ⟨fun _ ↦ trivial, fun _ ↦ trivial⟩ ?_
  exact fun t' _ ↦ Outcome.sat_done rfl

/-- Scrolling puts the cursor at the start of the region, or of the line it has cleared to. -/
theorem scroll_cursor (n : ℤ) (t : Vt100) :
    (scroll putc n t).Sat (fun t' ↦ t'.cursor =
      if 0 < n then (0, t.scrollStartRow)
      else if n < 0 then (0, u16 (t.scrollEndRow.toNat - n)) else t.cursor) fun _ _ ↦ True := by
  rw [scroll]
  split_ifs
  · refine Outcome.Sat.andThen (clearLines_cursor _ _ t) fun t' h ↦ ?_
    exact (setScrollValue_cursor _ _ t').mono (fun _ h' ↦ h'.trans h) fun _ _ _ ↦ trivial
  · refine Outcome.Sat.andThen (clearLines_cursor _ _ t) fun t' h ↦ ?_
    exact (setScrollValue_cursor _ _ t').mono (fun _ h' ↦ h'.trans h) fun _ _ _ ↦ trivial
  · exact Outcome.sat_done rfl

/-- **Where a move ends.** -/
theorem moveRow_cursor {bottomTop : ℤ} (h : bottomTop ≠ 0) (t : Vt100) :
    (moveRow putc bottomTop t).Sat (fun t' ↦ t'.cursor = rowMove t.scrollStartRow t.scrollEndRow
      t.cursorX (u16 (t.cursorY.toNat + bottomTop))) fun _ _ ↦ True := by
  rw [moveRow_eq h]
  exact scroll_cursor _ _

/-- A move to a row of the region does not scroll. -/
theorem moveRow_inside {rows : ℤ} {t : Vt100}
    (hstart : t.scrollStartRow.toNat ≤ t.cursorY.toNat + rows)
    (hend : t.cursorY.toNat + rows < t.scrollEndRow.toNat) :
    moveRow putc rows t = .done { t with cursorY := u16 (t.cursorY.toNat + rows) } := by
  rcases eq_or_ne rows 0 with rfl | hrows
  · rw [moveRow, if_pos rfl, add_zero, u16_toNat]
  have hlt := t.scrollEndRow.isLt
  have hrow := toNat_u16_of_lt (z := t.cursorY.toNat + rows) (by omega) (by omega)
  rw [moveRow_eq hrows, lines_inside (by omega) (by omega), parkRow_inside (by omega) (by omega)]
  rfl

/-- Lines that are above the last line to clear are not printed. -/
theorem clearLines_of_lt {startLine endLine : BitVec 16} (h : endLine.toNat < startLine.toNat)
    (t : Vt100) :
    clearLines putc startLine endLine t = .done { t with cursorX := 0, cursorY := startLine } := by
  rw [clearLines, Nat.sub_eq_zero_of_le h]
  rfl

/-- Scrolling down prints nothing, as long as the region's end and the lines add up in 16 bits. -/
theorem scroll_of_neg {n : ℤ} {t : Vt100} (hn : n < 0) (hend : 1 ≤ t.scrollEndRow.toNat)
    (hsum : t.scrollEndRow.toNat - n ≤ 65535) :
    let height := u16 (t.scrollEndRow.toNat - t.scrollStartRow.toNat)
    scroll putc n t = setScrollValue height (height.toNat + t.scrollValue.toNat + n)
      { t with cursorX := 0, cursorY := u16 (t.scrollEndRow.toNat - n) } := by
  have hstart := toNat_u16_of_lt (z := t.scrollEndRow.toNat - n) (by omega) (by omega)
  have hstop := toNat_u16_of_lt (z := t.scrollEndRow.toNat - 1) (by omega) (by omega)
  rw [scroll, if_neg (by omega), if_pos hn, clearLines_of_lt (by omega)]
  rfl

end Rows

/-! ## Printing -/

section Printing

variable {fuel : ℕ} {ch : BitVec 8} {t : Vt100}

theorem move_of_column {putc : BitVec 8 → Vt100 → Vt100Run} {rightLeft bottomTop rows : ℤ}
    {x : BitVec 16}
    (h : column t.screenWidth t.cursorWrap t.cursorX rightLeft bottomTop = some (x, rows)) :
    move putc rightLeft bottomTop t = moveRow putc rows { t with cursorX := x } := by
  rw [move, h]

theorem moveRow_zero {putc : BitVec 8 → Vt100 → Vt100Run} (t : Vt100) :
    moveRow putc 0 t = .done t := rfl

theorem putc_inside (hwidth : t.screenWidth.toNat ≤ 2 ^ 15)
    (hx : t.cursorX.toNat + 1 < t.screenWidth.toNat) :
    putc (fuel + 1) ch t = .done { t.draw ch with cursorX := t.cursorX + 1 } := by
  have hcolumn : column (t.draw ch).screenWidth (t.draw ch).cursorWrap (t.draw ch).cursorX 1 0
      = some (t.cursorX + 1, 0) := column_inside hwidth hx
  rw [putc, move_of_column hcolumn, moveRow_zero]

/-- At the right margin the cursor stays behind the last column, or goes to the next row. -/
theorem putc_margin (hx : t.cursorX.toNat + 1 = t.screenWidth.toNat) :
    putc (fuel + 1) ch t =
      if t.cursorWrap then moveRow (putc fuel) 1 { t.draw ch with cursorX := 0 }
      else .done { t.draw ch with cursorX := t.screenWidth } := by
  have hcolumn : column (t.draw ch).screenWidth (t.draw ch).cursorWrap (t.draw ch).cursorX 1 0
      = if t.cursorWrap then some (0, 1) else some (t.screenWidth, 0) := column_margin hx
  rw [putc]
  by_cases hwrap : t.cursorWrap = true
  · rw [if_pos hwrap] at hcolumn ⊢
    exact move_of_column hcolumn
  · rw [if_neg hwrap] at hcolumn ⊢
    exact move_of_column hcolumn

variable {putc : BitVec 8 → Vt100 → Vt100Run} {w c : BitVec 16} {P : Vt100 → Prop}
  {X : Vt100Fault → Vt100 → Prop}

/-- What clearing a row needs of printing: a blank in row `c` keeps `P`, and inside the row the
cursor goes one to the right. -/
def PrintsCell (putc : BitVec 8 → Vt100 → Vt100Run) (w c : BitVec 16) (P : Vt100 → Prop)
    (X : Vt100Fault → Vt100 → Prop) : Prop :=
  ∀ t, P t → t.cursorX.toNat < w.toNat → t.cursorY = c →
    (putc (ascii ' ') t).Sat
      (fun t' ↦ P t' ∧ (t.cursorX.toNat + 1 < w.toNat → t'.cursor = (t.cursorX + 1, c))) X

/-- At the margin it is enough that the move to the next row keeps `P`. -/
theorem printsCell_of_moveRow {f : ℕ} (hw : w.toNat ≤ 2 ^ 15)
    (hwidth : ∀ t, P t → t.screenWidth = w)
    (hcursor : ∀ t x y, P t → P { t with cursorX := x, cursorY := y })
    (hdraw : ∀ t, P t → t.cursorX.toNat < w.toNat → t.cursorY = c → P (t.draw (ascii ' ')))
    (hrow : ∀ t, P t → t.cursorY = c → t.cursorWrap = true →
      (moveRow (Vt100.putc f) 1 t).Sat P X) :
    PrintsCell (Vt100.putc (f + 1)) w c P X := by
  intro t hP hx hy
  have hwidth_t := hwidth t hP
  have hkeep : ∀ x, P { t.draw (ascii ' ') with cursorX := x } :=
    fun x ↦ hcursor _ x (t.draw (ascii ' ')).cursorY (hdraw t hP hx hy)
  rw [← hwidth_t] at hw hx ⊢
  -- only the last column of the line moves by a row
  rcases Nat.lt_or_ge (t.cursorX.toNat + 1) t.screenWidth.toNat with hinside | hmargin
  · rw [putc_inside hw hinside]
    exact Outcome.sat_done ⟨hkeep _, fun _ ↦ by rw [← hy]; rfl⟩
  · rw [putc_margin (by omega)]
    split_ifs with hwrap
    · exact (hrow _ (hkeep 0) hy hwrap).mono (fun _ h ↦ ⟨h, fun hlt ↦ by omega⟩) fun _ _ h ↦ h
    · exact Outcome.sat_done ⟨hkeep _, fun hlt ↦ by omega⟩

/-- Blanks in a row. -/
theorem blanks_sat (hcell : PrintsCell putc w c P X) {n : ℕ} {t : Vt100} (hP : P t)
    (hn : t.cursorX.toNat + n ≤ w.toNat) (hrow : t.cursorY = c) :
    (blanks putc n t).Sat (fun t' ↦ P t' ∧ (t.cursorX.toNat + n < w.toNat →
      t'.cursorX.toNat = t.cursorX.toNat + n ∧ t'.cursorY = c)) X := by
  have hloop : (blanks putc n t).Sat (fun t' ↦ P t' ∧ (t.cursorX.toNat + (0 + n) < w.toNat →
      t'.cursorX.toNat = t.cursorX.toNat + (0 + n) ∧ t'.cursorY = c)) X := by
    refine Outcome.Sat.forRange (I := fun i t' ↦ P t' ∧ (t.cursorX.toNat + i < w.toNat →
      t'.cursorX.toNat = t.cursorX.toNat + i ∧ t'.cursorY = c)) n (fun i t' _ hi h ↦ ?_)
      ⟨hP, fun _ ↦ ⟨rfl, hrow⟩⟩
    obtain ⟨hP', hat⟩ := h
    obtain ⟨hx, hy⟩ := hat (by omega)
    refine (hcell t' hP' (by omega) hy).mono (fun t'' h ↦ ⟨h.1, fun hlt ↦ ?_⟩) fun _ _ h ↦ h
    have hcursor := h.2 (by omega)
    refine ⟨?_, cursorY_of_cursor hcursor⟩
    rw [cursorX_of_cursor hcursor, BitVec.toNat_add]
    simp
    omega
  rwa [Nat.zero_add] at hloop

/-- **Clearing lines.** What holds between the cells holds in the end. -/
theorem clearLines_sat {startLine endLine : BitVec 16}
    (hcell : ∀ c : BitVec 16, startLine.toNat ≤ c.toNat → c.toNat ≤ endLine.toNat →
      PrintsCell putc w c P X)
    (hwidth : ∀ t, P t → t.screenWidth = w)
    (hcursor : ∀ t x y, P t → P { t with cursorX := x, cursorY := y }) {t : Vt100} (hP : P t) :
    (clearLines putc startLine endLine t).Sat (fun t' ↦ P t' ∧ t'.cursor = (0, startLine)) X := by
  refine Outcome.Sat.andThen (Q := P) ?_ fun t' hP' ↦ Outcome.sat_done ⟨hcursor t' _ _ hP', rfl⟩
  refine Outcome.Sat.forRange (I := fun _ ↦ P) _ (fun i t' hlo hhi hP' ↦ ?_) hP
  have hi : (u16 i).toNat = i := by
    have := endLine.isLt
    rw [toNat_u16_natCast]
    omega
  have hrow := blanks_sat (n := t'.screenWidth.toNat) (hcell (u16 i) (by omega) (by omega))
    (hcursor t' 0 (u16 i) hP') (by rw [hwidth t' hP']; exact le_of_eq (Nat.zero_add _)) rfl
  exact hrow.mono (fun _ h ↦ h.1) fun _ _ h ↦ h

end Printing

end Vt100

end Martink
