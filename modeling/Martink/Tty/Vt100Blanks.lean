import Martink.Tty.Vt100Moves

/-!
# Rows of blanks

Tabs and erasing print blanks in a row. A blank moves the cursor one column to the right up to the
column `lineLimit`, which is the width on all screens of at most `2 ^ 15` columns
(`Vt100.column_next_iff`), so that `n` blanks draw the next `n` cells (`Vt100.blanks_run`); behind
the last column they end with a move to the next row (`Vt100.blanks_margin`).

Every blank is at least one cell on the display, and what is drawn stays in the log
(`Vt100.putc_grows`): a run whose cells are known has not printed anything else.
-/

namespace Martink

namespace Vt100

/-- The first column that blanks from the start of a row do not reach one by one. -/
def lineLimit (w : BitVec 16) (wrap : Bool) : ℕ :=
  if w.toNat ≤ 2 ^ 15 then w.toNat else if wrap then 65536 - w.toNat else 2 ^ 15

/-- `n` cells of row `y` from column `x` on. -/
def rowCells (x n : ℕ) (y : BitVec 16) : List (BitVec 16 × BitVec 16) :=
  (List.range' x n).map fun c : ℕ ↦ (u16 c, y)

/-- The calls that draw blanks in the cells. -/
def blankCalls (t : Vt100) (cells : List (BitVec 16 × BitVec 16)) : List TtyCall :=
  cells.flatMap fun p ↦ [.moveCursor p.1 p.2, .put (ascii ' ') t.frontColor t.backColor]

/-- The terminal after drawing blanks in the cells. -/
def blanked (t : Vt100) (cells : List (BitVec 16 × BitVec 16)) : Vt100 :=
  { t with display := { t.display with calls := t.display.calls ++ t.blankCalls cells } }

/-! ## The column -/

section Columns

variable {w x x' : BitVec 16} {wrap : Bool} {rows : ℤ}

theorem lineLimit_le (w : BitVec 16) (wrap : Bool) : lineLimit w wrap ≤ w.toNat := by
  rw [lineLimit]
  split_ifs <;> omega

theorem lineLimit_of_le (hw : w.toNat ≤ 2 ^ 15) : lineLimit w wrap = w.toNat := if_pos hw

theorem toNat_succ (hx : x.toNat + 1 < w.toNat) : (x + 1).toNat = x.toNat + 1 := by
  rw [BitVec.toNat_add]
  simp
  omega

/-- On a screen of negative width without line wrap. -/
theorem column_wide_off {k : ℕ} (hw : 2 ^ 15 < w.toNat) (hs : s16 (1 + x.toNat) = k) :
    column w false x 1 0 = some (u16 k, 0) := by
  have hneg : s16 w.toNat ≤ k := by rw [s16]; omega
  rw [column, hs, if_pos hneg]
  rfl

/-- **The next column**, and no other row. -/
theorem column_next_iff (hx : x.toNat + 1 < w.toNat) :
    column w wrap x 1 0 = some (x + 1, 0) ↔ x.toNat + 1 < lineLimit w wrap := by
  rcases Nat.lt_or_ge (2 ^ 15) w.toNat with hw | hw
  swap
  · rw [lineLimit_of_le hw]
    exact iff_of_true (column_inside hw hx) hx
  have hlt := w.isLt
  rw [lineLimit, if_neg (by omega)]
  generalize hm : 65536 - w.toNat = m
  have hnext := toNat_succ hx
  -- the new column, as the signed number that the code divides by the negative width
  rcases Nat.lt_or_ge (x.toNat + 1) (2 ^ 15) with hlow | hhigh
  · have hs : s16 (1 + x.toNat) = (x.toNat + 1 : ℕ) := by rw [s16]; omega
    have hcol : u16 (x.toNat + 1 : ℕ) = x + 1 := by
      apply BitVec.eq_of_toNat_eq
      rw [toNat_u16_natCast]
      omega
    cases wrap with
    | false =>
      rw [column_wide_off hw hs, hcol]
      exact iff_of_true rfl hlow
    | true =>
      -- with line wrap the quotient is a number of rows
      rw [column_wide_right hw.le hm hs, if_pos rfl, zero_sub]
      have hquot := Nat.div_le_self (x.toNat + 1) m
      rcases Nat.lt_or_ge (x.toNat + 1) m with hin | hout
      · rw [Nat.mod_eq_of_lt hin, Nat.div_eq_of_lt hin, hcol]
        exact iff_of_true rfl hin
      · have hpos := Nat.div_pos hout (by omega)
        refine iff_of_false (fun heq ↦ ?_) (by omega)
        have hrows := (Prod.mk.inj (Option.some.inj heq)).2
        rw [s16_of_range (by omega) (by omega)] at hrows
        omega
  · -- a move by one row would be none, but then the column is one too far
    have hs : s16 (1 + x.toNat) = -((65535 - x.toNat : ℕ) : ℤ) := by rw [s16]; omega
    generalize hk : 65535 - x.toNat = k at hs
    rw [column_wide_far hw.le hm hs (by omega), zero_add]
    have hone := Nat.div_pos (show m ≤ k by omega) (by omega)
    have hquot := Nat.div_le_self k m
    have hsplit := Nat.div_add_mod k m
    refine iff_of_false (fun heq ↦ ?_) (by split_ifs <;> omega)
    obtain ⟨hcol, hrows⟩ := Prod.mk.inj (Option.some.inj heq)
    rw [s16_of_range (by omega) (by omega)] at hrows
    have hquot' : k / m = 1 := by omega
    rw [hquot', Nat.mul_one] at hsplit
    have hcol' := congrArg BitVec.toNat hcol
    have hmod := toNat_u16 (-(m : ℤ) - ↑(k % m) + 1)
    omega

theorem column_rows_range (h : column w wrap x 1 0 = some (x', rows)) :
    -32768 ≤ rows ∧ rows < 32768 := by
  rw [column] at h
  split_ifs at h
  all_goals
    obtain ⟨-, rfl⟩ := Prod.mk.inj (Option.some.inj h)
    first
    | exact s16_range _
    | decide

end Columns

/-! ## What is drawn stays -/

section Grows

variable {f n : ℕ} {ch : BitVec 8} {t u : Vt100}

theorem grows_rule (calls : List TtyCall) :
    PrintRule (fun _ ↦ True) fun u ↦ calls <+: u.display.calls where
  blank := trivial
  draw ch t _ h := by
    rw [draw, ttyPut, ttyMoveCursor, List.append_assoc]
    exact h.trans (List.prefix_append _ _)
  column _ _ _ h _ := h
  home _ h := h
  row _ _ h := h
  scrollValue _ _ h := h

/-- What printing consists of. -/
theorem move_of_putc (h : putc f ch t = .done u) :
    ∃ g x rows, f = g + 1 ∧ column t.screenWidth t.cursorWrap t.cursorX 1 0 = some (x, rows) ∧
      moveRow (putc g) rows { t.draw ch with cursorX := x } = .done u := by
  rcases f with _ | g
  · cases h
  rw [putc, move] at h
  rcases hcolumn : column (t.draw ch).screenWidth (t.draw ch).cursorWrap (t.draw ch).cursorX 1 0
    with _ | ⟨x, rows⟩
  · rw [hcolumn] at h
    cases h
  · rw [hcolumn] at h
    exact ⟨g, x, rows, rfl, hcolumn, h⟩

theorem moveRow_grows {rows : ℤ} (h : moveRow (putc f) rows t = .done u) :
    t.display.calls <+: u.display.calls :=
  ((grows_rule t.display.calls).moveRow ((grows_rule _).keeps f) rows
    (List.prefix_refl _)).of_done h

theorem putc_grows (h : putc f ch t = .done u) : (t.draw ch).display.calls <+: u.display.calls := by
  obtain ⟨g, x, rows, -, -, hrow⟩ := move_of_putc h
  exact moveRow_grows (t := { t.draw ch with cursorX := x }) hrow

theorem putc_length (h : putc f ch t = .done u) :
    t.display.calls.length + 2 ≤ u.display.calls.length := by
  have hlen := (putc_grows h).length_le
  have hdraw : (t.draw ch).display.calls.length = t.display.calls.length + 2 := by
    rw [draw, ttyPut, ttyMoveCursor, List.append_assoc, List.length_append]
    rfl
  omega

theorem blanks_succ {putc : BitVec 8 → Vt100 → Vt100Run} (n : ℕ) (t : Vt100) :
    blanks putc (n + 1) t = (putc (ascii ' ') t).andThen (blanks putc n) := by
  rw [blanks, Outcome.forRange, Outcome.forRange_const _ n (0 + 1) 0]
  rfl

theorem blanks_add {putc : BitVec 8 → Vt100 → Vt100Run} (m n : ℕ) (t : Vt100) :
    blanks putc (m + n) t = (blanks putc m t).andThen (blanks putc n) := by
  rw [blanks, Outcome.forRange_add, Outcome.forRange_const _ n (0 + m) 0]
  rfl

theorem blanks_length : ∀ {n : ℕ} {t : Vt100}, blanks (putc f) n t = .done u →
    t.display.calls.length + 2 * n ≤ u.display.calls.length := by
  intro n
  induction n with
  | zero =>
    intro t h
    cases h
    exact le_rfl
  | succ n ih =>
    intro t h
    rw [blanks_succ] at h
    rcases hputc : putc f (ascii ' ') t with v | ⟨e, v⟩
    · rw [hputc] at h
      have hfirst := putc_length hputc
      have hrest := ih h
      omega
    · rw [hputc] at h
      cases h

theorem blanks_grows (h : blanks (putc f) (n + 1) t = .done u) :
    (t.draw (ascii ' ')).display.calls <+: u.display.calls := by
  rw [blanks_succ] at h
  rcases hputc : putc f (ascii ' ') t with v | ⟨e, v⟩
  · rw [hputc] at h
    refine (putc_grows hputc).trans ?_
    exact ((grows_rule v.display.calls).blanks ((grows_rule _).keeps f) n
      (List.prefix_refl _)).of_done h
  · rw [hputc] at h
    cases h

/-- Clearing lines prints on the first of them. -/
theorem clearLines_length {startLine endLine : BitVec 16} (hw : 1 ≤ t.screenWidth.toNat)
    (hle : startLine.toNat ≤ endLine.toNat)
    (h : clearLines (putc f) startLine endLine t = .done u) :
    t.display.calls.length < u.display.calls.length := by
  have hclear : (clearLines (putc f) startLine endLine t).Sat (fun u ↦ t.display.calls.length
      + 2 * t.screenWidth.toNat ≤ u.display.calls.length) fun _ _ ↦ True := ?_
  · have hlen := hclear.of_done h
    omega
  refine Outcome.Sat.andThen ?_ fun v hv ↦ Outcome.sat_done hv
  obtain ⟨n, hn⟩ : ∃ n, endLine.toNat + 1 - startLine.toNat = n + 1 :=
    Nat.exists_eq_add_of_le' (by omega)
  -- the first row prints its blanks, the rows after it take none back
  rw [hn, Outcome.forRange]
  refine Outcome.Sat.andThen (Q := fun v ↦ t.display.calls.length + 2 * t.screenWidth.toNat
    ≤ v.display.calls.length) ⟨fun hrow ↦ blanks_length hrow, fun _ ↦ trivial⟩ fun v hv ↦ ?_
  exact ((grows_rule v.display.calls).clearRows ((grows_rule _).keeps f) _ _
    (List.prefix_refl _)).mono (fun u hu ↦ hv.trans hu.length_le) fun _ _ _ ↦ trivial

end Grows

/-! ## Runs of blanks -/

/-- What a blank in the last column does besides drawing it. -/
def lineEnd (f : ℕ) (t : Vt100) : Vt100Run :=
  if t.cursorWrap then moveRow (putc f) 1 { t with cursorX := 0 }
  else .done { t with cursorX := t.screenWidth }

section Runs

variable {f n : ℕ} {t : Vt100}

theorem blanked_nil (t : Vt100) : t.blanked [] = t := by
  rw [blanked, blankCalls, List.flatMap_nil, List.append_nil]

theorem blankCalls_append (t : Vt100) (cells cells' : List (BitVec 16 × BitVec 16)) :
    t.blankCalls (cells ++ cells') = t.blankCalls cells ++ t.blankCalls cells' := by
  rw [blankCalls, List.flatMap_append]
  rfl

theorem blankCalls_cons (t : Vt100) (p : BitVec 16 × BitVec 16)
    (cells : List (BitVec 16 × BitVec 16)) :
    t.blankCalls (p :: cells)
      = .moveCursor p.1 p.2 :: .put (ascii ' ') t.frontColor t.backColor :: t.blankCalls cells := by
  rw [blankCalls, List.flatMap_cons]
  rfl

theorem length_blankCalls (t : Vt100) (cells : List (BitVec 16 × BitVec 16)) :
    (t.blankCalls cells).length = 2 * cells.length := by
  induction cells with
  | nil => rfl
  | cons p cells ih =>
    rw [blankCalls_cons, List.length_cons, List.length_cons, List.length_cons, ih]
    omega

theorem blanked_blanked (t : Vt100) (cells cells' : List (BitVec 16 × BitVec 16)) :
    (t.blanked cells).blanked cells' = t.blanked (cells ++ cells') := by
  rw [blanked, blanked, blanked, blankCalls_append, ← List.append_assoc]
  rfl

theorem Frame.blankCalls {t' : Vt100} (h : Frame t t') (cells : List (BitVec 16 × BitVec 16)) :
    t'.blankCalls cells = t.blankCalls cells := by
  have hfront : t'.frontColor = t.frontColor := congrArg (fun u ↦ u.frontColor) h
  have hback : t'.backColor = t.backColor := congrArg (fun u ↦ u.backColor) h
  rw [Vt100.blankCalls, Vt100.blankCalls, hfront, hback]

theorem draw_blank (t : Vt100) : t.draw (ascii ' ') = t.blanked [t.cursor] := by
  rw [draw, blanked, ttyPut, ttyMoveCursor, List.append_assoc]
  rfl

theorem calls_draw_blank (t : Vt100) : (t.draw (ascii ' ')).display.calls
    = t.display.calls ++ t.blankCalls [t.cursor] := by
  rw [draw_blank]
  rfl

theorem length_rowCells (x n : ℕ) (y : BitVec 16) : (rowCells x n y).length = n := by
  rw [rowCells, List.length_map, List.length_range']

theorem rowCells_succ (x n : ℕ) (y : BitVec 16) :
    rowCells x (n + 1) y = (u16 x, y) :: rowCells (x + 1) n y := by
  rw [rowCells, List.range'_succ, List.map_cons]
  rfl

theorem rowCells_concat (x n : ℕ) (y : BitVec 16) :
    rowCells x (n + 1) y = rowCells x n y ++ [(u16 (x + n : ℕ), y)] := by
  rw [rowCells, List.range'_concat, List.map_append, Nat.one_mul]
  rfl

theorem putc_blank (hx : t.cursorX.toNat + 1 < lineLimit t.screenWidth t.cursorWrap) :
    putc (f + 1) (ascii ' ') t = .done { t.blanked [t.cursor] with cursorX := t.cursorX + 1 } := by
  have hcolumn := (column_next_iff (lt_of_lt_of_le hx (lineLimit_le _ _))).mpr hx
  rw [← draw_blank, putc, move_of_column (t := t.draw (ascii ' ')) hcolumn, moveRow_zero]

/-- **Blanks inside the row.** -/
theorem blanks_run : ∀ {n : ℕ} {t : Vt100},
    (∀ c, t.cursorX.toNat ≤ c → c < t.cursorX.toNat + n →
      c + 1 < lineLimit t.screenWidth t.cursorWrap) →
    blanks (putc (f + 1)) n t = .done { t.blanked (rowCells t.cursorX.toNat n t.cursorY) with
      cursorX := u16 (t.cursorX.toNat + n : ℕ) } := by
  intro n
  induction n with
  | zero =>
    intro t _
    have hcells : t.blanked (rowCells t.cursorX.toNat 0 t.cursorY) = t := blanked_nil t
    have hcolumn : u16 (t.cursorX.toNat + 0 : ℕ) = t.cursorX := u16_toNat t.cursorX
    rw [hcells, hcolumn]
    rfl
  | succ n ih =>
    intro t h
    have hx := h t.cursorX.toNat le_rfl (by omega)
    have hnext := toNat_succ (lt_of_lt_of_le hx (lineLimit_le _ _))
    have hcells : (t.blanked [t.cursor]).blanked (rowCells (t.cursorX.toNat + 1) n t.cursorY)
        = t.blanked (rowCells t.cursorX.toNat (n + 1) t.cursorY) := by
      rw [blanked_blanked, rowCells_succ, u16_toNat]
      rfl
    have hrest := ih (t := { t.blanked [t.cursor] with cursorX := t.cursorX + 1 })
    dsimp only at hrest
    rw [hnext, Nat.add_right_comm] at hrest
    rw [blanks_succ, putc_blank hx, Outcome.andThen_done, ← hcells]
    exact hrest fun c hlo hhi ↦ h c (by omega) (by omega)

/-- **Blanks up to the last column.** -/
theorem blanks_margin (hx : t.cursorX.toNat + n + 1 = t.screenWidth.toNat)
    (h : ∀ c, t.cursorX.toNat ≤ c → c < t.cursorX.toNat + n →
      c + 1 < lineLimit t.screenWidth t.cursorWrap) :
    blanks (putc (f + 1)) (n + 1) t
      = lineEnd f (t.blanked (rowCells t.cursorX.toNat (n + 1) t.cursorY)) := by
  have hlt := t.screenWidth.isLt
  have hlast : (u16 (t.cursorX.toNat + n : ℕ)).toNat + 1 = t.screenWidth.toNat := by
    rw [toNat_u16_natCast]
    omega
  have hcells : (t.blanked (rowCells t.cursorX.toNat n t.cursorY)).blanked
      [(u16 (t.cursorX.toNat + n : ℕ), t.cursorY)]
        = t.blanked (rowCells t.cursorX.toNat (n + 1) t.cursorY) := by
    rw [blanked_blanked, rowCells_concat]
  have hone (u : Vt100) : blanks (putc (f + 1)) 1 u = putc (f + 1) (ascii ' ') u :=
    (blanks_succ 0 u).trans (Outcome.andThen_done_right _)
  rw [blanks_add, blanks_run h, Outcome.andThen_done, hone, putc_margin hlast, draw_blank, ← hcells]
  rfl

end Runs

/-! ## Scrolls that clear nothing -/

/-- A scroll by `n` lines clears row `r`. -/
def ScrollClears (start stop : BitVec 16) (n : ℤ) (r : BitVec 16) : Prop :=
  0 < n ∧ start.toNat ≤ r.toNat ∧ r.toNat ≤ (u16 (start.toNat + n - 1)).toNat ∨
    n < 0 ∧ (u16 (stop.toNat - n)).toNat ≤ r.toNat ∧ r.toNat ≤ (u16 (stop.toNat - 1)).toNat

instance (start stop : BitVec 16) (n : ℤ) (r : BitVec 16) :
    Decidable (ScrollClears start stop n r) := inferInstanceAs (Decidable (_ ∨ _))

/-- What `_vt100_scroll` takes modulo the height of the region. -/
def scrolled (scrollHeight scrollValue : BitVec 16) (n : ℤ) : ℤ :=
  if 0 < n then scrollValue.toNat + n else scrollHeight.toNat + scrollValue.toNat + n

section Silent

variable {f : ℕ} {t u : Vt100} {n : ℤ} {start stop y : BitVec 16}

/-- A scroll clears its lines and sets the scroll value. -/
theorem clearLines_of_scroll {putc : BitVec 8 → Vt100 → Vt100Run} (hn : n ≠ 0)
    (h : scroll putc n t = .done u) : ∃ (a b : BitVec 16) (v : Vt100) (value : BitVec 16),
      (∀ r, ScrollClears t.scrollStartRow t.scrollEndRow n r ↔ a.toNat ≤ r.toNat ∧
        r.toNat ≤ b.toNat) ∧
        clearLines putc a b t = .done v ∧ u = { v with scrollValue := value } := by
  -- clearing comes first; what follows only sets the scroll value
  have hparts {a b H : BitVec 16} {z : Vt100 → ℤ}
      (hdone : (clearLines putc a b t).andThen (fun t ↦ setScrollValue H (z t) t) = .done u) :
      ∃ v value, clearLines putc a b t = .done v ∧ u = { v with scrollValue := value } := by
    rcases hlines : clearLines putc a b t with v | ⟨e, v⟩
    · rw [hlines, Outcome.andThen_done, setScrollValue] at hdone
      split_ifs at hdone
      cases hdone
      exact ⟨v, _, rfl, rfl⟩
    · rw [hlines] at hdone
      cases hdone
  rw [scroll] at h
  rcases lt_or_gt_of_ne hn with hneg | hpos
  · rw [if_neg (by omega), if_pos hneg] at h
    obtain ⟨v, value, hclear, hu⟩ := hparts h
    refine ⟨_, _, v, value, fun r ↦ ?_, hclear, hu⟩
    rw [ScrollClears]
    omega
  · rw [if_pos hpos] at h
    obtain ⟨v, value, hclear, hu⟩ := hparts h
    refine ⟨_, _, v, value, fun r ↦ ?_, hclear, hu⟩
    rw [ScrollClears]
    omega

/-- A scroll that draws nothing. -/
theorem scroll_silent (hw : 1 ≤ t.screenWidth.toNat) (h : scroll (putc f) n t = .done u)
    (hcalls : u.display.calls = t.display.calls) (r : BitVec 16) :
    ¬ScrollClears t.scrollStartRow t.scrollEndRow n r := by
  intro hclears
  have hn : n ≠ 0 := by
    rw [ScrollClears] at hclears
    omega
  obtain ⟨a, b, v, value, hiff, hlines, rfl⟩ := clearLines_of_scroll hn h
  have hrange := (hiff r).mp hclears
  have hlen := clearLines_length hw (hrange.1.trans hrange.2) hlines
  exact hlen.ne (congrArg List.length hcalls).symm

/-- The other scrolls only change the cursor and the scroll value. -/
theorem scroll_of_silent (putc : BitVec 8 → Vt100 → Vt100Run) (hn : n ≠ 0)
    (h : ∀ r, ¬ScrollClears t.scrollStartRow t.scrollEndRow n r) :
    let height := u16 (t.scrollEndRow.toNat - t.scrollStartRow.toNat)
    scroll putc n t = setScrollValue height (scrolled height t.scrollValue n)
      { t with cursorX := 0,
               cursorY := if 0 < n then t.scrollStartRow else u16 (t.scrollEndRow.toNat - n) } := by
  intro height
  rcases lt_or_gt_of_ne hn with hneg | hpos
  · have hempty := h (u16 (t.scrollEndRow.toNat - n))
    rw [ScrollClears] at hempty
    have hup : ¬0 < n := by omega
    rw [scroll, if_neg hup, if_pos hneg, clearLines_of_lt (by omega), if_neg hup,
      show scrolled height t.scrollValue n = _ from if_neg hup]
    rfl
  · have hempty := h t.scrollStartRow
    rw [ScrollClears] at hempty
    rw [scroll, if_pos hpos, clearLines_of_lt (by omega), if_pos hpos,
      show scrolled height t.scrollValue n = _ from if_pos hpos]
    rfl

theorem parkRow_of_lines (h : lines start stop y = 0) : parkRow start stop y = y := by
  have hlines := lines_eq_ite start stop y
  have hy := y.isLt
  rw [h, s16, s16] at hlines
  rcases Nat.lt_or_ge y.toNat stop.toNat with habove | hbelow
  · have hinside : start.toNat ≤ y.toNat := by
      split_ifs at hlines <;> omega
    exact parkRow_inside habove hinside
  · -- the row 65535, and a region that ends at row 0
    have hlast : stop.toNat = 0 ∧ y.toNat = 65535 := by
      rw [if_pos hbelow] at hlines
      omega
    rw [parkRow, if_pos (BitVec.le_def.mpr hbelow), hlast.1]
    exact BitVec.eq_of_toNat_eq hlast.2.symm

/-- The same for a move by rows. -/
theorem moveRow_silent {rows : ℤ} (hrows : rows ≠ 0) (hw : 1 ≤ t.screenWidth.toNat)
    (h : moveRow (putc f) rows t = .done u) (hcalls : u.display.calls = t.display.calls)
    (r : BitVec 16) :
    ¬ScrollClears t.scrollStartRow t.scrollEndRow
      (lines t.scrollStartRow t.scrollEndRow (u16 (t.cursorY.toNat + rows))) r := by
  rw [moveRow_eq hrows] at h
  generalize parkRow t.scrollStartRow t.scrollEndRow (u16 (t.cursorY.toNat + rows)) = p at h
  exact scroll_silent (t := { t with cursorY := p }) hw h hcalls r

theorem moveRow_of_silent {putc : BitVec 8 → Vt100 → Vt100Run} {rows : ℤ} (hrows : rows ≠ 0)
    (h : ∀ r, ¬ScrollClears t.scrollStartRow t.scrollEndRow
      (lines t.scrollStartRow t.scrollEndRow (u16 (t.cursorY.toNat + rows))) r) :
    let n := lines t.scrollStartRow t.scrollEndRow (u16 (t.cursorY.toNat + rows))
    let height := u16 (t.scrollEndRow.toNat - t.scrollStartRow.toNat)
    moveRow putc rows t = if n = 0 then .done { t with cursorY := u16 (t.cursorY.toNat + rows) }
      else setScrollValue height (scrolled height t.scrollValue n)
        { t with cursorX := 0,
                 cursorY := if 0 < n then t.scrollStartRow
                   else u16 (t.scrollEndRow.toNat - n) } := by
  intro n height
  have hn : lines t.scrollStartRow t.scrollEndRow (u16 (t.cursorY.toNat + rows)) = n := rfl
  rw [hn] at h
  rw [moveRow_eq hrows, hn]
  rcases eq_or_ne n 0 with hzero | hne
  · rw [if_pos hzero, parkRow_of_lines (hn.trans hzero), hzero, scroll, if_neg (lt_irrefl 0),
      if_neg (lt_irrefl 0)]
  · have hpark (p : BitVec 16) := scroll_of_silent (t := { t with cursorY := p }) putc hne h
    rw [if_neg hne]
    exact hpark _

/-- A move by rows that does not end in column 0 has not scrolled. -/
theorem rowMove_snd_of_ne {x : BitVec 16} (h : (rowMove start stop x y).1 ≠ 0) :
    (rowMove start stop x y).2 = y := by
  rw [rowMove] at h ⊢
  split_ifs at h ⊢ with hpos hneg
  · exact absurd rfl h
  · exact absurd rfl h
  · exact parkRow_of_lines (by omega)

end Silent

end Vt100

end Martink
