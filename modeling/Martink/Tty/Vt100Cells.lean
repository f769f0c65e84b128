import Martink.Tty.Vt100Trail

/-!
# The cells that are drawn

`Cells t t'` says that the calls which the display has received between `t` and `t'` come in pairs
that draw cells of the screen, `Draws t t'` that the settings are still the same, too. It is kept by
everything that the recursion does, as long as the scrolls clear lines of the screen only:
`scroll_up_draws` is the induction, and `moveRow_draws` its use for a move to the row `y` that meets
`RowPrints`. With `RowLands` the cursor ends on the screen as well.
-/

namespace Martink

namespace Vt100

/-! ## Drawn cells -/

/-- Calls in pairs, which draw cells of a screen of `w` columns and `h` rows. -/
inductive OnCells (w h : BitVec 16) : List TtyCall → Prop
  | nil : OnCells w h []
  | pair {calls : List TtyCall} {x y fg bg : BitVec 16} {ch : BitVec 8} : OnCells w h calls →
      x.toNat < w.toNat → y.toNat < h.toNat →
        OnCells w h (calls ++ [.moveCursor x y, .put ch fg bg])

theorem OnCells.append {w h : BitVec 16} {calls calls' : List TtyCall} (hc : OnCells w h calls)
    (hc' : OnCells w h calls') : OnCells w h (calls ++ calls') := by
  induction hc' with
  | nil => rwa [List.append_nil]
  | pair _ hx hy ih =>
    rw [← List.append_assoc]
    exact ih.pair hx hy

/-- Between the two states the display has only been told to draw cells of the screen. -/
def Cells (t t' : Vt100) : Prop :=
  ∃ calls, t'.display.calls = t.display.calls ++ calls ∧
    OnCells t.screenWidth t.screenHeight calls

/-- And the settings have not changed. -/
structure Draws (t t' : Vt100) : Prop where
  /-- The settings. -/
  frame : Frame t t'
  /-- The cells that were drawn. -/
  cells : Cells t t'

theorem cells_of_calls {t t' : Vt100} (h : t'.display.calls = t.display.calls) : Cells t t' :=
  ⟨[], by rw [h, List.append_nil], .nil⟩

/-- The cursor is on the screen. -/
structure CursorFits (t : Vt100) : Prop where
  /-- Its column is. -/
  column_lt : t.cursorX.toNat < t.screenWidth.toNat
  /-- Its row is. -/
  row_lt : t.cursorY.toNat < t.screenHeight.toNat

namespace Draws

variable {t t' t'' : Vt100}

theorem of_calls (hframe : Frame t t') (hcalls : t'.display.calls = t.display.calls) :
    Draws t t' :=
  ⟨hframe, cells_of_calls hcalls⟩

theorem refl (t : Vt100) : Draws t t := of_calls (Frame.refl t) rfl

theorem trans (h : Draws t t') (h' : Draws t' t'') : Draws t t'' := by
  obtain ⟨calls, heq, hcells⟩ := h.cells
  obtain ⟨calls', heq', hcells'⟩ := h'.cells
  rw [h.frame.screenWidth, h.frame.screenHeight] at hcells'
  exact ⟨h.frame.trans h'.frame, calls ++ calls', by rw [heq', heq, List.append_assoc],
    hcells.append hcells'⟩

theorem cursor (t : Vt100) (x y : BitVec 16) : Draws t { t with cursorX := x, cursorY := y } :=
  of_calls (Frame.cursor t x y) rfl

theorem draw (h : CursorFits t) (ch : BitVec 8) : Draws t (t.draw ch) := by
  refine ⟨Frame.draw t ch, [.moveCursor t.cursorX t.cursorY, .put ch t.frontColor t.backColor], ?_,
    OnCells.nil.pair h.column_lt h.row_lt⟩
  rw [Vt100.draw, ttyPut, ttyMoveCursor, List.append_assoc]
  rfl

end Draws

/-! ## Rows -/

/-- A move to row `y` clears lines of the screen only. -/
def RowPrints (height start stop y : BitVec 16) : Prop :=
  let n := lines start stop y
  (0 < n → start.toNat + n ≤ height.toNat ∨ 65536 < start.toNat + n) ∧
    (n < 0 → 1 ≤ stop.toNat ∧ stop.toNat - n ≤ 65535)

/-- And it ends on the screen. -/
def RowLands (height start stop y : BitVec 16) : Prop :=
  let n := lines start stop y
  (0 < n → start.toNat + n ≤ height.toNat) ∧
    (n < 0 → 1 ≤ stop.toNat ∧ stop.toNat - n < height.toNat) ∧
      (n = 0 → parkRow start stop y < height)

instance (height start stop y : BitVec 16) : Decidable (RowPrints height start stop y) :=
  inferInstanceAs (Decidable (_ ∧ _))

instance (height start stop y : BitVec 16) : Decidable (RowLands height start stop y) :=
  inferInstanceAs (Decidable (_ ∧ _))

section Rows

variable {putc : BitVec 8 → Vt100 → Vt100Run} {f : ℕ} {t₀ t : Vt100} {n : ℤ}
  {w h start stop y : BitVec 16}

theorem RowLands.prints (hy : RowLands h start stop y) : RowPrints h start stop y := by
  obtain ⟨hup, hdown, -⟩ := hy
  refine ⟨fun hpos ↦ Or.inl (hup hpos), fun hneg ↦ ⟨(hdown hneg).1, ?_⟩⟩
  have := (hdown hneg).2
  omega

theorem rowMove_fst_le (start stop x y : BitVec 16) :
    (rowMove start stop x y).1.toNat ≤ x.toNat := by
  rw [rowMove]
  split_ifs
  · exact Nat.zero_le _
  · exact Nat.zero_le _
  · exact le_rfl

/-- A move to a row that lands ends on the screen. -/
theorem RowLands.rowMove_lt (hy : RowLands h start stop y) (x : BitVec 16) :
    (rowMove start stop x y).2.toNat < h.toNat := by
  obtain ⟨hup, hdown, hstay⟩ := hy
  rw [rowMove]
  split_ifs with hpos hneg
  · have := hup hpos
    dsimp only
    omega
  · have hrow := hdown hneg
    have hend := toNat_u16_of_lt (z := stop.toNat - lines start stop y) (by omega) (by omega)
    dsimp only
    omega
  · exact BitVec.lt_def.mp (hstay (by omega))

theorem draws_setScrollValue (hd : Draws t₀ t) (scrollHeight : BitVec 16) (z : ℤ) :
    (setScrollValue scrollHeight z t).Sat (Draws t₀) fun _ ↦ Draws t₀ := by
  rw [setScrollValue]
  split_ifs
  · exact Outcome.sat_stuck hd
  · exact Outcome.sat_done (hd.trans (Draws.of_calls rfl rfl))

/-- Blanks in a row of the screen, if the moves to the row below it draw on the screen. -/
theorem printsCell_draws {c : BitVec 16} (hw : t₀.screenWidth.toNat < 2 ^ 15)
    (hc : c.toNat < t₀.screenHeight.toNat)
    (hrow : ∀ g u, g < f → Draws t₀ u → u.cursorY = c → u.cursorWrap = true →
      (moveRow (Vt100.putc g) 1 u).Sat (Draws t₀) fun _ ↦ Draws t₀) :
    PrintsCell (Vt100.putc f) t₀.screenWidth c (Draws t₀) fun _ ↦ Draws t₀ := by
  rcases f with _ | f
  · exact fun u hu _ _ ↦ Outcome.sat_stuck hu
  · refine printsCell_of_moveRow hw.le (fun u hu ↦ hu.frame.screenWidth)
      (fun u x y hu ↦ hu.trans (Draws.cursor u x y))
      (fun u hu hx hy ↦ hu.trans (Draws.draw ⟨?_, ?_⟩ _))
      fun u hu hy hwrap ↦ hrow f u (Nat.lt_succ_self f) hu hy hwrap
    · rwa [hu.frame.screenWidth]
    · rwa [hu.frame.screenHeight, hy]

/-- Lines of the screen. -/
theorem draws_clearLines {startLine endLine : BitVec 16} (hw : t₀.screenWidth.toNat < 2 ^ 15)
    (hend : endLine.toNat < t₀.screenHeight.toNat)
    (hrow : ∀ g (c : BitVec 16) u, startLine.toNat ≤ c.toNat → c.toNat ≤ endLine.toNat →
      g < f → Draws t₀ u → u.cursorY = c → u.cursorWrap = true →
        (moveRow (Vt100.putc g) 1 u).Sat (Draws t₀) fun _ ↦ Draws t₀) (hd : Draws t₀ t) :
    (clearLines (Vt100.putc f) startLine endLine t).Sat (Draws t₀) fun _ ↦ Draws t₀ := by
  refine (clearLines_sat (P := Draws t₀) (w := t₀.screenWidth) (fun c hlo hhi ↦ ?_)
    (fun u hu ↦ hu.frame.screenWidth) (fun u x y hu ↦ hu.trans (Draws.cursor u x y)) hd).mono
      (fun _ h' ↦ h'.1) fun _ _ hX ↦ hX
  exact printsCell_draws hw (by omega) fun g u hg hu hy hwrap ↦ hrow g c u hlo hhi hg hu hy hwrap

theorem draws_scroll_zero (hd : Draws t₀ t) :
    (scroll putc 0 t).Sat (Draws t₀) fun _ ↦ Draws t₀ := by
  rw [scroll, if_neg (lt_irrefl 0), if_neg (lt_irrefl 0)]
  exact Outcome.sat_done hd

/-- Where the bound of the loop overflows, no line is cleared. -/
theorem draws_scroll_over (hd : Draws t₀ t) (hpos : 0 < n) (hn : n < 32768)
    (hover : 65536 < t.scrollStartRow.toNat + n) :
    (scroll putc n t).Sat (Draws t₀) fun _ ↦ Draws t₀ := by
  have hlast := toNat_u16 (t.scrollStartRow.toNat + n - 1)
  rw [scroll, if_pos hpos, clearLines_of_lt (by omega)]
  exact draws_setScrollValue (hd.trans (Draws.cursor t 0 t.scrollStartRow)) _ _

/-- **Scrolling up on the screen** draws on the screen: the nested scrolls are by no more lines. -/
theorem scroll_up_draws (hw : t₀.screenWidth.toNat < 2 ^ 15)
    (hh : t₀.screenHeight.toNat < 2 ^ 15)
    (hregion : t₀.scrollStartRow.toNat < t₀.scrollEndRow.toNat) :
    ∀ {f : ℕ} {n : ℤ} {t : Vt100}, Draws t₀ t → 0 < n →
      t₀.scrollStartRow.toNat + n ≤ t₀.screenHeight.toNat →
        (scroll (Vt100.putc f) n t).Sat (Draws t₀) fun _ ↦ Draws t₀ := by
  intro f
  induction f using Nat.strong_induction_on with
  | _ f ih =>
    intro n t hd hpos hsum
    have hlast := toNat_u16_of_lt (z := t₀.scrollStartRow.toNat + n - 1) (by omega) (by omega)
    rw [scroll, if_pos hpos, hd.frame.scrollStartRow]
    refine (draws_clearLines hw (by omega) (fun g c u hlo hhi hg hu hy _ ↦ ?_) hd).andThen
      fun u hu ↦ draws_setScrollValue hu _ _
    have hnext := toNat_u16_of_lt (z := u.cursorY.toNat + 1) (by omega) (by rw [hy]; omega)
    refine moveRow_sat one_ne_zero hu.frame fun y ↦ ?_
    have hmoved := hu.trans (Draws.cursor u u.cursorX y)
    rw [hy] at hnext ⊢
    rcases Nat.lt_or_ge (c.toNat + 1) t₀.scrollEndRow.toNat with hinside | hbelow
    · rw [lines_inside (by omega) (by omega)]
      exact draws_scroll_zero hmoved
    · rw [lines_below (by omega), hnext, s16_of_range (by omega) (by omega)]
      exact ih g hg hmoved (by omega) (by omega)

/-- **A move to a row that meets `RowPrints` draws on the screen.** -/
theorem moveRow_draws (hw : t₀.screenWidth.toNat < 2 ^ 15)
    (hh : t₀.screenHeight.toNat < 2 ^ 15)
    (hregion : t₀.scrollStartRow.toNat < t₀.scrollEndRow.toNat ∨ t₀.scrollStartRow.toNat = 65535)
    {bottomTop : ℤ} (hrows : bottomTop ≠ 0) (hd : Draws t₀ t)
    (hy : RowPrints t₀.screenHeight t₀.scrollStartRow t₀.scrollEndRow
      (u16 (t.cursorY.toNat + bottomTop))) :
    (moveRow (Vt100.putc f) bottomTop t).Sat (Draws t₀) fun _ ↦ Draws t₀ := by
  refine moveRow_sat hrows hd.frame fun y ↦ ?_
  have hmoved := hd.trans (Draws.cursor t t.cursorX y)
  obtain ⟨hup, hdown⟩ := hy
  have hrange : lines t₀.scrollStartRow t₀.scrollEndRow
      (u16 (t.cursorY.toNat + bottomTop)) < 32768 :=
    (s16_range _).2
  generalize lines t₀.scrollStartRow t₀.scrollEndRow (u16 (t.cursorY.toNat + bottomTop)) = n at *
  rcases lt_trichotomy n 0 with hneg | rfl | hpos
  · obtain ⟨hend, hsum⟩ := hdown hneg
    rw [← hmoved.frame.scrollEndRow] at hend hsum
    rw [scroll_of_neg hneg hend hsum]
    exact draws_setScrollValue (hmoved.trans (Draws.cursor _ 0 _)) _ _
  · exact draws_scroll_zero hmoved
  · rcases hup hpos with hsum | hover
    · exact scroll_up_draws hw hh (by omega) hmoved hpos hsum
    · rw [← hmoved.frame.scrollStartRow] at hover
      exact draws_scroll_over hmoved hpos hrange hover

end Rows

end Vt100

end Martink
