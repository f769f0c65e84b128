import Martink.Tty.Vt100Cells

/-!
# The cursor and the screen

`StaysOnScreen` says of a byte that no clamp, margin or scroll takes the cursor off the screen, nor
the display calls: it names for each command what its own arithmetic leaves open. The step lemmas
show that such a byte keeps the cursor and the saved cursor on the screen and draws on the screen
(`onScreen_vt100Putc`), and `onScreen_of_reached` is the invariant over runs.
-/

namespace Martink

namespace Vt100

/-! ## Conditions -/

/-- `n` characters printed from the cursor `p` on keep the cursor on the screen. -/
def PutsFit (t : Vt100) (n : ℕ) (p : BitVec 16 × BitVec 16) : Prop :=
  (t.cursorWrap = true ∨ p.1.toNat + n < t.screenWidth.toNat) ∧
    ∀ y ∈ (trailPuts t n p).1, RowLands t.screenHeight t.scrollStartRow t.scrollEndRow y

/-- The move by `bottomTop` rows lands on the screen. -/
def RowFits (t : Vt100) (bottomTop : ℤ) : Prop :=
  RowLands t.screenHeight t.scrollStartRow t.scrollEndRow (u16 (t.cursorY.toNat + bottomTop))

/-- With line wrap, clearing row `c` draws on the screen. -/
def ClearFits (t : Vt100) (c : ℕ) : Prop :=
  t.cursorWrap = true → RowPrints t.screenHeight t.scrollStartRow t.scrollEndRow (u16 (c + 1))

def controlFits (u : Vt100) : Control → Prop
  | .newLine => RowFits u 1
  | .backspace => 1 ≤ u.cursorX.toNat
  | .del => u.cursorX.toNat + 1 < u.screenWidth.toNat ∨ u.cursorWrap = false
  | .tab => PutsFit u (4 - u.cursorX.toNat % 4) u.cursor
  | .print => PutsFit u 1 u.cursor
  | _ => True

def escFits (u : Vt100) : Esc → Prop
  | .down | .nextLine => RowFits u 1
  | .up => RowFits u (-1)
  | _ => True

/-- The row of `H` and `f` is on the screen. -/
def TargetRowFits (u : Vt100) : Prop :=
  let y : ℤ := if u.narg = 2 then u.firstArg.toNat - 1 else 0
  let shifted := (y + u.scrollStartRow.toNat) % 65536
  u.originMode = false ∧ 0 ≤ y ∧ y < u.screenHeight.toNat ∨
    u.originMode = true ∧
      (shifted < u.scrollEndRow.toNat ∧ shifted < u.screenHeight.toNat ∨
        u.scrollEndRow.toNat ≤ shifted ∧ 1 ≤ u.scrollEndRow.toNat ∧
          u.scrollEndRow.toNat ≤ u.screenHeight.toNat)

def csiFits (u : Vt100) : Csi → Prop
  | .cursorDown => (u.cursorY.toNat + u.count) % 65536 < u.screenHeight.toNat
  | .cursorRight => (u.cursorX.toNat + u.count) % 65536 < u.screenWidth.toNat
  | .moveCursor =>
    (1 ≤ u.narg → 1 ≤ u.secondArg.toNat ∧ u.secondArg.toNat ≤ u.screenWidth.toNat) ∧
      TargetRowFits u
  | .clearScreen =>
    -- the other two clear one row below the screen
    u.eraseArg ≠ some 0 ∧ u.eraseArg ≠ some 2 ∧
      (u.eraseArg = some 1 → ∀ c ≤ u.cursorY.toNat, ClearFits u c)
  | .clearLine =>
    u.eraseArg = some 0 ∨ u.eraseArg = some 2 → ClearFits u u.cursorY.toNat
  | .deleteChars =>
    let back := trailMove u (s16 (-u.count)) 0 u.cursor
    back.2.1.toNat < u.screenWidth.toNat ∧
      (∀ y ∈ back.1, RowLands u.screenHeight u.scrollStartRow u.scrollEndRow y) ∧
        PutsFit u u.count back.2
  | _ => True

def Action.Fits : Action → Prop
  | .control u k => controlFits u k
  | .esc u k => escFits u k
  | .csi u k => csiFits u k
  | .parse => True

/-- The byte keeps the cursor and the display calls on the screen. -/
def StaysOnScreen (t : Vt100) (c : BitVec 8) : Prop := (action t c).Fits

instance (t : Vt100) (n : ℕ) (p : BitVec 16 × BitVec 16) : Decidable (PutsFit t n p) :=
  -- along the list, not over all rows
  have := List.decidableBAll (fun y ↦ RowLands t.screenHeight t.scrollStartRow t.scrollEndRow y)
    (trailPuts t n p).1
  inferInstanceAs (Decidable (_ ∧ _))

instance (t : Vt100) (bottomTop : ℤ) : Decidable (RowFits t bottomTop) :=
  inferInstanceAs (Decidable (RowLands _ _ _ _))

instance (t : Vt100) (c : ℕ) : Decidable (ClearFits t c) := inferInstanceAs (Decidable (_ → _))

instance (u : Vt100) : Decidable (TargetRowFits u) := inferInstanceAs (Decidable (_ ∨ _))

instance (u : Vt100) : DecidablePred (controlFits u)
  | .newLine => inferInstanceAs (Decidable (RowFits u 1))
  | .backspace => inferInstanceAs (Decidable (_ ≤ _))
  | .del => inferInstanceAs (Decidable (_ ∨ _))
  | .tab | .print => inferInstanceAs (Decidable (PutsFit u _ _))
  | .ignore | .carriageReturn | .escape => .isTrue trivial

instance (u : Vt100) : DecidablePred (escFits u)
  | .down | .nextLine | .up => inferInstanceAs (Decidable (RowFits u _))
  | .sqBracket | .leftBr | .rightBr | .hash | .saveCursor | .restoreCursor | .reset | .escape
  | .other => .isTrue trivial

instance (u : Vt100) : DecidablePred (csiFits u)
  | .cursorDown | .cursorRight => inferInstanceAs (Decidable (_ < _))
  | .moveCursor => inferInstanceAs (Decidable (_ ∧ _))
  | .clearScreen => inferInstanceAs (Decidable (_ ∧ _ ∧ _))
  | .clearLine => inferInstanceAs (Decidable (_ → _))
  | .deleteChars =>
    let back := trailMove u (s16 (-u.count)) 0 u.cursor
    have := List.decidableBAll (fun y ↦ RowLands u.screenHeight u.scrollStartRow u.scrollEndRow y)
      back.1
    inferInstanceAs (Decidable (_ ∧ _ ∧ _))
  | .cursorUp | .cursorLeft | .saveCursor | .restoreCursor | .setColors | .setScrollRegion
  | .question | .other => .isTrue trivial

instance : DecidablePred Action.Fits
  | .control u k => inferInstanceAs (Decidable (controlFits u k))
  | .esc u k => inferInstanceAs (Decidable (escFits u k))
  | .csi u k => inferInstanceAs (Decidable (csiFits u k))
  | .parse => .isTrue trivial

instance (t : Vt100) (c : BitVec 8) : Decidable (StaysOnScreen t c) :=
  inferInstanceAs (Decidable (action t c).Fits)

/-! ## Moves -/

/-- What the step lemmas need of the settings. -/
structure Sized (t : Vt100) : Prop where
  /-- The columns are numbers of 15 bits. -/
  width_lt : t.screenWidth.toNat < 2 ^ 15
  /-- The rows are numbers of 15 bits. -/
  height_lt : t.screenHeight.toNat < 2 ^ 15
  /-- The region has a row, or begins in the last row there can be. -/
  region : t.scrollStartRow.toNat < t.scrollEndRow.toNat ∨ t.scrollStartRow.toNat = 65535

/-- Code that starts in `t`, draws on the screen only, and ends with `Q`. -/
def DrawsTo (t : Vt100) (Q : Vt100 → Prop) (o : Vt100Run) : Prop :=
  o.Sat (fun t' ↦ Draws t t' ∧ Q t') fun _ ↦ Draws t

section Moves

variable {f : ℕ} {t t' : Vt100} {Q R : Vt100 → Prop} {o : Vt100Run} {k : Vt100 → Vt100Run}

theorem Sized.of_frame (hs : Sized t) (h : Frame t t') : Sized t' := by
  refine ⟨?_, ?_, ?_⟩
  · rw [h.screenWidth]
    exact hs.width_lt
  · rw [h.screenHeight]
    exact hs.height_lt
  · rw [h.scrollStartRow, h.scrollEndRow]
    exact hs.region

theorem DrawsTo.andThen (h : DrawsTo t Q o)
    (hk : ∀ t', Draws t t' → Q t' → DrawsTo t' R (k t')) : DrawsTo t R (o.andThen k) :=
  Outcome.Sat.andThen h fun t' h' ↦ (hk t' h'.1 h'.2).mono
    (fun _ h'' ↦ ⟨h'.1.trans h''.1, h''.2⟩) fun _ _ hX ↦ h'.1.trans hX

theorem DrawsTo.mono (h : DrawsTo t Q o) (hQ : ∀ t', Frame t t' → Q t' → R t') : DrawsTo t R o :=
  Outcome.Sat.mono h (fun _ h' ↦ ⟨h'.1, hQ _ h'.1.frame h'.2⟩) fun _ _ hX ↦ hX

theorem drawsTo_done (h : Q t) : DrawsTo t Q (.done t) := Outcome.sat_done ⟨Draws.refl t, h⟩

theorem drawsTo_cursor {x y : BitVec 16} (h : Q { t with cursorX := x, cursorY := y }) :
    DrawsTo t Q (.done { t with cursorX := x, cursorY := y }) :=
  Outcome.sat_done ⟨Draws.cursor t x y, h⟩

/-- **A move whose row lands.** -/
theorem moveRow_lands (hs : Sized t) {bottomTop : ℤ} (hrows : bottomTop ≠ 0) {y : BitVec 16}
    (hy : u16 (t.cursorY.toNat + bottomTop) = y)
    (hx : (rowMove t.scrollStartRow t.scrollEndRow t.cursorX y).1.toNat < t.screenWidth.toNat)
    (hlands : RowLands t.screenHeight t.scrollStartRow t.scrollEndRow y) :
    DrawsTo t (fun t' ↦ CursorFits t' ∧
      t'.cursor = rowMove t.scrollStartRow t.scrollEndRow t.cursorX y)
      (moveRow (putc f) bottomTop t) := by
  subst hy
  have hdraws := moveRow_draws (f := f) hs.width_lt hs.height_lt hs.region hrows (Draws.refl t)
    hlands.prints
  refine (hdraws.and (moveRow_cursor hrows t)).mono (fun t' h' ↦ ?_) fun _ _ hX ↦ hX.1
  obtain ⟨hd, hcursor⟩ := h'
  refine ⟨hd, ⟨?_, ?_⟩, hcursor⟩
  · rw [hd.frame.screenWidth, cursorX_of_cursor hcursor]
    exact hx
  · rw [hd.frame.screenHeight, cursorY_of_cursor hcursor]
    exact hlands.rowMove_lt _

/-- **Any move along its trail.** -/
theorem move_lands (hs : Sized t) (hrow : t.cursorY.toNat < t.screenHeight.toNat)
    (hw : 1 ≤ t.screenWidth.toNat) {dx dy : ℤ}
    (hx : (trailMove t dx dy t.cursor).2.1.toNat < t.screenWidth.toNat)
    (hlands : ∀ y ∈ (trailMove t dx dy t.cursor).1,
      RowLands t.screenHeight t.scrollStartRow t.scrollEndRow y) :
    DrawsTo t (fun t' ↦ CursorFits t' ∧ t'.cursor = (trailMove t dx dy t.cursor).2)
      (move (putc f) dx dy t) := by
  rcases hcolumn : column t.screenWidth t.cursorWrap t.cursorX dx dy with _ | ⟨x, rows⟩
  · have := column_eq_none hcolumn
    omega
  rw [move_of_column hcolumn]
  rw [trailMove_of_column hcolumn] at hx hlands ⊢
  split_ifs at hx hlands ⊢ with hrows <;> dsimp only at hx ⊢
  · rw [hrows, moveRow_zero]
    exact drawsTo_cursor (x := x) (y := t.cursorY) ⟨⟨hx, hrow⟩, rfl⟩
  · have hmoved := moveRow_lands (f := f) (t := { t with cursorX := x })
      (hs.of_frame (Frame.cursor t x t.cursorY)) hrows rfl hx
        (hlands _ (List.mem_singleton_self _))
    exact Outcome.Sat.mono hmoved
      (fun _ h' ↦ ⟨(Draws.cursor t x t.cursorY).trans h'.1, h'.2⟩)
      fun _ _ hX ↦ (Draws.cursor t x t.cursorY).trans hX

/-! ## Printing -/

/-- One character to the right. -/
theorem trailMove_right (hw : t.screenWidth.toNat < 2 ^ 15)
    (hx : t.cursorX.toNat < t.screenWidth.toNat)
    (hfit : t.cursorWrap = true ∨ t.cursorX.toNat + 1 < t.screenWidth.toNat) :
    (trailMove t 1 0 t.cursor).2.1.toNat < t.screenWidth.toNat ∧
      (t.cursorX.toNat + 1 < t.screenWidth.toNat →
        (trailMove t 1 0 t.cursor).2.1.toNat = t.cursorX.toNat + 1) := by
  rcases Nat.lt_or_ge (t.cursorX.toNat + 1) t.screenWidth.toNat with hinside | hmargin
  · have hnext : (t.cursorX + 1).toNat = t.cursorX.toNat + 1 := by
      rw [BitVec.toNat_add]
      simp
      omega
    rw [trailMove_of_column (column_inside hw.le hinside), if_pos rfl]
    exact ⟨by rw [hnext]; exact hinside, fun _ ↦ hnext⟩
  · have hwrap : t.cursorWrap = true := by
      rcases hfit with hwrap | hinside
      · exact hwrap
      · omega
    have hcolumn : column t.screenWidth t.cursorWrap t.cursorX 1 0
        = if t.cursorWrap then some (0, 1) else some (t.screenWidth, 0) :=
      column_margin (Nat.le_antisymm hx hmargin)
    rw [if_pos hwrap] at hcolumn
    rw [trailMove_of_column hcolumn, if_neg one_ne_zero]
    have hle := rowMove_fst_le t.scrollStartRow t.scrollEndRow 0 (u16 (t.cursorY.toNat + 1))
    exact ⟨lt_of_le_of_lt hle ((Nat.zero_le _).trans_lt hx), fun hlt ↦ by omega⟩

theorem putc_lands (hs : Sized t) (hcursor : CursorFits t) {ch : BitVec 8}
    (hfit : t.cursorWrap = true ∨ t.cursorX.toNat + 1 < t.screenWidth.toNat)
    (hlands : ∀ y ∈ (trailMove t 1 0 t.cursor).1,
      RowLands t.screenHeight t.scrollStartRow t.scrollEndRow y) :
    DrawsTo t (fun t' ↦ CursorFits t' ∧ t'.cursor = (trailMove t 1 0 t.cursor).2)
      (putc f ch t) := by
  rcases f with _ | f
  · exact Outcome.sat_stuck (Draws.refl t)
  have hdraw := Draws.draw hcursor ch
  have hright := (trailMove_right hs.width_lt hcursor.column_lt hfit).1
  rw [putc]
  rw [← trailMove_frame hdraw.frame] at hright hlands ⊢
  have hcursor' : (t.draw ch).cursor = t.cursor := rfl
  rw [← hcursor'] at hright hlands ⊢
  have hmove := move_lands (f := f) (hs.of_frame hdraw.frame) hcursor.row_lt
    (Nat.one_le_of_lt hcursor.column_lt) hright hlands
  exact Outcome.Sat.mono hmove (fun _ h' ↦ ⟨hdraw.trans h'.1, h'.2⟩) fun _ _ hX ↦ hdraw.trans hX

theorem PutsFit.of_frame {n : ℕ} {p : BitVec 16 × BitVec 16} (h : PutsFit t n p)
    (hframe : Frame t t') : PutsFit t' n p := by
  rw [PutsFit, trailPuts_frame hframe, hframe.cursorWrap, hframe.screenWidth, hframe.screenHeight,
    hframe.scrollStartRow, hframe.scrollEndRow]
  exact h

/-- **Printing `n` characters** that fit. -/
theorem puts_lands (n : ℕ) : ∀ {lo : ℕ} {t : Vt100}, Sized t → CursorFits t →
    PutsFit t n t.cursor →
      DrawsTo t CursorFits (Outcome.forRange (fun _ ↦ putc f (ascii ' ')) lo n t) := by
  induction n with
  | zero => exact fun _ hcursor _ ↦ drawsTo_done hcursor
  | succ n ih =>
    intro lo t hs hcursor hfit
    obtain ⟨hcolumn, hrows⟩ := hfit
    rw [trailPuts] at hrows
    have hone : t.cursorWrap = true ∨ t.cursorX.toNat + 1 < t.screenWidth.toNat :=
      hcolumn.imp_right fun (h : t.cursorX.toNat + (n + 1) < _) ↦ by omega
    have hrest : PutsFit t n (trailMove t 1 0 t.cursor).2 := by
      refine ⟨hcolumn.imp_right fun (h : t.cursorX.toNat + (n + 1) < _) ↦ ?_,
        fun y hy ↦ hrows y (List.mem_append_right _ hy)⟩
      have := (trailMove_right hs.width_lt hcursor.column_lt hone).2 (by omega)
      omega
    refine (putc_lands hs hcursor hone fun y hy ↦ hrows y (List.mem_append_left _ hy)).andThen
      fun t' hd h' ↦ ih (hs.of_frame hd.frame) h'.1 ?_
    rw [h'.2]
    exact hrest.of_frame hd.frame

/-! ## The commands -/

/-- Moving to another row. -/
theorem row_lands (hs : Sized t) (hcursor : CursorFits t) {bottomTop : ℤ} (hrows : bottomTop ≠ 0)
    (hfit : RowFits t bottomTop) : DrawsTo t CursorFits (move (putc f) 0 bottomTop t) := by
  have hcolumn : column t.screenWidth t.cursorWrap t.cursorX 0 bottomTop
      = some (t.cursorX, bottomTop) := column_stay hs.width_lt hcursor.column_lt bottomTop
  have hpos := Nat.one_le_of_lt hcursor.column_lt
  refine (move_lands hs hcursor.row_lt hpos ?_ ?_).mono fun _ _ h' ↦ h'.1
  · rw [trailMove_of_column hcolumn, if_neg hrows]
    dsimp only
    exact lt_of_le_of_lt (rowMove_fst_le _ _ _ _) hcursor.column_lt
  · rw [trailMove_of_column hcolumn, if_neg hrows]
    exact fun y hy ↦ by rw [List.mem_singleton.mp hy]; exact hfit

/-- One column back. -/
theorem move_back (hs : Sized t) (hpos : 1 ≤ t.cursorX.toNat)
    (hx : t.cursorX.toNat ≤ t.screenWidth.toNat) :
    move (putc f) (-1) 0 t = .done { t with cursorX := u16 (t.cursorX.toNat - 1) } := by
  have hw := hs.width_lt
  have hcolumn : column t.screenWidth t.cursorWrap t.cursorX (s16 (-(1 : ℕ))) 0
      = some (u16 (t.cursorX.toNat - (1 : ℕ)), 0) := column_left hw hpos (by omega) (by omega)
  rw [show s16 (-(1 : ℕ)) = -1 from by decide] at hcolumn
  rw [move_of_column hcolumn, moveRow_zero]
  rfl

/-- `DEL` in the row, or at the margin without line wrap: the cursor comes back to where it was. -/
theorem del_lands (hs : Sized t) (hcursor : CursorFits t)
    (hfit : t.cursorX.toNat + 1 < t.screenWidth.toNat ∨ t.cursorWrap = false) :
    DrawsTo t CursorFits ((putc f (ascii ' ') t).andThen (move (putc f) (-1) 0)) := by
  rcases f with _ | f
  · exact Outcome.sat_stuck (Draws.refl t)
  have hx := hcursor.column_lt
  have hw := hs.width_lt
  have hblank : ∃ x : BitVec 16, x.toNat = t.cursorX.toNat + 1 ∧
      putc (f + 1) (ascii ' ') t = .done { t.draw (ascii ' ') with cursorX := x } := by
    rcases Nat.lt_or_ge (t.cursorX.toNat + 1) t.screenWidth.toNat with hinside | hmargin
    · refine ⟨t.cursorX + 1, ?_, putc_inside hw.le hinside⟩
      rw [BitVec.toNat_add]
      simp
      omega
    · have hoff : ¬t.cursorWrap = true := by
        rcases hfit with hinside | hoff
        · omega
        · simp [hoff]
      exact ⟨t.screenWidth, by omega, by rw [putc_margin (by omega), if_neg hoff]⟩
  obtain ⟨x, hnext, hdone⟩ := hblank
  have hblank_draws : Draws t { t.draw (ascii ' ') with cursorX := x } :=
    (Draws.draw hcursor _).trans (Draws.cursor _ x (t.draw (ascii ' ')).cursorY)
  have hback := toNat_u16_of_lt (z := x.toNat - 1) (by omega) (by omega)
  rw [hdone, Outcome.andThen_done, move_back (hs.of_frame hblank_draws.frame) (by dsimp only; omega)
    (by dsimp only [draw]; omega)]
  refine Outcome.sat_done ⟨hblank_draws.trans (Draws.cursor _ _ t.cursorY), ?_, hcursor.row_lt⟩
  dsimp only [draw]
  omega

theorem printsCell_of_clearFits (hs : Sized t) {c : BitVec 16} (hc : c.toNat < t.screenHeight.toNat)
    (hfit : ClearFits t c.toNat) :
    PrintsCell (putc f) t.screenWidth c (Draws t) fun _ ↦ Draws t := by
  refine printsCell_draws hs.width_lt hc fun g u _ hu hy hwrap ↦ ?_
  refine moveRow_draws hs.width_lt hs.height_lt hs.region one_ne_zero hu ?_
  rw [hy]
  exact hfit (hu.frame.cursorWrap.symm.trans hwrap)

theorem clearScreen_lands (hs : Sized t) (hcursor : CursorFits t) (hfit : csiFits t .clearScreen) :
    DrawsTo t CursorFits (t.clearScreen f) := by
  obtain ⟨hdown, hall, hup⟩ := hfit
  rw [clearScreen, if_neg hdown]
  split_ifs with hone
  · have hdraws : (clearLines (putc f) 0 t.cursorY t).Sat (Draws t) fun _ ↦ Draws t := by
      refine (clearLines_sat (P := Draws t) (w := t.screenWidth) (fun c _ hc ↦ ?_)
        (fun u hu ↦ hu.frame.screenWidth) (fun u x y hu ↦ hu.trans (Draws.cursor u x y))
          (Draws.refl t)).mono (fun _ h' ↦ h'.1) fun _ _ hX ↦ hX
      exact printsCell_of_clearFits hs (lt_of_le_of_lt hc hcursor.row_lt) (hup hone c.toNat hc)
    refine (hdraws.and (clearLines_cursor 0 t.cursorY t)).mono (fun t' h' ↦ ⟨h'.1, ?_, ?_⟩)
      fun _ _ hX ↦ hX.1
    · rw [h'.1.frame.screenWidth, cursorX_of_cursor h'.2]
      exact (Nat.zero_le _).trans_lt hcursor.column_lt
    · rw [h'.1.frame.screenHeight, cursorY_of_cursor h'.2]
      exact (Nat.zero_le _).trans_lt hcursor.row_lt
  · exact drawsTo_done hcursor

/-- Blanks that do not reach the margin. -/
theorem printsCell_inside (hs : Sized t) {x c : BitVec 16} (hx : x.toNat < t.screenWidth.toNat)
    (hc : c.toNat < t.screenHeight.toNat) :
    PrintsCell (putc f) x c (Draws t) fun _ ↦ Draws t := by
  intro u hu hux huy
  rcases f with _ | f
  · exact Outcome.sat_stuck hu
  have hwidth := hu.frame.screenWidth
  have hdraw := hu.trans (Draws.draw (t := u) ⟨by rw [hwidth]; omega,
    by rw [hu.frame.screenHeight, huy]; exact hc⟩ (ascii ' '))
  rw [putc_inside (by rw [hwidth]; exact hs.width_lt.le) (by rw [hwidth]; omega)]
  exact Outcome.sat_done ⟨hdraw.trans (Draws.cursor _ _ (u.draw (ascii ' ')).cursorY),
    fun _ ↦ by rw [← huy]; rfl⟩

/-- `K` puts the cursor back. -/
theorem clearLine_lands (hs : Sized t) (hcursor : CursorFits t) (hfit : csiFits t .clearLine) :
    DrawsTo t CursorFits (t.clearLine f) := by
  have hhome := Draws.cursor t 0 t.cursorY
  have hzero : ({ t with cursorX := 0 } : Vt100).cursorX.toNat = 0 := rfl
  rw [clearLine]
  refine Outcome.Sat.andThen (Q := Draws t) ?_ fun t' hd ↦
    Outcome.sat_done ⟨hd.trans (Draws.cursor t' _ _), ?_, ?_⟩
  · split_ifs with hright hleft hall
    · have hcell := printsCell_of_clearFits (f := f) hs hcursor.row_lt (hfit (Or.inl hright))
      exact (blanks_sat hcell (Draws.refl t)
        (Nat.add_sub_of_le hcursor.column_lt.le).le rfl).mono (fun _ h' ↦ h'.1) fun _ _ hX ↦ hX
    · have hcell := printsCell_inside (f := f) hs hcursor.column_lt hcursor.row_lt
      exact (blanks_sat hcell hhome (by rw [hzero, Nat.zero_add]) rfl).mono
        (fun _ h' ↦ h'.1) fun _ _ hX ↦ hX
    · have hcell := printsCell_of_clearFits (f := f) hs hcursor.row_lt (hfit (Or.inr hall))
      exact (blanks_sat hcell hhome (by rw [hzero, Nat.zero_add]) rfl).mono
        (fun _ h' ↦ h'.1) fun _ _ hX ↦ hX
    · exact Outcome.sat_done (Draws.refl t)
  · rw [hd.frame.screenWidth]
    exact hcursor.column_lt
  · rw [hd.frame.screenHeight]
    exact hcursor.row_lt

theorem deleteChars_lands (hs : Sized t) (hcursor : CursorFits t) (hfit : csiFits t .deleteChars) :
    DrawsTo t CursorFits (t.deleteChars f) := by
  obtain ⟨hx, hlands, hputs⟩ := hfit
  rw [deleteChars]
  refine (move_lands hs hcursor.row_lt (Nat.one_le_of_lt hcursor.column_lt) hx hlands).andThen
    fun t' hd h' ↦ puts_lands _ (hs.of_frame hd.frame) h'.1 ?_
  rw [h'.2]
  exact hputs.of_frame hd.frame

end Moves

/-! ## Bytes -/

/-- The cursor and the saved cursor are on the screen. -/
structure OnScreen (t : Vt100) : Prop where
  /-- The cursor is. -/
  cursor : CursorFits t
  /-- The column of the saved cursor is. -/
  saved_column_lt : t.savedCursorX.toNat < t.screenWidth.toNat
  /-- The row of the saved cursor is. -/
  saved_row_lt : t.savedCursorY.toNat < t.screenHeight.toNat

/-- Code that starts in `t`, draws on the screen only, and ends on the screen. -/
def StaysOn (t : Vt100) (o : Vt100Run) : Prop :=
  o.Sat (fun t' ↦ Cells t t' ∧ OnScreen t') fun _ ↦ Cells t

section Bytes

variable {fuel : ℕ} {c : BitVec 8} {t t' u : Vt100} {o : Vt100Run} {w h : BitVec 16}

theorem OnScreen.of_frame (hon : OnScreen t) (hframe : Frame t t') (hcursor : CursorFits t') :
    OnScreen t' := by
  refine ⟨hcursor, ?_, ?_⟩
  · rw [hframe.savedCursorX, hframe.screenWidth]
    exact hon.saved_column_lt
  · rw [hframe.savedCursorY, hframe.screenHeight]
    exact hon.saved_row_lt

theorem staysOn_of_drawsTo (hon : OnScreen t) (ho : DrawsTo t CursorFits o) : StaysOn t o :=
  Outcome.Sat.mono ho (fun _ h' ↦ ⟨h'.1.cells, hon.of_frame h'.1.frame h'.2⟩) fun _ _ hX ↦ hX.cells

theorem staysOn_done (hcalls : t'.display.calls = t.display.calls) (hon : OnScreen t') :
    StaysOn t (.done t') :=
  Outcome.sat_done ⟨cells_of_calls hcalls, hon⟩

theorem staysOn_goto (ho : StaysOn t o) (state : Vt100State) : StaysOn t (o.andThen (goto state)) :=
  Outcome.Sat.andThen ho fun _ h' ↦
    Outcome.sat_done ⟨h'.1, ⟨h'.2.cursor.1, h'.2.cursor.2⟩, h'.2.2, h'.2.3⟩

theorem staysOn_controlBody (hs : Sized t) (hon : OnScreen t) {k : Control}
    (hfit : controlFits t k) : StaysOn t (t.controlBody fuel c k) := by
  have hcursor := hon.cursor
  have hpos := (Nat.zero_le _).trans_lt hcursor.column_lt
  cases k with
  | ignore => exact staysOn_done rfl hon
  | newLine =>
    rw [controlBody]
    refine staysOn_of_drawsTo hon
      ((row_lands hs hcursor one_ne_zero hfit).andThen fun t' hd h' ↦ ?_)
    exact drawsTo_cursor (y := t'.cursorY) ⟨(Nat.zero_le _).trans_lt h'.column_lt, h'.row_lt⟩
  | carriageReturn => exact staysOn_done rfl ⟨⟨hpos, hcursor.row_lt⟩, hon.2, hon.3⟩
  | backspace =>
    have hback := toNat_u16_of_lt (z := t.cursorX.toNat - 1) (by have : 1 ≤ _ := hfit; omega)
      (by omega)
    rw [controlBody, move_back hs hfit hcursor.column_lt.le]
    refine staysOn_done rfl ⟨⟨?_, hcursor.row_lt⟩, hon.2, hon.3⟩
    have := hcursor.column_lt
    dsimp only
    omega
  | del => exact staysOn_of_drawsTo hon (del_lands hs hcursor hfit)
  | tab => exact staysOn_of_drawsTo hon (puts_lands _ hs hcursor hfit)
  | escape => exact staysOn_done rfl ⟨⟨hcursor.1, hcursor.2⟩, hon.2, hon.3⟩
  | print =>
    obtain ⟨hcolumn, hrows⟩ := hfit
    have hlands : ∀ y ∈ (trailMove t 1 0 t.cursor).1,
        RowLands t.screenHeight t.scrollStartRow t.scrollEndRow y :=
      fun y hy ↦ hrows y (List.mem_append_left _ hy)
    exact staysOn_of_drawsTo hon ((putc_lands hs hcursor hcolumn hlands).mono fun _ _ h' ↦ h'.1)

theorem onScreen_reset (hcolumn : 1 ≤ t.display.width.toNat) (hrow : 1 ≤ t.display.height.toNat) :
    OnScreen t.reset := ⟨⟨hcolumn, hrow⟩, hcolumn, hrow⟩

theorem staysOn_escBody (hwf : Wellformed w h t) (hw : 1 ≤ w.toNat) (hh : 1 ≤ h.toNat)
    (hs : Sized t)
    (hon : OnScreen t) {k : Esc} (hfit : escFits t k) : StaysOn t (t.escBody fuel k) := by
  have hcursor := hon.cursor
  have hsaved : CursorFits { t with cursorX := t.savedCursorX, cursorY := t.savedCursorY } :=
    ⟨hon.saved_column_lt, hon.saved_row_lt⟩
  cases k with
  | down =>
    rw [escBody]
    exact staysOn_goto (staysOn_of_drawsTo hon (row_lands hs hcursor one_ne_zero hfit)) _
  | up =>
    rw [escBody]
    exact staysOn_goto (staysOn_of_drawsTo hon (row_lands hs hcursor (by decide) hfit)) _
  | nextLine =>
    rw [escBody]
    refine Outcome.Sat.andThen (staysOn_of_drawsTo hon (row_lands hs hcursor one_ne_zero hfit))
      fun t' h' ↦ Outcome.sat_done ⟨h'.1, ⟨?_, h'.2.cursor.2⟩, h'.2.2, h'.2.3⟩
    exact (Nat.zero_le _).trans_lt h'.2.cursor.1
  | saveCursor => exact staysOn_done rfl ⟨⟨hcursor.1, hcursor.2⟩, hcursor.1, hcursor.2⟩
  | restoreCursor => exact staysOn_done rfl ⟨⟨hsaved.1, hsaved.2⟩, hon.2, hon.3⟩
  | reset =>
    have hreset := onScreen_reset (by rw [hwf.width]; exact hw) (by rw [hwf.height]; exact hh)
    exact staysOn_done rfl ⟨⟨hreset.1.1, hreset.1.2⟩, hreset.2, hreset.3⟩
  | escape => exact staysOn_done rfl hon
  | sqBracket | leftBr | rightBr | hash | other =>
    exact staysOn_done rfl ⟨⟨hcursor.1, hcursor.2⟩, hon.2, hon.3⟩

/-- The clamps of `B`, `C`, `H` and `f` change nothing that is on the screen. -/
theorem clamp_lt {x width : BitVec 16} (h : x.toNat < width.toNat) :
    (if x > width then width else x) = x := by
  rw [if_neg fun hgt ↦ by have := BitVec.lt_def.mp hgt; omega]

theorem moveUp_lt {n : ℕ} {y height : BitVec 16} (h : y.toNat < height.toNat) :
    (if y.toNat < n then 0 else u16 (y.toNat - n)).toNat < height.toNat := by
  split_ifs with hlt
  · exact (Nat.zero_le _).trans_lt h
  · have := toNat_u16_of_lt (z := y.toNat - n) (by omega) (by omega)
    omega

theorem targetRow_lt (hfit : TargetRowFits t) : t.targetRow.toNat < t.screenHeight.toNat := by
  have hstart := t.scrollStartRow.isLt
  rw [TargetRowFits, firstArg] at hfit
  rw [targetRow]
  have hrow : ((if t.narg = 2 then u16 ((t.args 0).toNat - 1) else 0 : BitVec 16).toNat : ℤ)
      = (if t.narg = 2 then (t.args 0).toNat - 1 else 0 : ℤ) % 65536 := by
    split_ifs
    · exact toNat_u16 _
    · rfl
  dsimp only at hfit ⊢
  generalize (if t.narg = 2 then (t.args 0).toNat - 1 else 0 : ℤ) = z at hfit hrow
  generalize (if t.narg = 2 then u16 ((t.args 0).toNat - 1) else 0 : BitVec 16) = y at hrow ⊢
  have hshifted := toNat_u16 (y.toNat + t.scrollStartRow.toNat)
  have hlast := toNat_u16 (t.scrollEndRow.toNat - 1)
  rcases hfit with ⟨horigin, hfit⟩ | ⟨horigin, hfit⟩
  · rw [if_neg (by simp [horigin])]
    omega
  · rw [if_pos horigin]
    split_ifs with hbelow
    · rw [ge_iff_le, BitVec.le_def] at hbelow
      omega
    · rw [ge_iff_le, BitVec.le_def] at hbelow
      omega

theorem targetColumn_lt (hpos : 0 < t.screenWidth.toNat)
    (hfit : 1 ≤ t.narg → 1 ≤ t.secondArg.toNat ∧ t.secondArg.toNat ≤ t.screenWidth.toNat) :
    (if 1 ≤ t.narg then u16 ((t.args 1).toNat - 1) else 0 : BitVec 16).toNat
      < t.screenWidth.toNat := by
  rw [secondArg] at hfit
  split_ifs with hnarg
  · have hcolumn := hfit hnarg
    have := toNat_u16_of_lt (z := (t.args 1).toNat - 1) (by omega) (by omega)
    omega
  · exact hpos

theorem staysOn_csiBody (hs : Sized t) (hon : OnScreen t) {k : Csi} (hfit : csiFits t k) :
    StaysOn t (t.csiBody fuel k) := by
  have hcursor := hon.cursor
  cases k with
  | cursorUp => exact staysOn_done rfl ⟨⟨hcursor.1, moveUp_lt hcursor.row_lt⟩, hon.2, hon.3⟩
  | cursorLeft => exact staysOn_done rfl ⟨⟨moveUp_lt hcursor.column_lt, hcursor.2⟩, hon.2, hon.3⟩
  | cursorDown =>
    have hrow : (u16 (t.cursorY.toNat + t.count)).toNat < t.screenHeight.toNat := by
      have hmod := toNat_u16 (t.cursorY.toNat + t.count)
      have : (t.cursorY.toNat + t.count) % 65536 < t.screenHeight.toNat := hfit
      omega
    rw [csiBody, moveDown]
    rw [clamp_lt hrow]
    exact staysOn_done rfl ⟨⟨hcursor.1, hrow⟩, hon.2, hon.3⟩
  | cursorRight =>
    have hcolumn : (u16 (t.cursorX.toNat + t.count)).toNat < t.screenWidth.toNat := by
      have hmod := toNat_u16 (t.cursorX.toNat + t.count)
      have : (t.cursorX.toNat + t.count) % 65536 < t.screenWidth.toNat := hfit
      omega
    rw [csiBody, moveRight]
    rw [clamp_lt hcolumn]
    exact staysOn_done rfl ⟨⟨hcolumn, hcursor.2⟩, hon.2, hon.3⟩
  | moveCursor =>
    have hcolumn := targetColumn_lt ((Nat.zero_le _).trans_lt hcursor.column_lt) hfit.1
    have hrow := targetRow_lt hfit.2
    rw [csiBody, moveCursor]
    rw [clamp_lt hcolumn, clamp_lt hrow]
    exact staysOn_done rfl ⟨⟨hcolumn, hrow⟩, hon.2, hon.3⟩
  | clearScreen => exact staysOn_of_drawsTo hon (clearScreen_lands hs hcursor hfit)
  | clearLine => exact staysOn_of_drawsTo hon (clearLine_lands hs hcursor hfit)
  | deleteChars => exact staysOn_of_drawsTo hon (deleteChars_lands hs hcursor hfit)
  | saveCursor => exact staysOn_done rfl ⟨⟨hcursor.1, hcursor.2⟩, hcursor.1, hcursor.2⟩
  | restoreCursor => exact staysOn_done rfl ⟨⟨hon.2, hon.3⟩, hon.2, hon.3⟩
  | setColors =>
    refine (setColors_sat t).mono ?_ fun _ _ hX ↦ cells_of_calls (congrArg TtyDevice.calls hX.2.2)
    rintro t' ⟨n, front, back, rfl⟩
    exact ⟨cells_of_calls rfl, ⟨hcursor.1, hcursor.2⟩, hon.2, hon.3⟩
  | setScrollRegion =>
    rw [csiBody, setScrollRegion]
    split_ifs
    · exact staysOn_done rfl ⟨⟨hcursor.1, hcursor.2⟩, hon.2, hon.3⟩
    · exact staysOn_done rfl ⟨⟨hcursor.1, hcursor.2⟩, hon.2, hon.3⟩
  | question | other => exact staysOn_done rfl hon

theorem OnScreen.of_sameScreen (hon : OnScreen t) (hsame : SameScreen t u) : OnScreen u := by
  refine ⟨⟨?_, ?_⟩, ?_, ?_⟩
  · rw [hsame.cursorX, hsame.screenWidth]
    exact hon.cursor.column_lt
  · rw [hsame.cursorY, hsame.screenHeight]
    exact hon.cursor.row_lt
  · rw [hsame.savedCursorX, hsame.screenWidth]
    exact hon.saved_column_lt
  · rw [hsame.savedCursorY, hsame.screenHeight]
    exact hon.saved_row_lt

theorem StaysOn.of_sameScreen (hsame : SameScreen t u) (ho : StaysOn u o) : StaysOn t o := by
  have hcells : ∀ t', Cells u t' → Cells t t' := by
    intro t' h
    rwa [Cells, hsame.display, hsame.screenWidth, hsame.screenHeight] at h
  exact Outcome.Sat.mono ho (fun t' h' ↦ ⟨hcells t' h'.1, h'.2⟩) fun _ t' hX ↦ hcells t' hX

theorem Wellformed.sized (hwf : Wellformed w h t) (hw : w.toNat < 2 ^ 15) (hh : h.toNat < 2 ^ 15) :
    Sized t := by
  refine ⟨?_, ?_, hwf.region.imp_right And.left⟩
  · rwa [hwf.screenWidth]
  · rwa [hwf.screenHeight]

/-- **One byte.** -/
theorem staysOn_vt100Putc (hwf : Wellformed w h t) (hw : 1 ≤ w.toNat) (hw' : w.toNat < 2 ^ 15)
    (hh : 1 ≤ h.toNat) (hh' : h.toNat < 2 ^ 15) (hon : OnScreen t) (hc : StaysOnScreen t c) :
    StaysOn t (vt100Putc fuel t c) := by
  have hperforms : Performs fuel t c (action t c) := performs_action
  rw [StaysOnScreen] at hc
  rcases hact : action t c with ⟨u, k⟩ | ⟨u, k⟩ | ⟨u, k⟩ | _ <;> rw [hact] at hperforms hc
  · obtain ⟨hsame, -, hputc⟩ := hperforms
    rw [hputc]
    exact (staysOn_controlBody ((hwf.of_sameScreen hsame).sized hw' hh') (hon.of_sameScreen hsame)
      hc).of_sameScreen hsame
  · obtain ⟨hsame, -, hputc⟩ := hperforms
    have hwf' := hwf.of_sameScreen hsame
    rw [hputc]
    exact (staysOn_escBody hwf' hw hh (hwf'.sized hw' hh') (hon.of_sameScreen hsame)
      hc).of_sameScreen hsame
  · obtain ⟨hsame, -, hputc⟩ := hperforms
    rw [hputc]
    exact (staysOn_goto (staysOn_csiBody ((hwf.of_sameScreen hsame).sized hw' hh')
      (hon.of_sameScreen hsame) hc) _).of_sameScreen hsame
  · refine Outcome.Sat.mono hperforms (fun t' hsame ↦ ⟨?_, hon.of_sameScreen hsame⟩) fun e t' hX ↦
      ?_
    · exact cells_of_calls (congrArg TtyDevice.calls hsame.display)
    · exact cells_of_calls (congrArg TtyDevice.calls hX.2.1.display)

end Bytes

end Vt100

open Vt100

/-- **The cursor and the drawn cells stay on the screen in every run** whose bytes keep them
there. -/
theorem onScreen_of_reached {self t : Vt100} {display : TtyDevice}
    (hw : 1 ≤ display.width.toNat) (hw' : display.width.toNat < 2 ^ 15)
    (hh : 1 ≤ display.height.toNat) (hh' : display.height.toNat < 2 ^ 15)
    (hrun : Reached Returns StaysOnScreen (vt100Init self display) t) :
    t.screenWidth = display.width ∧ t.screenHeight = display.height ∧ CursorFits t ∧
      ∀ c, StaysOnScreen t c → ∀ fuel, Cells t (vt100Putc fuel t c).state := by
  have hinv : Wellformed display.width display.height t ∧ OnScreen t := by
    refine hrun.invariant (I := fun t ↦ Wellformed display.width display.height t ∧ OnScreen t)
      ⟨wellformed_init self hh, ?_⟩ fun t c t' hI hcond hreturns ↦
        ⟨wellformed_of_returns hh hI.1 hreturns, ?_⟩
    · exact onScreen_reset (t := { self with display := display }) hw hh
    · obtain ⟨fuel, hdone⟩ := hreturns
      exact ((staysOn_vt100Putc hI.1 hw hw' hh hh' hI.2 hcond).of_done hdone).2
  obtain ⟨hwf, hon⟩ := hinv
  refine ⟨hwf.screenWidth, hwf.screenHeight, hon.cursor, fun c hc fuel ↦ ?_⟩
  exact Outcome.Sat.state_of ((staysOn_vt100Putc hwf hw hw' hh hh' hon hc).mono
    (fun _ h' ↦ h'.1) fun _ _ hX ↦ hX)

/-- A line feed, a character and `ESC [ 5;10H`: the next character is drawn in row 4 and
column 9. -/
theorem onScreen_of_reached_eight : ∃ t, Reached Returns StaysOnScreen (freshTerminal 80 24) t ∧
    t.cursor = (9, 4) ∧ CursorFits t ∧ ∀ fuel, Cells t (vt100Putc fuel t (ascii 'x')).state := by
  have hmeets : Meets StaysOnScreen 1 (freshTerminal 80 24)
      [0x0a, ascii 'x', 0x1b,
        ascii '[', ascii '5', ascii ';', ascii '1', ascii '0', ascii 'H'] := by
    decide +kernel
  have hrun : ∃ t, Reached Returns StaysOnScreen (freshTerminal 80 24) t ∧
      t.cursor = (9, 4) ∧ StaysOnScreen t (ascii 'x') :=
    ⟨_, reached_of_meets 1 _ .start hmeets, by decide +kernel, by decide +kernel⟩
  obtain ⟨t, hrun, hcursor, hc⟩ := hrun
  obtain ⟨-, -, hfits, hcells⟩ :=
    onScreen_of_reached (by decide) (by decide) (by decide) (by decide)
    hrun
  exact ⟨t, hrun, hcursor, hfits, hcells _ hc⟩

/-- `ESC [ 99B` puts the cursor into the row below the screen. -/
theorem not_cursorFits_down :
    ∃ t, Path Returns (freshTerminal 80 24) [0x1b, ascii '[', ascii '9', ascii '9', ascii 'B'] t ∧
      ¬CursorFits t := by
  refine ⟨_, .cons ⟨0, rfl⟩ (.cons ⟨0, rfl⟩ (.cons ⟨0, rfl⟩ (.cons ⟨0, rfl⟩ (.cons ⟨0, rfl⟩
    (.nil _))))), fun hfits ↦ ?_⟩
  exact absurd hfits.row_lt (by decide +kernel)

end Martink
