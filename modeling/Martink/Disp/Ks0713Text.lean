import Martink.Disp.Ks0713Shapes
import Martink.Disp.LcdFont5x7

/-!
# Text on the LCD

The terminal interface of the driver has 21 by 8 cells of six columns each, in the eight pages of
the frame buffer. `TextScreen` says what it is for: a cursor, and in each cell the character that
was put there last.

`_ks0713_put` draws a glyph into the first five columns of the cell and clears a column for the gap.
The column it clears is not the sixth but the eighth, the second of the next cell. So the driver
does what is asked of it as long as both columns are clear anyway, and `textRight_iff` says no
longer.
-/

namespace Martink

/-- A column and a row of the terminal. -/
abbrev TextCell : Type := Fin 21 × Fin 8

inductive TextCall where
  | moveCursor (x y : BitVec 16)
  | put (ch : BitVec 8)

/-! ## What a terminal shows -/

/-- The cursor, and the character put last in each cell. -/
structure TextScreen where
  /-- The cell of the next character. -/
  cursor : TextCell
  /-- The character of each cell that has one. -/
  cells : TextCell → Option (BitVec 8)

namespace TextScreen

def blank (cursor : TextCell) : TextScreen := ⟨cursor, fun _ ↦ none⟩

/-- The coordinates are cut to bytes, and a position off the screen is ignored. -/
def step (s : TextScreen) : TextCall → TextScreen
  | .moveCursor x y =>
    if h : x.toNat % 256 < 21 ∧ y.toNat % 256 < 8 then
      { s with cursor := (⟨x.toNat % 256, h.1⟩, ⟨y.toNat % 256, h.2⟩) }
    else s
  | .put ch => { s with cells := Function.update s.cells s.cursor (some ch) }

/-- Only the moves decide where the cursor is. -/
theorem cursor_foldl_step {s s' : TextScreen} (h : s.cursor = s'.cursor) (calls : List TextCall) :
    (calls.foldl step s).cursor = (calls.foldl step s').cursor := by
  induction calls generalizing s s' with
  | nil => exact h
  | cons call calls ih =>
    refine ih ?_
    cases call with
    | moveCursor x y =>
      simp only [step]
      split_ifs
      · rfl
      · exact h
    | put ch => exact h

end TextScreen

namespace Ks0713

variable {σ : Type}

def ttyStep (d : Ks0713 σ) : TextCall → Option (Ks0713 σ)
  | .moveCursor x y => some (ttyMoveCursor d x y)
  | .put ch => put lcdFont5x7 d ch

/-! ## Cells -/

theorem cellIndex_lt (c : TextCell) {j : ℕ} (hj : j < 8) :
    (c.1 : ℕ) * 6 + j + c.2 * ks0713Width < ks0713Width * ks0713Height / 8 := by
  have hx := c.1.isLt
  have hy := c.2.isLt
  simp only [ks0713Width, ks0713Height]
  omega

/-- The byte of the frame buffer that is `j` columns right of the first one of a cell. -/
def cellIndex (c : TextCell) (j : Fin 8) : Fin (ks0713Width * ks0713Height / 8) :=
  ⟨c.1 * 6 + j + c.2 * ks0713Width, cellIndex_lt c j.isLt⟩

/-- The glyph in the first five columns of the cell, and nothing in the sixth. -/
def Shows (lcd : LcdBuffer) (c : TextCell) (ch : BitVec 8) : Prop :=
  (∀ j : Fin 8, (j : ℕ) < 5 → lcdFont5x7[ch.toNat * 5 + j]? = some (lcd.get (cellIndex c j))) ∧
    ∀ j : Fin 8, (j : ℕ) = 5 → lcd.get (cellIndex c j) = 0

/-- The cursor of the driver is at this cell. -/
def At (d : Ks0713 σ) (c : TextCell) : Prop :=
  d.cursorX.toNat = c.1 ∧ d.cursorY.toNat = c.2

/-- The put shows the character in the cell and leaves the rest of the frame buffer alone. -/
def RightPut (d : Ks0713 σ) (c : TextCell) (ch : BitVec 8) : Prop :=
  ∃ lcd : LcdBuffer, put lcdFont5x7 d ch = some { d with lcdBuffer := lcd } ∧ Shows lcd c ch ∧
    ∀ n, (∀ j : Fin 8, (j : ℕ) < 6 → n ≠ cellIndex c j) → lcd.get n = d.lcdBuffer.get n

/-- The font has the character, and the sixth and the eighth column are clear. -/
def PutFits (d : Ks0713 σ) (c : TextCell) (ch : BitVec 8) : Prop :=
  ch ≠ 255 ∧ ∀ j : Fin 8, (j : ℕ) = 5 ∨ (j : ℕ) = 7 → d.lcdBuffer.get (cellIndex c j) = 0

theorem forall_sixth_eighth (P : Fin 8 → Prop) :
    (∀ j : Fin 8, (j : ℕ) = 5 ∨ (j : ℕ) = 7 → P j) ↔ P 5 ∧ P 7 := by
  constructor
  · exact fun h ↦ ⟨h 5 (.inl rfl), h 7 (.inr rfl)⟩
  · rintro ⟨h5, h7⟩ j (hj | hj)
    · rwa [show j = 5 from Fin.ext hj]
    · rwa [show j = 7 from Fin.ext hj]

theorem cellIndex_inj {c c' : TextCell} {j j' : Fin 8} (hj : (j : ℕ) < 6) (hj' : (j' : ℕ) < 6)
    (h : cellIndex c j = cellIndex c' j') : c = c' ∧ j = j' := by
  have hval : (c.1 : ℕ) * 6 + j + c.2 * 128 = c'.1 * 6 + j' + c'.2 * 128 := congrArg Fin.val h
  have hx := c.1.isLt
  have hx' := c'.1.isLt
  have hrow : (c.2 : ℕ) = c'.2 := by
    have hlt : (c.1 : ℕ) * 6 + j < 128 := by omega
    have hlt' : (c'.1 : ℕ) * 6 + j' < 128 := by omega
    generalize (c.1 : ℕ) * 6 + j = n at hval hlt
    generalize (c'.1 : ℕ) * 6 + j' = n' at hval hlt'
    omega
  rw [hrow] at hval
  refine ⟨Prod.ext (Fin.ext ?_) (Fin.ext hrow), Fin.ext ?_⟩ <;> omega

/-! ## One put -/

/-- A store into the frame buffer. -/
theorem modifyByte_const (d : Ks0713 σ) (n : Fin (ks0713Width * ks0713Height / 8)) (v : BitVec 8) :
    modifyByte d n (fun _ ↦ v) = some { d with lcdBuffer := d.lcdBuffer.set n v } := by
  rw [modifyByte, dif_pos n.isLt]

theorem get_set (lcd : LcdBuffer) (m n : Fin (ks0713Width * ks0713Height / 8)) (v : BitVec 8) :
    Vector.get (lcd.set m v) n = if n = m then v else lcd.get n := by
  have hget (lcd : LcdBuffer) : lcd.get n = lcd[(n : ℕ)] := rfl
  rw [hget, hget, Vector.getElem_set]
  simp only [Fin.ext_iff, eq_comm]

/-- The loop over the columns of the glyph. -/
theorem foldlM_glyph {d : Ks0713 σ} {c : TextCell} {ch : BitVec 8} {k : ℕ} (hk : k ≤ 5)
    (hch : ch ≠ 255) :
    ∃ lcd : LcdBuffer, (List.range k).foldlM (fun d j ↦ do
        let glyph ← lcdFont5x7[ch.toNat * 5 + j]?
        modifyByte d (c.1 * 6 + j + c.2 * ks0713Width) fun _ ↦ glyph) d
        = some { d with lcdBuffer := lcd } ∧
      (∀ j : Fin 8, (j : ℕ) < k →
        lcdFont5x7[ch.toNat * 5 + j]? = some (lcd.get (cellIndex c j))) ∧
      ∀ n, (∀ j : Fin 8, (j : ℕ) < k → n ≠ cellIndex c j) → lcd.get n = d.lcdBuffer.get n := by
  induction k with
  | zero => exact ⟨d.lcdBuffer, rfl, fun j hj ↦ absurd hj (Nat.not_lt_zero _), fun _ _ ↦ rfl⟩
  | succ k ih =>
    obtain ⟨lcd, hloop, hglyph, hframe⟩ := ih (by omega)
    have hlt : ch.toNat * 5 + k < lcdFont5x7.length := by
      have hne : ch.toNat ≠ 255 := fun h ↦ hch (BitVec.eq_of_toNat_eq h)
      have := ch.isLt
      rw [length_lcdFont5x7]
      omega
    have hindex : (cellIndex c ⟨k, by omega⟩ : ℕ) = c.1 * 6 + k + c.2 * ks0713Width := rfl
    refine ⟨lcd.set (cellIndex c ⟨k, by omega⟩) lcdFont5x7[ch.toNat * 5 + k], ?_, fun j hj ↦ ?_,
      fun n hn ↦ ?_⟩
    · rw [List.range_succ, List.foldlM_append, hloop, Option.bind_eq_bind, Option.bind_some,
        List.foldlM_cons, List.getElem?_eq_getElem hlt]
      simp only [Option.bind_eq_bind, Option.bind_some]
      rw [← hindex, modifyByte_const]
      rfl
    · rw [get_set]
      split_ifs with h
      · rw [(cellIndex_inj (by omega) (show k < 6 by omega) h).2]
        exact List.getElem?_eq_getElem hlt
      · have hne : (j : ℕ) ≠ k := fun hjk ↦ h (congrArg _ (Fin.ext hjk))
        exact hglyph j (by omega)
    · rw [get_set, if_neg (hn ⟨k, by omega⟩ (Nat.lt_succ_self k))]
      exact hframe n fun j hj ↦ hn j (by omega)

/-- What a put does: it stores the glyph and clears the eighth column. -/
theorem put_eq {d : Ks0713 σ} {c : TextCell} {ch : BitVec 8} (h : At d c) (hch : ch ≠ 255) :
    ∃ lcd : LcdBuffer,
      put lcdFont5x7 d ch = some { d with lcdBuffer := lcd.set (cellIndex c 7) 0 } ∧
      (∀ j : Fin 8, (j : ℕ) < 5 →
        lcdFont5x7[ch.toNat * 5 + j]? = some (lcd.get (cellIndex c j))) ∧
      ∀ n, (∀ j : Fin 8, (j : ℕ) < 5 → n ≠ cellIndex c j) → lcd.get n = d.lcdBuffer.get n := by
  obtain ⟨lcd, hloop, hglyph, hframe⟩ := foldlM_glyph (d := d) (c := c) le_rfl hch
  refine ⟨lcd, ?_, hglyph, hframe⟩
  have hcol := c.1.isLt
  have hrow := c.2.isLt
  have hx : (d.cursorX * 6).toNat = (c.1 : ℕ) * 6 := by
    have hmul : (d.cursorX * 6).toNat = (c.1 : ℕ) * 6 % 65536 := by
      rw [BitVec.toNat_mul, h.1]
      rfl
    omega
  have hy : (d.cursorY * 8).toNat / 8 = (c.2 : ℕ) := by
    have hmul : (d.cursorY * 8).toNat = (c.2 : ℕ) * 8 % 65536 := by
      rw [BitVec.toNat_mul, h.2]
      rfl
    omega
  have hclear : (c.1 : ℕ) * 6 + 6 + c.2 * ks0713Width + 1 = (cellIndex c 7 : ℕ) := by
    change _ = (c.1 : ℕ) * 6 + 7 + c.2 * ks0713Width
    omega
  rw [put]
  simp only [hx, hy]
  rw [hloop, Option.bind_eq_bind, Option.bind_some, hclear, modifyByte_const]

theorem put_255 (d : Ks0713 σ) : put lcdFont5x7 d 255 = none := by
  have hfont : lcdFont5x7[(255 : BitVec 8).toNat * 5 + 0]? = none :=
    List.getElem?_eq_none length_lcdFont5x7.le
  rw [put, show List.range 5 = 0 :: [1, 2, 3, 4] from rfl, List.foldlM_cons, hfont]
  rfl

/-- A put does not move the cursor. -/
theorem At.put {d d' : Ks0713 σ} {c : TextCell} {ch : BitVec 8} (h : At d c)
    (hput : Ks0713.put lcdFont5x7 d ch = some d') : At d' c := by
  by_cases hch : ch = 255
  · rw [hch, put_255] at hput
    cases hput
  · obtain ⟨lcd, hput', -⟩ := put_eq h hch
    rw [hput'] at hput
    cases hput
    exact h

/-- The columns six to eight of a cell are none of the first five. -/
theorem ne_cellIndex (c : TextCell) {j : Fin 8} (hj : 5 ≤ (j : ℕ)) (i : Fin 8) (hi : (i : ℕ) < 5) :
    cellIndex c j ≠ cellIndex c i := by
  intro h
  have hval : (c.1 : ℕ) * 6 + j + c.2 * ks0713Width = c.1 * 6 + i + c.2 * ks0713Width :=
    congrArg Fin.val h
  omega

/-- **One put.** It is right exactly when the character is in the font and the columns fit. -/
theorem rightPut_iff {d : Ks0713 σ} {c : TextCell} (h : At d c) (ch : BitVec 8) :
    RightPut d c ch ↔ PutFits d c ch := by
  by_cases hch : ch = 255
  · subst hch
    refine iff_of_false ?_ fun hfits ↦ hfits.1 rfl
    rintro ⟨lcd, hput, -⟩
    rw [put_255] at hput
    cases hput
  obtain ⟨lcd, hput, hglyph, hframe⟩ := put_eq h hch
  have hsixth : lcd.get (cellIndex c 5) = d.lcdBuffer.get (cellIndex c 5) :=
    hframe _ (ne_cellIndex c (by decide))
  have height : lcd.get (cellIndex c 7) = d.lcdBuffer.get (cellIndex c 7) :=
    hframe _ (ne_cellIndex c (by decide))
  have hne : cellIndex c 5 ≠ cellIndex c 7 := by
    intro h
    have hval : (c.1 : ℕ) * 6 + 5 + c.2 * ks0713Width = c.1 * 6 + 7 + c.2 * ks0713Width :=
      congrArg Fin.val h
    omega
  constructor
  · rintro ⟨lcd', hput', hshows, hrest⟩
    obtain rfl := lcdBuffer_unique hput' hput
    refine ⟨hch, (forall_sixth_eighth _).mpr ⟨?_, ?_⟩⟩
    · have hblank := hshows.2 5 rfl
      rwa [get_set, if_neg hne, hsixth] at hblank
    · have hnext := hrest (cellIndex c 7) fun j hj hval ↦ by
        have hindex : (c.1 : ℕ) * 6 + 7 + c.2 * ks0713Width = c.1 * 6 + j + c.2 * ks0713Width :=
          congrArg Fin.val hval
        omega
      rw [get_set, if_pos rfl] at hnext
      exact hnext.symm
  · rintro ⟨-, hclear⟩
    obtain ⟨h5, h7⟩ := (forall_sixth_eighth _).mp hclear
    -- Clearing a column that is clear already changes nothing.
    have hsame (n) : Vector.get (lcd.set (cellIndex c 7) 0) n = lcd.get n := by
      rw [get_set]
      split_ifs with hn
      · rw [hn, height, h7]
      · rfl
    refine ⟨_, hput, ⟨fun j hj ↦ ?_, fun j hj ↦ ?_⟩, fun n hn ↦ ?_⟩
    · rw [hsame]
      exact hglyph j hj
    · rw [show j = 5 from Fin.ext hj, hsame, hsixth, h5]
    · rw [hsame]
      exact hframe n fun j hj ↦ hn j (by omega)

/-! ## The cursor of the driver -/

theorem at_ttyMoveCursor {d : Ks0713 σ} {s : TextScreen} (h : At d s.cursor) (x y : BitVec 16) :
    At (ttyMoveCursor d x y) (s.step (.moveCursor x y)).cursor := by
  have hx : (x.setWidth 8).toNat = x.toNat % 256 := BitVec.toNat_setWidth 8 x
  have hy : (y.setWidth 8).toNat = y.toNat % 256 := BitVec.toNat_setWidth 8 y
  rw [ttyMoveCursor, moveCursor, TextScreen.step, hx, hy]
  simp only [ks0713Width, ks0713Height]
  by_cases hin : x.toNat % 256 < 21 ∧ y.toNat % 256 < 8
  · rw [if_neg (by omega), if_neg (by omega), dif_pos hin]
    have hcut (z : BitVec 16) : ((z.setWidth 8).setWidth 16).toNat = z.toNat % 256 := by
      rw [BitVec.toNat_setWidth, BitVec.toNat_setWidth]
      exact Nat.mod_eq_of_lt ((Nat.mod_lt _ (by decide)).trans (by decide))
    exact ⟨hcut x, hcut y⟩
  · rw [dif_neg hin]
    split_ifs
    · exact h
    · exact h
    · omega

/-- The driver never leaves the 21 by 8 cells. -/
theorem exists_at_moveCursor {d : Ks0713 σ} {c : TextCell} (h : At d c) (x y : BitVec 8) :
    ∃ c', At (moveCursor d x y) c' := by
  have hx : (x.setWidth 16).setWidth 8 = x := BitVec.setWidth_setWidth_of_le _ (by decide)
  have hy : (y.setWidth 16).setWidth 8 = y := BitVec.setWidth_setWidth_of_le _ (by decide)
  have hat := at_ttyMoveCursor (s := .blank c) h (x.setWidth 16) (y.setWidth 16)
  rw [ttyMoveCursor, hx, hy] at hat
  exact ⟨_, hat⟩

variable (saveMemory : Bool) (putn : σ → List (BitVec 16) → σ) (fuel : ℕ)

theorem exists_at_runCall {d d' : Ks0713 σ} {c : TextCell} {call : Call} (h : At d c)
    (hcall : runCall saveMemory putn lcdFont5x7 fuel d call = some d') : ∃ c', At d' c' := by
  have hplot (op : PixelOp) (u : Ks0713 σ) (x y : BitVec 8) (u' : Ks0713 σ) (hu : At u c)
      (hw : writePixel u x y op = some u') : At u' c := by
    obtain ⟨lcd, rfl⟩ := exists_lcdBuffer_of_writePixel hw
    exact hu
  cases call with
  | setBacklight on =>
    cases hcall
    exact ⟨c, h⟩
  | commit =>
    obtain ⟨bus, hcommit⟩ := commitWith_eq saveMemory putn d
    rw [runCall, hcommit] at hcall
    cases hcall
    exact ⟨c, h⟩
  | setContrast val =>
    cases hcall
    exact ⟨c, h⟩
  | clear =>
    cases hcall
    exact ⟨c, h⟩
  | writePixel x y op => exact ⟨c, hplot op d x y d' h hcall⟩
  | drawLine x0 y0 x1 y1 op => exact ⟨c, drawLineLoop_invariant (hplot op) fuel h hcall⟩
  | drawRect x1 y1 x2 y2 op =>
    simp only [runCall, drawRect] at hcall
    split at hcall
    · cases hcall
      exact ⟨c, h⟩
    · exact ⟨c, drawRectLoop_invariant (hplot op) fuel h hcall⟩
  | moveCursor x y =>
    cases hcall
    exact exists_at_moveCursor h x y
  | ttyMoveCursor x y =>
    cases hcall
    exact exists_at_moveCursor h _ _
  | put ch =>
    exact ⟨c, h.put hcall⟩

/-- After the power-up sequence and any calls, the cursor is at a cell. -/
theorem exists_at_of_runCalls {d d' : Ks0713 σ} {calls : List Call}
    (hrun : runCalls saveMemory putn lcdFont5x7 fuel d calls = some d') : ∃ c, At d' c := by
  obtain ⟨bus, hcommit⟩ := commitWith_eq saveMemory putn (initDisplay putn d)
  rw [runCalls, init, hcommit] at hrun
  have hinit : At (setBacklight putn { initDisplay putn d with bus := bus } 1) (0, 0) :=
    ⟨rfl, rfl⟩
  exact foldlM_invariant (P := fun d : Ks0713 σ ↦ ∃ c, At d c)
    (fun d call d' h hcall ↦ h.elim fun _ hat ↦ exists_at_runCall _ _ _ hat hcall) ⟨_, hinit⟩ hrun

/-! ## Runs -/

/-- The driver shows what the terminal should. -/
structure Refines (d : Ks0713 σ) (s : TextScreen) : Prop where
  /-- The cursor is at the same cell. -/
  cursor : At d s.cursor
  /-- The pixels of a cell are those of its character. -/
  cells : ∀ c ch, s.cells c = some ch → Shows d.lcdBuffer c ch

theorem lcdBuffer_ttyMoveCursor (d : Ks0713 σ) (x y : BitVec 16) :
    (ttyMoveCursor d x y).lcdBuffer = d.lcdBuffer := by
  rw [ttyMoveCursor, moveCursor]
  split_ifs <;> rfl

theorem Refines.moveCursor {d : Ks0713 σ} {s : TextScreen} (h : Refines d s) (x y : BitVec 16) :
    Refines (ttyMoveCursor d x y) (s.step (.moveCursor x y)) := by
  refine ⟨at_ttyMoveCursor h.cursor x y, fun c ch hc ↦ ?_⟩
  have hcells : (s.step (.moveCursor x y)).cells = s.cells := by
    rw [TextScreen.step]
    split_ifs <;> rfl
  rw [lcdBuffer_ttyMoveCursor]
  exact h.cells c ch (by rwa [hcells] at hc)

/-- A right put keeps what the other cells show. -/
theorem Refines.put {d : Ks0713 σ} {s : TextScreen} {ch : BitVec 8} (h : Refines d s)
    (hput : RightPut d s.cursor ch) :
    ∃ d', Ks0713.put lcdFont5x7 d ch = some d' ∧ Refines d' (s.step (.put ch)) := by
  obtain ⟨lcd, hstep, hshows, hframe⟩ := hput
  refine ⟨_, hstep, h.cursor, fun c ch' hc ↦ ?_⟩
  have hcells : Function.update s.cells s.cursor (some ch) c = some ch' := hc
  by_cases hcur : c = s.cursor
  · rw [hcur, Function.update_self] at hcells
    obtain rfl := Option.some.inj hcells
    rw [hcur]
    exact hshows
  · rw [Function.update_of_ne hcur] at hcells
    have hold : Shows d.lcdBuffer c ch' := h.cells c ch' hcells
    have hsame (j : Fin 8) (hj : (j : ℕ) < 6) :
        lcd.get (cellIndex c j) = d.lcdBuffer.get (cellIndex c j) :=
      hframe _ fun i hi hval ↦ hcur (cellIndex_inj hj hi hval).1
    refine ⟨fun j hj ↦ ?_, fun j hj ↦ ?_⟩
    · rw [hsame j (by omega)]
      exact hold.1 j hj
    · rw [hsame j (by omega)]
      exact hold.2 j hj

/-- The terminal after some calls, from this position of the cursor. -/
def screenAfter (c : TextCell) (calls : List TextCall) : TextScreen :=
  calls.foldl TextScreen.step (.blank c)

/-- Every put of the calls is asked something of, in the state before it. -/
def EachPut (P : Ks0713 σ → TextCell → BitVec 8 → Prop) (d : Ks0713 σ) (c : TextCell)
    (calls : List TextCall) : Prop :=
  ∀ before ch after d₁, calls = before ++ .put ch :: after → before.foldlM ttyStep d = some d₁ →
    P d₁ (screenAfter c before).cursor ch

/-- No put reads past the font or changes anything outside its cell, and in the end every cell shows
the character put there last. -/
def TextRight (d : Ks0713 σ) (c : TextCell) (calls : List TextCall) : Prop :=
  EachPut RightPut d c calls ∧
    ∃ d', calls.foldlM ttyStep d = some d' ∧ Refines d' (screenAfter c calls)

theorem screenAfter_concat (c : TextCell) (calls : List TextCall) (call : TextCall) :
    screenAfter c (calls ++ [call]) = (screenAfter c calls).step call := by
  rw [screenAfter, List.foldl_append]
  rfl

/-- If every put is right, the driver follows the terminal. -/
theorem exists_refines {d : Ks0713 σ} {c : TextCell} (h : At d c) (calls : List TextCall) :
    EachPut RightPut d c calls →
      ∃ d', calls.foldlM ttyStep d = some d' ∧ Refines d' (screenAfter c calls) := by
  induction calls using List.reverseRecOn with
  | nil => exact fun _ ↦ ⟨d, rfl, h, fun _ _ hc ↦ nomatch hc⟩
  | append_singleton calls call ih =>
    intro hputs
    obtain ⟨d₁, hrun, hrefines⟩ := ih fun before ch after d₁ hsplit hbefore ↦
      hputs before ch (after ++ [call]) d₁ (by rw [hsplit]; simp) hbefore
    rw [screenAfter_concat]
    cases call with
    | moveCursor x y =>
      exact ⟨_, foldlM_concat_eq_some_iff.mpr ⟨d₁, hrun, rfl⟩, hrefines.moveCursor x y⟩
    | put ch =>
      obtain ⟨d', hput, hrefines'⟩ := hrefines.put (hputs calls ch [] d₁ rfl hrun)
      exact ⟨d', foldlM_concat_eq_some_iff.mpr ⟨d₁, hrun, hput⟩, hrefines'⟩

theorem at_of_run {d d' : Ks0713 σ} {c : TextCell} (h : At d c) {calls : List TextCall}
    (hrun : calls.foldlM ttyStep d = some d') : At d' (screenAfter c calls).cursor := by
  refine foldlM_rel (g := TextScreen.step) (R := fun (d : Ks0713 σ) s ↦ At d s.cursor)
    (fun d s call d' hat hstep ↦ ?_) calls h hrun
  cases call with
  | moveCursor x y =>
    cases hstep
    exact at_ttyMoveCursor hat x y
  | put ch =>
    exact hat.put hstep

/-- **Text.** Whatever the frame buffer holds and whatever is put where, the driver does what is
asked of it exactly when each put finds its columns clear and its character in the font. -/
theorem textRight_iff {d : Ks0713 σ} {c : TextCell} (h : At d c) (calls : List TextCall) :
    TextRight d c calls ↔ EachPut PutFits d c calls := by
  have hiff : EachPut RightPut d c calls ↔ EachPut PutFits d c calls := by
    refine forall₅_congr fun before ch after d₁ _ ↦ ⟨fun hput hrun ↦ ?_, fun hput hrun ↦ ?_⟩
    · exact (rightPut_iff (at_of_run h hrun) ch).mp (hput hrun)
    · exact (rightPut_iff (at_of_run h hrun) ch).mpr (hput hrun)
  rw [← hiff]
  exact ⟨fun hright ↦ hright.1, fun hputs ↦ ⟨hputs, exists_refines h calls hputs⟩⟩

theorem eachPut_nil {P : Ks0713 σ → TextCell → BitVec 8 → Prop} {d : Ks0713 σ} {c : TextCell} :
    EachPut P d c [] :=
  fun before _ _ _ hsplit _ ↦ by cases before <;> exact nomatch hsplit

theorem eachPut_cons {P : Ks0713 σ → TextCell → BitVec 8 → Prop} {d : Ks0713 σ} {c : TextCell}
    {call : TextCall} {calls : List TextCall} (hfirst : ∀ ch, call = .put ch → P d c ch)
    (hrest : ∀ d', ttyStep d call = some d' → EachPut P d' (screenAfter c [call]).cursor calls) :
    EachPut P d c (call :: calls) := by
  rintro (_ | ⟨call', before⟩) ch after d₁ hsplit hrun
  · cases hrun
    exact hfirst ch (List.cons.inj hsplit).1
  · obtain ⟨hcall, hcalls⟩ := List.cons.inj hsplit
    subst hcall
    obtain ⟨d', hd', hrun⟩ := foldlM_cons_eq_some_iff.mp hrun
    have hstep : ((TextScreen.blank c).step call).cursor
        = (TextScreen.blank ((TextScreen.blank c).step call).cursor).cursor := rfl
    have hcursor : (screenAfter c (call :: before)).cursor
        = (screenAfter (screenAfter c [call]).cursor before).cursor :=
      TextScreen.cursor_foldl_step hstep before
    rw [hcursor]
    exact hrest d' hd' before ch after d₁ hcalls hrun

/-- Two letters, put from left to right. -/
theorem textRight_blankScreen : At blankScreen (0, 0) ∧
    TextRight blankScreen (0, 0) [.put 0x41, .moveCursor 1 0, .put 0x42] := by
  have hat : At blankScreen (0, 0) := ⟨rfl, rfl⟩
  refine ⟨hat, (textRight_iff hat _).mpr ?_⟩
  refine eachPut_cons (fun ch h ↦ ?_) fun d' hd' ↦ eachPut_cons (fun _ h ↦ nomatch h) fun d'' hd'' ↦
    eachPut_cons (fun ch h ↦ ?_) fun _ _ ↦ eachPut_nil
  · cases h
    exact ⟨by decide, (forall_sixth_eighth _).mpr ⟨by decide +kernel, by decide +kernel⟩⟩
  · cases h
    have hcols : (ttyStep blankScreen (.put 0x41)).map (fun d ↦
        (d.lcdBuffer.get (cellIndex (1, 0) 5), d.lcdBuffer.get (cellIndex (1, 0) 7)))
        = some (0, 0) := by decide +kernel
    rw [hd', Option.map_some] at hcols
    have hsame : d''.lcdBuffer = d'.lcdBuffer := by
      cases hd''
      exact lcdBuffer_ttyMoveCursor d' 1 0
    obtain ⟨h5, h7⟩ := Prod.mk.inj (Option.some.inj hcols)
    refine ⟨by decide, (forall_sixth_eighth _).mpr ?_⟩
    rw [hsame]
    exact ⟨h5, h7⟩

/-- Put from right to left, the second letter clears a column of the first. -/
theorem not_textRight_blankScreen :
    ¬TextRight blankScreen (0, 0) [.moveCursor 1 0, .put 0x42, .moveCursor 0 0, .put 0x41] ∧
      ¬TextRight blankScreen (0, 0) [.put 255] := by
  constructor
  · rintro ⟨-, d', hrun, hrefines⟩
    have hcol : ([.moveCursor 1 0, .put 0x42, .moveCursor 0 0, .put 0x41].foldlM ttyStep
        blankScreen).map (fun d ↦ d.lcdBuffer.get (cellIndex (1, 0) 1)) = some 0 := by
      decide +kernel
    rw [hrun, Option.map_some] at hcol
    have hglyph := (hrefines.cells (1, 0) 0x42 rfl).1 1 (by decide)
    rw [Option.some.inj hcol] at hglyph
    exact absurd hglyph (by decide +kernel)
  · rintro ⟨-, d', hrun, -⟩
    rw [List.foldlM_cons, ttyStep, put_255] at hrun
    cases hrun

end Ks0713

end Martink
