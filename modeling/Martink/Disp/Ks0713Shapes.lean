import Martink.Base.Bits
import Martink.Base.Raster
import Martink.Disp.Ks0713Calls

/-!
# Pixels, lines and rectangles of the LCD driver

What `ks0713_write_pixel` does to the pixels of the frame buffer, and which pixels
`ks0713_draw_line` and `ks0713_draw_rect` ask it for.

The range test of `ks0713_write_pixel` lets the column 128 and the row 64 through. Column 128 is
column 0 eight rows below, or past the end of the buffer in the last page; so is row 64. The
counters of `ks0713_draw_rect` are of type `int8_t`, like the bounds they are compared with: at the
bound 127 no counter gets past it.
-/

namespace Martink.Ks0713

variable {σ : Type}

/-! ## Lines -/

/-- The loop of `ks0713_draw_line` is the general one. -/
theorem drawLineLoop_eq {τ : Type} (plot : τ → BitVec 8 → BitVec 8 → Option τ)
    {x1 y1 sx sy : BitVec 8}
    {dx dy : ℤ} (fuel : ℕ) : ∀ (x0 y0 : BitVec 8) (err : ℤ) (t : τ),
      drawLineLoop plot x1 y1 dx dy sx sy fuel x0 y0 err t
        = lineLoop plot x1 y1 dx dy sx sy fuel x0 y0 err t := by
  induction fuel with
  | zero => exact fun _ _ _ _ ↦ rfl
  | succ fuel ih =>
    intro x0 y0 err t
    rw [drawLineLoop, lineLoop]
    simp only [ih]

/-- The line that `ks0713_draw_line` draws. -/
theorem drawLine_plots (x0 y0 x1 y1 : BitVec 8) :
    Plots (fun _ plot fuel t ↦ drawLine plot fuel x0 y0 x1 y1 t)
      ((Coordinate.signed 8).linePoints x0 y0 x1 y1) := by
  obtain ⟨n, hn⟩ := (Coordinate.signed 8).lineLoop_plots x0 y0 x1 y1
  have hsign (a b : ℤ) :
      (if a < b then (1 : BitVec 8) else -1) = BitVec.ofInt 8 (lineSign a b) := by
    rw [lineSign]
    split_ifs
    · rfl
    · rfl
  refine ⟨n, fun fuel hfuel τ plot t ↦ ?_⟩
  rw [← hn fuel hfuel τ plot t]
  beta_reduce
  rw [drawLine, drawLineLoop_eq, hsign, hsign]
  rfl

/-! ## Rectangles -/

section Rect

variable {τ : Type} (plot : τ → BitVec 8 → BitVec 8 → Option τ) {x1 y1 x2 y2 : BitVec 8}

/-- The test inside the two loops. -/
abbrev OnEdge (x1 y1 x2 y2 x y : BitVec 8) : Prop := y = y1 ∨ y = y2 ∨ x = x1 ∨ x = x2

/-- The outline of a rectangle. -/
def OnOutline (x1 y1 x2 y2 x y : BitVec 8) : Prop :=
  (x1.toInt ≤ x.toInt ∧ x.toInt ≤ x2.toInt) ∧ (y1.toInt ≤ y.toInt ∧ y.toInt ≤ y2.toInt) ∧
    OnEdge x1 y1 x2 y2 x y

theorem drawRectRow_eq (y : BitVec 8) (fuel : ℕ) : ∀ (x : BitVec 8) (t : τ),
    drawRectRow plot x1 y1 x2 y2 y fuel x t
      = forUpto (fun t x ↦ if OnEdge x1 y1 x2 y2 x y then plot t x y else some t) x2 fuel x t := by
  induction fuel with
  | zero => exact fun _ _ ↦ rfl
  | succ fuel ih =>
    intro x t
    rw [drawRectRow, forUpto]
    simp only [ih]

theorem drawRectLoop_eq (rowFuel fuel : ℕ) : ∀ (y : BitVec 8) (t : τ),
    drawRectLoop plot x1 y1 x2 y2 rowFuel fuel y t
      = forUpto (fun t y ↦ drawRectRow plot x1 y1 x2 y2 y rowFuel x1 t) y2 fuel y t := by
  induction fuel with
  | zero => exact fun _ _ ↦ rfl
  | succ fuel ih =>
    intro y t
    rw [drawRectLoop, forUpto]
    simp only [ih]

/-- The points of a row that are plotted. -/
def rowPoints (x1 y1 x2 y2 y : BitVec 8) : List (BitVec 8 × BitVec 8) :=
  ((span x1 x2).filter fun x ↦ OnEdge x1 y1 x2 y2 x y).map fun x ↦ (x, y)

def rectPoints (x1 y1 x2 y2 : BitVec 8) : List (BitVec 8 × BitVec 8) :=
  (span y1 y2).flatMap (rowPoints x1 y1 x2 y2)

theorem mem_rectPoints {x y : BitVec 8} :
    (x, y) ∈ rectPoints x1 y1 x2 y2 ↔ OnOutline x1 y1 x2 y2 x y := by
  simp only [rectPoints, rowPoints, List.mem_flatMap, List.mem_map, List.mem_filter,
    decide_eq_true_eq, mem_span, Prod.mk.injEq, OnOutline]
  constructor
  · rintro ⟨y', hy, x', ⟨hx, hedge⟩, rfl, rfl⟩
    exact ⟨hx, hy, hedge⟩
  · rintro ⟨hx, hy, hedge⟩
    exact ⟨y, hy, x, ⟨hx, hedge⟩, rfl, rfl⟩

theorem nodup_rectPoints : (rectPoints x1 y1 x2 y2).Nodup := by
  refine List.nodup_flatMap.mpr ⟨fun y _ ↦ ?_, (nodup_span y1 y2).imp fun {y y'} hne ↦ ?_⟩
  · exact ((nodup_span x1 x2).filter _).map fun _ _ h ↦ congrArg Prod.fst h
  · intro p hp hp'
    obtain ⟨x, -, rfl⟩ := List.mem_map.mp hp
    obtain ⟨x', -, h⟩ := List.mem_map.mp hp'
    exact hne (congrArg Prod.snd h).symm

/-- A row below the right edge of the screen. -/
theorem drawRectRow_plots (hx : x2.toInt < 127) (y : BitVec 8) {fuel : ℕ}
    (hfuel : (span x1 x2).length < fuel) (t : τ) :
    drawRectRow plot x1 y1 x2 y2 y fuel x1 t
      = (rowPoints x1 y1 x2 y2 y).foldlM (fun t p ↦ plot t p.1 p.2) t := by
  rw [drawRectRow_eq, forUpto_eq _ (by omega) fuel hfuel, rowPoints, List.foldlM_map,
    List.foldlM_filter]
  simp only [decide_eq_true_eq]
  rfl

theorem drawRect_plots (hx : x1.toInt ≤ x2.toInt) (hy : y1.toInt ≤ y2.toInt)
    (hx2 : x2.toInt < 127) (hy2 : y2.toInt < 127) :
    Plots (fun _ plot fuel t ↦ drawRect plot fuel x1 y1 x2 y2 t) (rectPoints x1 y1 x2 y2) := by
  refine ⟨max (span x1 x2).length (span y1 y2).length + 1, fun fuel hfuel τ plot t ↦ ?_⟩
  have hrow (t : τ) (y : BitVec 8) : drawRectRow plot x1 y1 x2 y2 y fuel x1 t
      = (rowPoints x1 y1 x2 y2 y).foldlM (fun t p ↦ plot t p.1 p.2) t :=
    drawRectRow_plots plot hx2 y (by omega) t
  beta_reduce
  rw [drawRect, if_neg (by omega), drawRectLoop_eq, forUpto_eq _ (by omega) fuel (by omega),
    rectPoints, foldlM_flatMap]
  simp only [hrow]

/-- At the greatest value of its type a bound is never passed. -/
theorem drawRect_greatest (hx : x1.toInt ≤ x2.toInt) (hy : y1.toInt ≤ y2.toInt)
    (h : 127 ≤ x2.toInt ∨ 127 ≤ y2.toInt) (fuel : ℕ) (t : τ) :
    drawRect plot fuel x1 y1 x2 y2 t = none := by
  rw [drawRect, if_neg (by omega), drawRectLoop_eq]
  rcases h with h | h
  · cases fuel with
    | zero => rfl
    | succ fuel =>
      rw [forUpto, if_pos hy, drawRectRow_eq, forUpto_greatest _ (by omega)]
      rfl
  · exact forUpto_greatest _ (by omega) fuel y1 t

/-- `ks0713_draw_rect` returns, having asked for each pixel of the outline once and for no other. -/
def DrawsOutline (x1 y1 x2 y2 : BitVec 8) : Prop :=
  ∃ pts : List (BitVec 8 × BitVec 8),
    Plots (fun _ plot fuel t ↦ drawRect plot fuel x1 y1 x2 y2 t) pts ∧
    pts.Nodup ∧ ∀ x y, (x, y) ∈ pts ↔ OnOutline x1 y1 x2 y2 x y

/-- **Rectangles.** They are drawn unless they touch the right or the bottom end of the type. -/
theorem drawsOutline_iff {x1 y1 x2 y2 : BitVec 8} (hx : x1.toInt ≤ x2.toInt)
    (hy : y1.toInt ≤ y2.toInt) :
    DrawsOutline x1 y1 x2 y2 ↔ x2.toInt < 127 ∧ y2.toInt < 127 := by
  constructor
  · rintro ⟨pts, hplots, -⟩
    obtain ⟨fuel, hreturns⟩ := hplots.exists_ne_none
    by_contra h
    exact hreturns (drawRect_greatest _ hx hy (by omega) fuel ())
  · rintro ⟨hx2, hy2⟩
    exact ⟨_, drawRect_plots hx hy hx2 hy2, nodup_rectPoints, fun x y ↦ mem_rectPoints⟩

/-- The lower left pixel of the screen and its right neighbour. -/
theorem drawsOutline_corner :
    ((0 : BitVec 8).toInt ≤ (1 : BitVec 8).toInt ∧ (63 : BitVec 8).toInt ≤ (63 : BitVec 8).toInt) ∧
      DrawsOutline 0 63 1 63 :=
  ⟨by decide, (drawsOutline_iff (by decide) (by decide)).mpr (by decide)⟩

end Rect

/-- The whole screen has its right edge at 127. -/
theorem not_drawsOutline_screen :
    ((0 : BitVec 8).toInt ≤ (127 : BitVec 8).toInt ∧ (0 : BitVec 8).toInt ≤ (63 : BitVec 8).toInt) ∧
      ¬DrawsOutline 0 0 127 63 := by
  refine ⟨by decide, ?_⟩
  rintro ⟨pts, hplots, -⟩
  obtain ⟨fuel, hreturns⟩ := hplots.exists_ne_none
  exact hreturns (drawRect_greatest _ (by decide) (by decide) (by decide) fuel ())

/-! ## Pixels -/

theorem pixelIndex_lt (x : Fin ks0713Width) (y : Fin ks0713Height) :
    (x : ℕ) + (y / 8) * ks0713Width < ks0713Width * ks0713Height / 8 := by
  have hx : (x : ℕ) < 128 := x.isLt
  have hy : (y : ℕ) < 64 := y.isLt
  simp only [ks0713Width, ks0713Height]
  omega

/-- A pixel of the screen. -/
def pixelAt (lcd : LcdBuffer) (x : Fin ks0713Width) (y : Fin ks0713Height) : Bool :=
  (lcd.get ⟨x + (y / 8) * ks0713Width, pixelIndex_lt x y⟩).getLsbD (y % 8)

/-- What an operation makes of a pixel. -/
def opPixel : PixelOp → Bool → Bool
  | .none, b => b
  | .set, _ => true
  | .clr, _ => false
  | .xor, b => !b

/-- What an operation makes of the byte that holds the pixel. -/
def opByte (bit : BitVec 8) : PixelOp → BitVec 8 → BitVec 8
  | .none, b => b
  | .set, b => b ||| bit
  | .clr, b => b &&& ~~~bit
  | .xor, b => b ^^^ bit

theorem getLsbD_opByte (op : PixelOp) {bit b : BitVec 8} {m k : ℕ} (hk : k < 8)
    (hbit : bit.getLsbD k = decide (k = m)) :
    (opByte bit op b).getLsbD k = if k = m then opPixel op (b.getLsbD k) else b.getLsbD k := by
  by_cases hm : k = m
  · rw [decide_eq_true hm] at hbit
    rw [if_pos hm]
    cases op <;> simp only [opByte, opPixel, BitVec.getLsbD_or, BitVec.getLsbD_and,
      BitVec.getLsbD_not, BitVec.getLsbD_xor, hbit, Bool.or_true, Bool.not_true, Bool.and_false,
      Bool.xor_true]
  · rw [decide_eq_false hm] at hbit
    rw [if_neg hm]
    cases op <;> simp only [opByte, BitVec.getLsbD_or, BitVec.getLsbD_and, BitVec.getLsbD_not,
      BitVec.getLsbD_xor, hbit, hk, decide_true, Bool.or_false, Bool.not_false, Bool.and_true,
      Bool.xor_false]

/-- Changing the byte that holds a pixel by an operation on its bit changes that pixel only. -/
theorem modifyByte_opByte (d : Ks0713 σ) (op : PixelOp) (x : Fin ks0713Width)
    (y : Fin ks0713Height) :
    ∃ lcd : LcdBuffer, modifyByte d (x + (y / 8) * ks0713Width) (opByte (bv (y % 8)) op)
        = some { d with lcdBuffer := lcd } ∧
      ∀ i j, pixelAt lcd i j
        = if i = x ∧ j = y then opPixel op (pixelAt d.lcdBuffer i j)
          else pixelAt d.lcdBuffer i j := by
  refine ⟨_, by rw [modifyByte, dif_pos (pixelIndex_lt x y)], fun i j ↦ ?_⟩
  have hi : (i : ℕ) < 128 := i.isLt
  have hx : (x : ℕ) < 128 := x.isLt
  have hk : (j : ℕ) % 8 < 8 := Nat.mod_lt _ (by decide)
  have hbit : (bv (y % 8)).getLsbD (j % 8) = decide ((j : ℕ) % 8 = y % 8) := by
    rw [getLsbD_bv, decide_eq_true hk, Bool.true_and]
    exact decide_eq_decide.mpr eq_comm
  have hget (lcd : LcdBuffer) (n : ℕ) (h : n < ks0713Width * ks0713Height / 8) :
      lcd.get ⟨n, h⟩ = lcd[n] := rfl
  simp only [pixelAt, hget, Vector.getElem_set]
  by_cases hbyte : (x : ℕ) + y / 8 * ks0713Width = i + j / 8 * ks0713Width
  · have hcol : i = x := Fin.ext (by simp only [ks0713Width] at hbyte; omega)
    have hpage : (j : ℕ) / 8 = y / 8 := by simp only [ks0713Width] at hbyte; omega
    rw [if_pos hbyte, getLsbD_opByte op hk hbit]
    have hiff : (j : ℕ) % 8 = y % 8 ↔ i = x ∧ j = y := by
      rw [Fin.ext_iff (a := j)]
      exact ⟨fun h ↦ ⟨hcol, by omega⟩, fun h ↦ by rw [h.2]⟩
    simp only [hiff, hbyte]
  · rw [if_neg hbyte, if_neg]
    rintro ⟨rfl, rfl⟩
    exact hbyte rfl

variable {d : Ks0713 σ} {x y : BitVec 8} {op : PixelOp}

/-- What gets past the range test. -/
theorem writePixel_of_le (hx : x.toNat ≤ ks0713Width) (hy : y.toNat ≤ ks0713Height)
    (hop : op ≠ .none) :
    writePixel d x y op
      = modifyByte d (x.toNat + (y.toNat / 8) * ks0713Width) (opByte (bv (y.toNat % 8)) op) := by
  rw [writePixel, if_neg (by omega)]
  cases op with
  | none => exact absurd rfl hop
  | set => rfl
  | clr => rfl
  | xor => rfl

/-- At most the pixel at these coordinates has changed, and there is one only on the screen. -/
def RightPixel (d : Ks0713 σ) (x y : BitVec 8) (op : PixelOp) : Prop :=
  ∃ lcd : LcdBuffer, writePixel d x y op = some { d with lcdBuffer := lcd } ∧
    ∀ (i : Fin ks0713Width) (j : Fin ks0713Height),
      ((i : ℕ) = x.toNat ∧ (j : ℕ) = y.toNat) ∨ pixelAt lcd i j = pixelAt d.lcdBuffer i j

/-- The range test is right about these coordinates, or the operation has no effect on the pixel of
column 0 that column 128 stands for. -/
def FitsScreen (d : Ks0713 σ) (x y : BitVec 8) (op : PixelOp) : Prop :=
  op = .none ∨ (x.toNat < ks0713Width ∧ y.toNat < ks0713Height) ∨ ks0713Width < x.toNat ∨
    ks0713Height < y.toNat ∨ (x.toNat = ks0713Width ∧ ∃ h : y.toNat + 8 < ks0713Height,
      opPixel op (pixelAt d.lcdBuffer 0 ⟨y.toNat + 8, h⟩) = pixelAt d.lcdBuffer 0 ⟨y.toNat + 8, h⟩)

/-- Past the screen but not past the range test, only column 128 is left. -/
theorem fitsScreen_iff_column (hop : op ≠ .none)
    (hin : ¬(x.toNat < ks0713Width ∧ y.toNat < ks0713Height))
    (hout : ¬(ks0713Width < x.toNat ∨ ks0713Height < y.toNat)) :
    FitsScreen d x y op ↔ x.toNat = ks0713Width ∧ ∃ h : y.toNat + 8 < ks0713Height,
      opPixel op (pixelAt d.lcdBuffer 0 ⟨y.toNat + 8, h⟩) = pixelAt d.lcdBuffer 0
        ⟨y.toNat + 8, h⟩ := by
  rw [FitsScreen, or_iff_right hop, or_iff_right hin, or_iff_right (hout ∘ .inl),
    or_iff_right (hout ∘ .inr)]

/-- The frame buffer that an operation leaves. -/
theorem lcdBuffer_unique {result : Option (Ks0713 σ)} {lcd lcd' : LcdBuffer}
    (h : result = some { d with lcdBuffer := lcd })
    (h' : result = some { d with lcdBuffer := lcd' }) : lcd = lcd' :=
  congrArg Ks0713.lcdBuffer (Option.some.inj (h.symm.trans h'))

theorem rightPixel_of_none (h : writePixel d x y op = some d) : RightPixel d x y op :=
  ⟨d.lcdBuffer, h, fun _ _ ↦ .inr rfl⟩

theorem rightPixel_screen (hx : x.toNat < ks0713Width) (hy : y.toNat < ks0713Height)
    (hop : op ≠ .none) : RightPixel d x y op := by
  obtain ⟨lcd, hwrite, hpixels⟩ := modifyByte_opByte d op ⟨x.toNat, hx⟩ ⟨y.toNat, hy⟩
  refine ⟨lcd, by rw [writePixel_of_le hx.le hy.le hop]; exact hwrite, fun i j ↦ ?_⟩
  rw [hpixels]
  split_ifs with h
  · exact .inl ⟨congrArg Fin.val h.1, congrArg Fin.val h.2⟩
  · exact .inr rfl

/-- Column 128 is column 0 of the next page. -/
theorem writePixel_column (hx : x.toNat = ks0713Width) (hy : y.toNat + 8 < ks0713Height)
    (hop : op ≠ .none) : ∃ lcd : LcdBuffer, writePixel d x y op = some { d with lcdBuffer := lcd } ∧
      ∀ i j, pixelAt lcd i j = if i = 0 ∧
        j = ⟨y.toNat + 8, hy⟩ then opPixel op (pixelAt d.lcdBuffer i j)
        else pixelAt d.lcdBuffer i j := by
  obtain ⟨lcd, hwrite, hpixels⟩ := modifyByte_opByte d op 0 ⟨y.toNat + 8, hy⟩
  refine ⟨lcd, ?_, hpixels⟩
  have hindex : x.toNat + y.toNat / 8 * ks0713Width
      = ((0 : Fin ks0713Width) : ℕ) + (y.toNat + 8) / 8 * ks0713Width := by
    rw [hx, Fin.val_zero, Nat.add_div_right _ (by decide), Nat.succ_mul]
    omega
  rw [writePixel_of_le hx.le (by omega) hop, hindex, ← Nat.add_mod_right y.toNat 8]
  exact hwrite

/-- The last page has no next page, and row 64 belongs to it. -/
theorem writePixel_past (hx : x.toNat ≤ ks0713Width) (hy : y.toNat ≤ ks0713Height)
    (hop : op ≠ .none)
    (h : y.toNat = ks0713Height ∨ x.toNat = ks0713Width ∧ ks0713Height ≤ y.toNat + 8) :
    writePixel d x y op = none := by
  rw [writePixel_of_le hx hy hop, modifyByte, dif_neg]
  simp only [ks0713Width, ks0713Height] at *
  omega

theorem rightPixel_column_iff (hx : x.toNat = ks0713Width) (hy : y.toNat + 8 < ks0713Height)
    (hop : op ≠ .none) : RightPixel d x y op ↔ opPixel op (pixelAt d.lcdBuffer 0 ⟨y.toNat + 8, hy⟩)
      = pixelAt d.lcdBuffer 0 ⟨y.toNat + 8, hy⟩ := by
  obtain ⟨lcd, hwrite, hpixels⟩ := writePixel_column hx hy hop
  constructor
  · rintro ⟨lcd', hwrite', hall⟩
    have hlcd := lcdBuffer_unique hwrite' hwrite
    rcases hall 0 ⟨y.toNat + 8, hy⟩ with ⟨h, -⟩ | h
    · rw [hx] at h
      exact absurd h (by decide)
    · rwa [hlcd, hpixels, if_pos ⟨rfl, rfl⟩] at h
  · intro hsame
    refine ⟨lcd, hwrite, fun i j ↦ .inr ?_⟩
    rw [hpixels]
    split_ifs with h
    · rw [h.1, h.2, hsame]
    · rfl

/-- **Pixels.** The call changes no pixel but its own exactly when its coordinates fit the
screen. -/
theorem rightPixel_iff (d : Ks0713 σ) (x y : BitVec 8) (op : PixelOp) :
    RightPixel d x y op ↔ FitsScreen d x y op := by
  by_cases hop : op = .none
  · subst hop
    refine iff_of_true (rightPixel_of_none ?_) (.inl rfl)
    rw [writePixel]
    split_ifs <;> rfl
  by_cases hout : ks0713Width < x.toNat ∨ ks0713Height < y.toNat
  · refine iff_of_true (rightPixel_of_none ?_) (.inr (.inr ?_))
    · rw [writePixel, if_pos hout]
    · rcases hout with h | h
      · exact .inl h
      · exact .inr (.inl h)
  by_cases hin : x.toNat < ks0713Width ∧ y.toNat < ks0713Height
  · exact iff_of_true (rightPixel_screen hin.1 hin.2 hop) (.inr (.inl hin))
  -- What is left is column 128 and row 64.
  by_cases hcolumn : x.toNat = ks0713Width ∧ y.toNat + 8 < ks0713Height
  · obtain ⟨hx, hy⟩ := hcolumn
    rw [rightPixel_column_iff hx hy hop, fitsScreen_iff_column hop hin hout]
    exact ⟨fun h ↦ ⟨hx, hy, h⟩, fun h ↦ h.2.snd⟩
  · rw [fitsScreen_iff_column hop hin hout]
    refine iff_of_false ?_ fun h ↦ hcolumn ⟨h.1, h.2.fst⟩
    rintro ⟨lcd, hwrite, -⟩
    rw [writePixel_past (by omega) (by omega) hop (by omega)] at hwrite
    cases hwrite

/-- A driver with an empty frame buffer. -/
def blankScreen : Ks0713 Unit where
  portState := 0
  contrast := 0
  lcdBuffer := Vector.replicate _ 0
  cursorX := 0
  cursorY := 0
  bus := ()

/-- A line at column -128 sets the pixel (0, 8), and row 64 is past the end of the buffer. -/
theorem not_rightPixel_column :
    ¬RightPixel blankScreen (-128) 0 .set ∧ ¬RightPixel blankScreen 0 64 .set ∧
      (drawLine (fun d x y ↦ writePixel d x y .set) 1 (-128) 0 (-128) 0 blankScreen).map
        (fun d ↦ pixelAt d.lcdBuffer 0 8) = some true := by
  have hset : (writePixel blankScreen (-128) 0 .set).map (fun d ↦ pixelAt d.lcdBuffer 0 8)
      = some true := by decide +kernel
  refine ⟨?_, ?_, by decide +kernel⟩
  · rintro ⟨lcd, hwrite, hall⟩
    rw [hwrite, Option.map_some] at hset
    rcases hall 0 8 with ⟨h, -⟩ | h
    · exact absurd h (by decide)
    · exact absurd ((Option.some.inj hset).symm.trans h) (by decide +kernel)
  · rintro ⟨lcd, hwrite, -⟩
    rw [writePixel_past (by decide) (by decide) (fun h ↦ PixelOp.noConfusion h)
      (by decide)] at hwrite
    cases hwrite

end Martink.Ks0713
