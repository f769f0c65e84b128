import Martink.Base.Word
import Martink.Disp.Ili9340Panel

/-!
# Rectangles on the TFT

`ili9340_fillRect` shortens a rectangle that goes beyond the right or the lower edge, but it does
not look whether the rectangle starts on the screen, as `ili9340_drawFastHLine` does. The extent
that is left then is negative, and is stored in an unsigned variable. `ili9340_drawFastVLine` gives
`x + h` for the height. `ili9340_writeRect` and `ili9340_readRect` count pixels in 16 bits, which is
not enough for the whole screen.

On the AVR the sum in the test for an edge is one of 16 bits, and can pass for a small one.
-/

namespace Martink

/-- `struct ili9340`, by the size of its screen. -/
structure Ili9340 where
  /-- The width, as the rotation has it. -/
  screenWidth : BitVec 16
  /-- The height, as the rotation has it. -/
  screenHeight : BitVec 16

namespace Ili9340

/-! ## The functions -/

def tftWidth : BitVec 16 := 240

def tftHeight : BitVec 16 := 320

def madctl : BitVec 8 := 0x36

def madctlMy : BitVec 8 := 0x80

def madctlMx : BitVec 8 := 0x40

def madctlMv : BitVec 8 := 0x20

def madctlBgr : BitVec 8 := 0x08

def setRotation (m : BitVec 8) : List Signal × Ili9340 :=
  let rotation := m.toNat % 4
  if rotation = 0 then
    (wrCommand madctl ++ wrData (madctlMx ||| madctlBgr), ⟨tftWidth, tftHeight⟩)
  else if rotation = 1 then
    (wrCommand madctl ++ wrData (madctlMv ||| madctlBgr), ⟨tftHeight, tftWidth⟩)
  else if rotation = 2 then
    (wrCommand madctl ++ wrData (madctlMy ||| madctlBgr), ⟨tftWidth, tftHeight⟩)
  else
    (wrCommand madctl ++ wrData (madctlMv ||| madctlMy ||| madctlMx ||| madctlBgr),
      ⟨tftHeight, tftWidth⟩)

/-- A body that is run `n` times. -/
def times {α : Type} (n : ℕ) (l : List α) : List α := (List.replicate n l).flatten

/-- The clipping along one axis, `if ((x + w - 1) >= size) w = size - x`. -/
def clip (b : IntWidth) (size x w : BitVec 16) : BitVec 16 :=
  if b.sum (x.toNat + w.toNat - 1) ≥ size.toNat then size - x else w

/-- The two bytes of a pixel. -/
def sendPixel (color : BitVec 16) : List Signal :=
  [.byte ((color >>> 8).setWidth 8), .byte (color.setWidth 8)]

def fillRect (b : IntWidth) (self : Ili9340) (x y w h color : BitVec 16) : List Signal :=
  let w := clip b self.screenWidth x w
  let h := clip b self.screenHeight y h
  setAddrWindowWR x y (x + w - 1) (y + h - 1) ++ [.dc true, .cs false] ++
    times h.toNat (times w.toNat (sendPixel color)) ++ [.cs true]

def drawFastHLine (b : IntWidth) (self : Ili9340) (x y w color : BitVec 16) : List Signal :=
  if x.toNat ≥ self.screenWidth.toNat ∨ y.toNat ≥ self.screenHeight.toNat then []
  else
    let w := clip b self.screenWidth x w
    setAddrWindowWR x y (x + w - 1) y ++ [.dc true, .cs false] ++
      times w.toNat (sendPixel color) ++ [.cs true]

def drawFastVLine (b : IntWidth) (self : Ili9340) (x y h color : BitVec 16) : List Signal :=
  fillRect b self (if h.toNat > 0 then x else x + h) y 1 (if h.toNat > 0 then x + h else x) color

/-- The pixels are `data[0]`, `data[1]` and so on. Their number is of type `uint16_t`. -/
def writeRect (x y w h : BitVec 16) (data : ℕ → BitVec 16) : List Signal :=
  let cnt := w * h
  setAddrWindow x y (x + w - 1) (y + h - 1) ++ [.cs false, .dc false, .byte ramwr, .dc true] ++
    (List.range cnt.toNat).flatMap (fun c ↦ sendPixel (data c)) ++ [.cs true]

/-- `ILI9340_RAMRD`. -/
def ramrd : BitVec 8 := 0x2e

/-- `RGB16`. -/
def rgb16 (r g b : BitVec 8) : BitVec 16 :=
  (r.setWidth 16 >>> 3) <<< 11 ||| (g.setWidth 16 >>> 2) <<< 5 ||| b.setWidth 16 >>> 3

def Signal.isByte : Signal → Bool
  | .cs _ => false
  | .dc _ => false
  | .byte _ => true

/-- How many bytes go over the bus, in either direction. -/
def byteCount (l : List Signal) : ℕ := l.countP Signal.isByte

/-- What is sent, and the entries of `data` that are stored, in order. `miso` are the bytes that
come back; the three of a pixel are taken from the left to the right. -/
def readRect (miso : ℕ → BitVec 8) (x y w h : BitVec 16) : List Signal × List (ℕ × BitVec 16) :=
  let header := setAddrWindow x y (x + w - 1) (y + h - 1) ++
    [.cs false, .dc false, .byte ramrd, .dc true, .byte 0]
  let cnt := w * h
  let first := byteCount header
  (header ++ times cnt.toNat [.byte 0, .byte 0, .byte 0] ++ [.cs true],
    (List.range cnt.toNat).map fun c ↦
      (c, rgb16 (miso (first + 3 * c)) (miso (first + 3 * c + 1)) (miso (first + 3 * c + 2))))

/-! ## Clipping -/

/-- The part of a segment that is on the screen. -/
def onScreen (size x w : BitVec 16) : Finset ℕ :=
  Finset.Ico x.toNat (x.toNat + w.toNat) ∩ Finset.range size.toNat

/-- The clipping is right along this axis. -/
def AxisFits (b : IntWidth) (size x w : BitVec 16) : Prop :=
  x.toNat ≤ size.toNat ∧ (b = .bits16 → 1 ≤ x.toNat + w.toNat ∧ x.toNat + w.toNat ≤ 65536)

theorem onScreen_eq (size x w : BitVec 16) :
    onScreen size x w = Finset.Ico x.toNat (min (x.toNat + w.toNat) size.toNat) := by
  ext i
  simp only [onScreen, Finset.mem_inter, Finset.mem_Ico, Finset.mem_range]
  omega

theorem card_onScreen (size x w : BitVec 16) :
    (onScreen size x w).card = min w.toNat (size.toNat - x.toNat) := by
  rw [onScreen_eq, Nat.card_Ico]
  omega

theorem toNat_clip {b : IntWidth} {size x w : BitVec 16} (h : AxisFits b size x w) :
    (clip b size x w).toNat = (onScreen size x w).card := by
  have hsize := size.isLt
  have hsub : (size - x).toNat = size.toNat - x.toNat := BitVec.toNat_sub_of_le h.1
  rw [card_onScreen, clip]
  cases b with
  | bits16 =>
    have hsum := h.2 rfl
    rw [IntWidth.sum, Int.emod_eq_of_lt (by omega) (by omega)]
    split_ifs <;> omega
  | bits32 =>
    rw [IntWidth.sum]
    split_ifs <;> omega

/-- Where the clipping is wrong, too much is left. -/
theorem lt_toNat_clip {b : IntWidth} {size x w : BitVec 16} (hsize : 0 < size.toNat)
    (h : ¬AxisFits b size x w) : (onScreen size x w).card < (clip b size x w).toNat := by
  have hx := x.isLt
  have hw := w.isLt
  have hlt := size.isLt
  have hsub : (size - x).toNat = (65536 - x.toNat + size.toNat) % 65536 := BitVec.toNat_sub size x
  rw [card_onScreen, clip]
  rw [AxisFits, not_and_or] at h
  cases b with
  | bits16 =>
    rw [IntWidth.sum]
    simp only [true_imp_iff] at h
    split_ifs <;> omega
  | bits32 =>
    rw [IntWidth.sum]
    simp only [reduceCtorEq, false_imp_iff, not_true_eq_false, or_false] at h
    split_ifs <;> omega

theorem card_onScreen_eq_zero_iff {b : IntWidth} {size x w : BitVec 16} (h : AxisFits b size x w) :
    (onScreen size x w).card = 0 ↔ w.toNat = 0 ∨ x.toNat = size.toNat := by
  have hx := h.1
  rw [card_onScreen]
  omega

/-- The ends of the window along an axis. -/
theorem Icc_eq_onScreen {b : IntWidth} {size x w : BitVec 16} (h : AxisFits b size x w)
    (hpos : 0 < (onScreen size x w).card) :
    Finset.Icc x.toNat (x + clip b size x w - 1).toNat = onScreen size x w := by
  have hclip := toNat_clip h
  have hsize := size.isLt
  have hx := h.1
  rw [card_onScreen] at hclip hpos
  have hlast : (x + clip b size x w - 1).toNat = x.toNat + (clip b size x w).toNat - 1 := by
    bv_omega
  rw [onScreen_eq]
  ext i
  rw [Finset.mem_Icc, Finset.mem_Ico]
  omega

/-! ## What is drawn -/

theorem times_times {α : Type} (m n : ℕ) (l : List α) : times m (times n l) = times (m * n) l := by
  rw [times, times, ← List.map_replicate, ← List.flatten_flatten, List.flatten_replicate_replicate]
  rfl

theorem times_sendPixel (n : ℕ) (color : BitVec 16) : times n (sendPixel color)
    = ((List.replicate n color).flatMap colourBytes).map .byte := by
  rw [List.flatMap_replicate, List.map_flatten, List.map_replicate]
  rfl

/-- The window and the number of pixels that `ili9340_fillRect` is left with. -/
theorem drawn_fillRect (b : IntWidth) (self : Ili9340) (x y w h color : BitVec 16) :
    let w' := clip b self.screenWidth x w
    let h' := clip b self.screenHeight y h
    drawn (fillRect b self x y w h color)
      = ⟨(x, x + w' - 1), (y, y + h' - 1), (List.replicate (h'.toNat * w'.toNat) color).mapIdx
          fun i k ↦ (Panel.place ⟨(x, x + w' - 1), (y, y + h' - 1), []⟩ i, k)⟩ := by
  intro w' h'
  rw [fillRect, times_times, times_sendPixel]
  exact drawn_burst x y (x + w' - 1) (y + h' - 1) (List.replicate (h'.toNat * w'.toNat) color)

theorem drawn_drawFastHLine (b : IntWidth) {self : Ili9340} {x y : BitVec 16} (w color : BitVec 16)
    (hx : x.toNat < self.screenWidth.toNat) (hy : y.toNat < self.screenHeight.toNat) :
    let w' := clip b self.screenWidth x w
    drawn (drawFastHLine b self x y w color)
      = ⟨(x, x + w' - 1), (y, y), (List.replicate w'.toNat color).mapIdx
          fun i k ↦ (Panel.place ⟨(x, x + w' - 1), (y, y), []⟩ i, k)⟩ := by
  intro w'
  have hburst := drawn_burst x y (x + w' - 1) y (List.replicate w'.toNat color)
  rw [← times_sendPixel] at hburst
  rw [drawFastHLine, if_neg (by omega)]
  exact hburst

/-! ## Filling -/

/-- As many pixels as the part of the rectangle on the screen has, in a window that is this part. -/
structure DrawsClipped (dev : Ili9340) (x y w h : BitVec 16) (l : List Signal) : Prop where
  /-- As many pixels are painted as the part on the screen has. -/
  count : (drawn l).painted.length
    = (onScreen dev.screenWidth x w ×ˢ onScreen dev.screenHeight y h).card
  /-- The window is that part. -/
  window : (onScreen dev.screenWidth x w ×ˢ onScreen dev.screenHeight y h).Nonempty →
    (drawn l).window = onScreen dev.screenWidth x w ×ˢ onScreen dev.screenHeight y h

/-- Both axes are clipped right, or one of them is, and nothing is left of it. -/
def FillFits (b : IntWidth) (self : Ili9340) (x y w h : BitVec 16) : Prop :=
  (AxisFits b self.screenWidth x w ∧ AxisFits b self.screenHeight y h) ∨
    (AxisFits b self.screenWidth x w ∧ (w.toNat = 0 ∨ x.toNat = self.screenWidth.toNat)) ∨
    (AxisFits b self.screenHeight y h ∧ (h.toNat = 0 ∨ y.toNat = self.screenHeight.toNat))

def HLineFits (b : IntWidth) (self : Ili9340) (x y w : BitVec 16) : Prop :=
  x.toNat ≥ self.screenWidth.toNat ∨ y.toNat ≥ self.screenHeight.toNat ∨
    AxisFits b self.screenWidth x w

/-- A product of extents that are too great is too great, unless there is nothing along one axis. -/
theorem mul_eq_mul_iff_of_le {m n m' n' : ℕ} (hm : m ≤ m') (hn : n ≤ n') :
    m' * n' = m * n ↔ (m' = m ∧ n' = n) ∨ m' = 0 ∨ n' = 0 := by
  constructor
  · intro h
    by_contra hne
    rw [not_or, not_or] at hne
    obtain ⟨hne, hm0, hn0⟩ := hne
    have hlt : m * n < m' * n' := by
      rcases hm.lt_or_eq with hlt | rfl
      · exact Nat.mul_lt_mul_of_lt_of_le hlt hn (Nat.pos_of_ne_zero hn0)
      · exact Nat.mul_lt_mul_of_pos_left (lt_of_le_of_ne hn fun h ↦ hne ⟨rfl, h.symm⟩)
          (Nat.pos_of_ne_zero hm0)
    omega
  · rintro (⟨rfl, rfl⟩ | rfl | rfl)
    · rfl
    · rw [Nat.le_zero.mp hm, Nat.zero_mul, Nat.zero_mul]
    · rw [Nat.le_zero.mp hn, Nat.mul_zero, Nat.mul_zero]

theorem card_le_toNat_clip (b : IntWidth) {size : BitVec 16} (hsize : 0 < size.toNat)
    (x w : BitVec 16) : (onScreen size x w).card ≤ (clip b size x w).toNat := by
  by_cases h : AxisFits b size x w
  · exact (toNat_clip h).ge
  · exact (lt_toNat_clip hsize h).le

theorem toNat_clip_eq_card_iff {b : IntWidth} {size x w : BitVec 16} (hsize : 0 < size.toNat) :
    (clip b size x w).toNat = (onScreen size x w).card ↔ AxisFits b size x w := by
  refine ⟨fun h ↦ ?_, toNat_clip⟩
  by_contra hfits
  exact (lt_toNat_clip hsize hfits).ne' h

theorem toNat_clip_eq_zero_iff {b : IntWidth} {size x w : BitVec 16} (hsize : 0 < size.toNat) :
    (clip b size x w).toNat = 0 ↔
      AxisFits b size x w ∧ (w.toNat = 0 ∨ x.toNat = size.toNat) := by
  by_cases h : AxisFits b size x w
  · rw [toNat_clip h, card_onScreen_eq_zero_iff h, and_iff_right h]
  · have hlt := lt_toNat_clip hsize h
    exact iff_of_false (by omega) fun hfits ↦ h hfits.1

/-- **`ili9340_fillRect`.** -/
theorem drawsClipped_fillRect_iff {b : IntWidth} {self : Ili9340}
    (hwidth : 0 < self.screenWidth.toNat)
    (hheight : 0 < self.screenHeight.toNat) (x y w h color : BitVec 16) :
    DrawsClipped self x y w h (fillRect b self x y w h color) ↔ FillFits b self x y w h := by
  have hcount : (drawn (fillRect b self x y w h color)).painted.length
      = (onScreen self.screenWidth x w ×ˢ onScreen self.screenHeight y h).card ↔
        FillFits b self x y w h := by
    rw [drawn_fillRect, List.length_mapIdx, List.length_replicate, Nat.mul_comm,
      Finset.card_product,
      mul_eq_mul_iff_of_le (card_le_toNat_clip b hwidth x w) (card_le_toNat_clip b hheight y h),
      toNat_clip_eq_card_iff hwidth, toNat_clip_eq_card_iff hheight, toNat_clip_eq_zero_iff hwidth,
      toNat_clip_eq_zero_iff hheight]
    rfl
  refine ⟨fun hdraws ↦ hcount.mp hdraws.count, fun hfits ↦ ⟨hcount.mpr hfits, fun hne ↦ ?_⟩⟩
  -- Something is on the screen, so both axes are clipped right.
  have hpos := Finset.card_pos.mpr hne
  rw [Finset.card_product] at hpos
  have hx := Nat.pos_of_mul_pos_right hpos
  have hy := Nat.pos_of_mul_pos_left hpos
  have hboth : AxisFits b self.screenWidth x w ∧ AxisFits b self.screenHeight y h := by
    rcases hfits with hboth | ⟨hfit, hempty⟩ | ⟨hfit, hempty⟩
    · exact hboth
    · exact absurd ((card_onScreen_eq_zero_iff hfit).mpr hempty) hx.ne'
    · exact absurd ((card_onScreen_eq_zero_iff hfit).mpr hempty) hy.ne'
  rw [drawn_fillRect]
  exact congrArg₂ _ (Icc_eq_onScreen hboth.1 hx) (Icc_eq_onScreen hboth.2 hy)

/-- **`ili9340_drawFastHLine`.** -/
theorem drawsClipped_drawFastHLine_iff {b : IntWidth} {self : Ili9340}
    (hwidth : 0 < self.screenWidth.toNat) (x y w color : BitVec 16) :
    DrawsClipped self x y w 1 (drawFastHLine b self x y w color) ↔ HLineFits b self x y w := by
  by_cases hout : x.toNat ≥ self.screenWidth.toNat ∨ y.toNat ≥ self.screenHeight.toNat
  · -- nothing is sent, and nothing is on the screen
    have hempty : onScreen self.screenWidth x w ×ˢ onScreen self.screenHeight y 1 = ∅ := by
      rw [Finset.product_eq_empty, ← Finset.card_eq_zero, ← Finset.card_eq_zero, card_onScreen,
        card_onScreen]
      omega
    refine iff_of_true ⟨?_, fun hne ↦ ?_⟩ (hout.imp_right .inl)
    · rw [drawFastHLine, if_pos hout, hempty]
      rfl
    · rw [hempty] at hne
      exact absurd hne Finset.not_nonempty_empty
  have hrow : onScreen self.screenHeight y 1 = {y.toNat} := by
    rw [onScreen_eq]
    ext i
    rw [Finset.mem_Ico, Finset.mem_singleton]
    have hone : (1 : BitVec 16).toNat = 1 := rfl
    omega
  rw [not_or, not_le, not_le] at hout
  have hdrawn := drawn_drawFastHLine b w color hout.1 hout.2
  rw [HLineFits, ← or_assoc, or_iff_right (by omega), ← toNat_clip_eq_card_iff hwidth]
  have hcard : (onScreen self.screenWidth x w ×ˢ onScreen self.screenHeight y 1).card
      = (onScreen self.screenWidth x w).card := by
    rw [Finset.card_product, hrow, Finset.card_singleton, Nat.mul_one]
  have hlength : (drawn (drawFastHLine b self x y w color)).painted.length
      = (clip b self.screenWidth x w).toNat := by
    rw [hdrawn, List.length_mapIdx, List.length_replicate]
  refine ⟨fun h ↦ hlength.symm.trans (h.count.trans hcard), fun h ↦ ⟨?_, fun hne ↦ ?_⟩⟩
  · rw [hlength, hcard, h]
  · have hpos := Finset.card_pos.mpr hne
    rw [hcard] at hpos
    rw [hdrawn, hrow]
    exact congrArg₂ _ (Icc_eq_onScreen ((toNat_clip_eq_card_iff hwidth).mp h) hpos)
      (Finset.Icc_self _)

theorem setRotation_pos (m : BitVec 8) :
    0 < (setRotation m).2.screenWidth.toNat ∧ 0 < (setRotation m).2.screenHeight.toNat := by
  rw [setRotation]
  split_ifs <;> exact ⟨by decide, by decide⟩

/-- **Filled rectangles.** In every orientation, `ili9340_fillRect` and `ili9340_drawFastHLine` draw
the part of a rectangle that is on the screen just where the clipping is right. -/
theorem fills_iff (b : IntWidth) (m : BitVec 8) (x y w h color : BitVec 16) :
    let dev := (setRotation m).2
    (DrawsClipped dev x y w h (fillRect b dev x y w h color) ↔ FillFits b dev x y w h) ∧
      (DrawsClipped dev x y w 1 (drawFastHLine b dev x y w color) ↔ HLineFits b dev x y w) :=
  have hpos := setRotation_pos m
  ⟨drawsClipped_fillRect_iff hpos.1 hpos.2 x y w h color,
    drawsClipped_drawFastHLine_iff hpos.1 x y w color⟩

/-- A rectangle to the right of the screen: many more pixels than none. -/
theorem not_drawsClipped_fillRect : ¬DrawsClipped (setRotation 0).2 300 0 10 1
    (fillRect .bits32 (setRotation 0).2 300 0 10 1 0xffff) := by
  have hpos := setRotation_pos 0
  rw [drawsClipped_fillRect_iff hpos.1 hpos.2, FillFits, AxisFits, AxisFits]
  decide

end Ili9340

end Martink
