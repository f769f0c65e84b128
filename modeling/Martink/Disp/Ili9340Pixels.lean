import Martink.Disp.Ili9340Rects

/-!
# Which pixels of the TFT

A vertical line is a column of the screen, from the top to the bottom. `ili9340_drawFastVLine` asks
`ili9340_fillRect` for `x + h` rows and not for `h`, so it is right where the clipping hides this.

`ili9340_writeRect` and `ili9340_readRect` go over a rectangle row by row. They are right as long as
the number of pixels is less than 65536.
-/

namespace Martink.Ili9340

/-! ## Columns -/

/-- Of the column `x`, `h` pixels from the row `y` on are painted, or as many as there are. -/
def PaintsColumn (dev : Ili9340) (x y h color : BitVec 16) (l : List Signal) : Prop :=
  (drawn l).painted = (List.range (min h.toNat (dev.screenHeight.toNat - y.toNat))).map
    fun i ↦ ((x.toNat, y.toNat + i), color)

/-- The height that `ili9340_drawFastVLine` gives is as good as the right one. -/
def VLineFits (b : IntWidth) (dev : Ili9340) (x y h : BitVec 16) : Prop :=
  ((b = .bits16 → y.toNat + (x + h).toNat ≤ 65536) ∧ (x.toNat = 0 ∨
      (dev.screenHeight.toNat ≤ y.toNat + h.toNat ∧
        dev.screenHeight.toNat ≤ y.toNat + (x + h).toNat))) ∨
    (b = .bits16 ∧ y.toNat = 0 ∧ (x + h).toNat = 0 ∧ dev.screenHeight.toNat ≤ h.toNat)

/-- The rows that are left. -/
theorem toNat_clip_height_iff {b : IntWidth} {dev : Ili9340} {x y h : BitVec 16}
    (hy : y.toNat < dev.screenHeight.toNat) (hh : 1 ≤ h.toNat) :
    (clip b dev.screenHeight y (x + h)).toNat
        = min h.toNat (dev.screenHeight.toNat - y.toNat) ↔ VLineFits b dev x y h := by
  have hsize := dev.screenHeight.isLt
  have hx := x.isLt
  have hlt := h.isLt
  have hsub : (dev.screenHeight - y).toNat = dev.screenHeight.toNat - y.toNat :=
    BitVec.toNat_sub_of_le hy.le
  have hsum : (x + h).toNat = (x.toNat + h.toNat) % 65536 := BitVec.toNat_add x h
  rw [clip, VLineFits]
  cases b with
  | bits16 =>
    rw [IntWidth.sum]
    simp only [true_imp_iff, true_and]
    split_ifs <;> omega
  | bits32 =>
    rw [IntWidth.sum]
    simp only [reduceCtorEq, false_imp_iff, true_and, false_and, or_false]
    split_ifs <;> omega

/-- One column is left, and its rows are painted in order. -/
theorem painted_drawFastVLine {b : IntWidth} {dev : Ili9340} {x y h : BitVec 16} (color : BitVec 16)
    (hx : x.toNat < dev.screenWidth.toNat) (hh : 1 ≤ h.toNat) :
    let n := clip b dev.screenHeight y (x + h)
    (drawn (drawFastVLine b dev x y h color)).painted
      = (List.replicate n.toNat color).mapIdx
          fun i k ↦ (Panel.place ⟨(x, x), (y, y + n - 1), []⟩ i, k) := by
  intro n
  have hunit : (1 : BitVec 16).toNat = 1 := rfl
  have hone : clip b dev.screenWidth x 1 = 1 := by
    have hfits : AxisFits b dev.screenWidth x 1 := ⟨hx.le, fun _ ↦ ⟨Nat.le_add_left _ _, x.isLt⟩⟩
    have hcard := toNat_clip hfits
    rw [card_onScreen, hunit, Nat.min_eq_left (Nat.sub_pos_of_lt hx)] at hcard
    exact BitVec.eq_of_toNat_eq hcard
  have hpos : h.toNat > 0 := hh
  rw [drawFastVLine, if_pos hpos, if_pos hpos, drawn_fillRect, hone, BitVec.add_sub_cancel, hunit,
    Nat.mul_one]

/-- **`ili9340_drawFastVLine`.** -/
theorem paintsColumn_iff_toNat_clip {b : IntWidth} {dev : Ili9340} {x y h color : BitVec 16}
    (hx : x.toNat < dev.screenWidth.toNat) (hy : y.toNat < dev.screenHeight.toNat)
    (hh : 1 ≤ h.toNat) :
    PaintsColumn dev x y h color (drawFastVLine b dev x y h color) ↔
      (clip b dev.screenHeight y (x + h)).toNat
        = min h.toNat (dev.screenHeight.toNat - y.toNat) := by
  rw [PaintsColumn, painted_drawFastVLine color hx hh]
  constructor
  · intro hpainted
    simpa only [List.length_mapIdx, List.length_replicate, List.length_map, List.length_range]
      using congrArg List.length hpainted
  · intro hn
    rw [hn]
    refine List.ext_getElem (by simp) fun i hi _ ↦ ?_
    rw [List.length_mapIdx, List.length_replicate] at hi
    -- The window has as many rows as are painted, so the place does not start over at the top.
    have hsize := dev.screenHeight.isLt
    have hlast : (y + clip b dev.screenHeight y (x + h) - 1).toNat + 1 - y.toNat
        = min h.toNat (dev.screenHeight.toNat - y.toNat) := by
      bv_omega
    have hcolumn : x.toNat + 1 - x.toNat = 1 := by omega
    rw [List.getElem_mapIdx, List.getElem_replicate, List.getElem_map, List.getElem_range,
      Panel.place]
    dsimp only
    rw [hlast, hcolumn, Nat.mod_one, Nat.div_one, Nat.mod_eq_of_lt hi, Nat.add_zero]

/-- **Vertical lines.** -/
theorem paintsColumn_drawFastVLine_iff {b : IntWidth} {dev : Ili9340} {x y h : BitVec 16}
    (color : BitVec 16) (hx : x.toNat < dev.screenWidth.toNat)
    (hy : y.toNat < dev.screenHeight.toNat) (hh : 1 ≤ h.toNat) :
    PaintsColumn dev x y h color (drawFastVLine b dev x y h color) ↔ VLineFits b dev x y h := by
  rw [paintsColumn_iff_toNat_clip hx hy hh, toNat_clip_height_iff hy hh]

theorem paintsColumn_drawFastVLine_iff_middle :
    PaintsColumn (setRotation 0).2 120 160 200 0xffff
        (drawFastVLine .bits32 (setRotation 0).2 120 160 200 0xffff) ↔
      VLineFits .bits32 (setRotation 0).2 120 160 200 :=
  paintsColumn_drawFastVLine_iff 0xffff (by decide) (by decide) (by decide)

/-- One pixel is asked for, and 101 are painted. -/
theorem not_paintsColumn_drawFastVLine : ¬PaintsColumn (setRotation 0).2 100 0 1 0xffff
    (drawFastVLine .bits32 (setRotation 0).2 100 0 1 0xffff) := by
  rw [paintsColumn_iff_toNat_clip (by decide) (by decide) (by decide)]
  decide

/-! ## Rectangles -/

/-- The pixels `data[0]` to `data[w * h - 1]` in order, and each point of the rectangle once. -/
structure WritesRect (x y w h : BitVec 16) (data : ℕ → BitVec 16) (l : List Signal) : Prop where
  /-- The colours are those of the data, in order. -/
  pixels : (drawn l).painted.map Prod.snd = (List.range (w.toNat * h.toNat)).map data
  /-- No place is painted twice. -/
  once : ((drawn l).painted.map Prod.fst).Nodup
  /-- The places are those of the rectangle. -/
  covers : ∀ p, p ∈ (drawn l).painted.map Prod.fst ↔
    (x.toNat ≤ p.1 ∧ p.1 < x.toNat + w.toNat) ∧ y.toNat ≤ p.2 ∧ p.2 < y.toNat + h.toNat

/-- The entries `data[0]` to `data[w * h - 1]` are stored in order, each from three bytes that come
after the command, out of a window that is the rectangle. -/
structure ReadsRect (miso : ℕ → BitVec 8) (x y w h : BitVec 16)
    (r : List Signal × List (ℕ × BitVec 16)) : Prop where
  /-- Each entry is stored once, from three bytes. -/
  stored : r.2 = (List.range (w.toNat * h.toNat)).map fun i ↦
    (i, rgb16 (miso (12 + 3 * i)) (miso (13 + 3 * i)) (miso (14 + 3 * i)))
  /-- No other byte is asked for. -/
  bytes : byteCount r.1 = 12 + 3 * (w.toNat * h.toNat)
  /-- The window is the rectangle. -/
  window : 0 < w.toNat * h.toNat → (drawn r.1).window
    = Finset.Ico x.toNat (x.toNat + w.toNat) ×ˢ Finset.Ico y.toNat (y.toNat + h.toNat)

/-- A segment on the screen, by its last point. -/
theorem toNat_last {x w : BitVec 16} (hw : 0 < w.toNat) (h : x.toNat + w.toNat < 65536) :
    (x + w - 1).toNat + 1 = x.toNat + w.toNat := by
  bv_omega

theorem Icc_last {x w : BitVec 16} (hw : 0 < w.toNat) (h : x.toNat + w.toNat < 65536) :
    Finset.Icc x.toNat (x + w - 1).toNat = Finset.Ico x.toNat (x.toNat + w.toNat) := by
  have hlast := toNat_last hw h
  ext i
  rw [Finset.mem_Icc, Finset.mem_Ico]
  omega

theorem place_eq {x y w h : BitVec 16} (hx : x.toNat + w.toNat < 65536)
    (hy : y.toNat + h.toNat < 65536) {i : ℕ} (hi : i < w.toNat * h.toNat) :
    Panel.place ⟨(x, x + w - 1), (y, y + h - 1), []⟩ i
      = (x.toNat + i % w.toNat, y.toNat + i / w.toNat) := by
  have hpos := Nat.zero_lt_of_lt hi
  have hcols : (x + w - 1).toNat + 1 - x.toNat = w.toNat := by
    rw [toNat_last (Nat.pos_of_mul_pos_right hpos) hx, Nat.add_sub_cancel_left]
  have hrows : (y + h - 1).toNat + 1 - y.toNat = h.toNat := by
    rw [toNat_last (Nat.pos_of_mul_pos_left hpos) hy, Nat.add_sub_cancel_left]
  rw [Panel.place]
  dsimp only
  rw [hcols, hrows, Nat.mod_eq_of_lt (Nat.div_lt_of_lt_mul hi)]

theorem drawn_writeRect (x y w h : BitVec 16) (data : ℕ → BitVec 16) :
    drawn (writeRect x y w h data) = ⟨(x, x + w - 1), (y, y + h - 1),
      ((List.range (w * h).toNat).map data).mapIdx
        fun i k ↦ (Panel.place ⟨(x, x + w - 1), (y, y + h - 1), []⟩ i, k)⟩ := by
  have hburst := drawn_inlineBurst x y (x + w - 1) (y + h - 1) ((List.range (w * h).toNat).map data)
  rw [List.flatMap_map, List.map_flatMap] at hburst
  exact hburst

theorem toNat_mul_eq_iff (w h : BitVec 16) :
    (w * h).toNat = w.toNat * h.toNat ↔ w.toNat * h.toNat < 65536 := by
  rw [BitVec.toNat_mul]
  omega

/-- **`ili9340_writeRect`.** -/
theorem writesRect_iff {x y w h : BitVec 16} (data : ℕ → BitVec 16)
    (hx : x.toNat + w.toNat < 65536) (hy : y.toNat + h.toNat < 65536) :
    WritesRect x y w h data (writeRect x y w h data) ↔ w.toNat * h.toNat < 65536 := by
  rw [← toNat_mul_eq_iff]
  constructor
  · intro hwrites
    have hlength := congrArg List.length hwrites.pixels
    rw [drawn_writeRect] at hlength
    simpa only [List.length_map, List.length_mapIdx, List.length_range] using hlength
  · intro hcnt
    have hplaces : (drawn (writeRect x y w h data)).painted.map Prod.fst
        = rowMajor x.toNat y.toNat w.toNat h.toNat := by
      rw [drawn_writeRect, hcnt, rowMajor]
      refine List.ext_getElem (by simp) fun i hi _ ↦ ?_
      rw [List.length_map, List.length_mapIdx, List.length_map, List.length_range] at hi
      rw [List.getElem_map, List.getElem_mapIdx, List.getElem_map, List.getElem_map,
        List.getElem_range]
      exact place_eq hx hy hi
    refine ⟨?_, ?_, fun p ↦ ?_⟩
    · rw [drawn_writeRect, hcnt]
      exact List.ext_getElem (by simp) fun i _ _ ↦ by rw [List.getElem_map, List.getElem_mapIdx]
    · rw [hplaces]
      exact nodup_rowMajor _ _ _ _
    · rw [hplaces]
      exact mem_rowMajor

theorem byteCount_append (l l' : List Signal) : byteCount (l ++ l') = byteCount l + byteCount l' :=
  List.countP_append

theorem byteCount_times (n : ℕ) (l : List Signal) : byteCount (times n l) = n * byteCount l := by
  induction n with
  | zero => rw [Nat.zero_mul]; rfl
  | succ n ih =>
    have hsucc : times (n + 1) l = l ++ times n l := rfl
    rw [hsucc, byteCount_append, ih, Nat.succ_mul, Nat.add_comm]

/-- The bytes before those of the first pixel. -/
theorem byteCount_header (x y w h : BitVec 16) :
    byteCount (setAddrWindow x y (x + w - 1) (y + h - 1)
      ++ [.cs false, .dc false, .byte ramrd, .dc true, .byte 0]) = 12 := rfl

/-- The last command has nothing to do with the window. -/
theorem drawn_of_other {l : List Signal} {x0 y0 x1 y1 : BitVec 16} {q : Packet}
    (h : (Receiver.run ⟨true, false, []⟩ l).packets = q :: windowPackets x0 y0 x1 y1)
    (hq : q.cmd = ramrd) : drawn l = ⟨(x0, x1), (y0, y1), []⟩ := by
  have hreceived : received l = [⟨caset, _⟩, ⟨paset, _⟩, q] := congrArg List.reverse h
  have hexec (p : Panel) : p.exec q = p := by
    rw [Panel.exec, hq]
    rfl
  rw [drawn, hreceived, List.foldl_cons, List.foldl_cons, List.foldl_cons, hexec]
  simp only [List.foldl_nil, Panel.exec, Panel.range?, append_signedBytes, Option.getD_some]
  rfl

theorem drawn_readRect (miso : ℕ → BitVec 8) (x y w h : BitVec 16) :
    drawn (readRect miso x y w h).1 = ⟨(x, x + w - 1), (y, y + h - 1), []⟩ := by
  have hcommand (ps : List Packet) : Receiver.run ⟨true, true, ps⟩
      [.cs false, .dc false, .byte ramrd, .dc true, .byte 0]
        = ⟨false, true, ⟨ramrd, [0]⟩ :: ps⟩ := rfl
  have htimes : times (w * h).toNat [Signal.byte 0, .byte 0, .byte 0]
      = (times (w * h).toNat [0, 0, 0]).map .byte := by
    rw [times, times, List.map_flatten, List.map_replicate]
    rfl
  refine drawn_of_other (q := ⟨ramrd, [0] ++ times (w * h).toNat [0, 0, 0]⟩) ?_ rfl
  simp only [readRect, Receiver.run_append, run_setAddrWindow]
  rw [hcommand, htimes, Receiver.run_bytes]
  rfl

/-- **`ili9340_readRect`.** -/
theorem readsRect_iff {x y w h : BitVec 16} (miso : ℕ → BitVec 8)
    (hx : x.toNat + w.toNat < 65536) (hy : y.toNat + h.toNat < 65536) :
    ReadsRect miso x y w h (readRect miso x y w h) ↔ w.toNat * h.toNat < 65536 := by
  rw [← toNat_mul_eq_iff]
  constructor
  · intro hreads
    have hlength := congrArg List.length hreads.stored
    simpa only [readRect, List.length_map, List.length_range] using hlength
  · intro hcnt
    refine ⟨?_, ?_, fun hpos ↦ ?_⟩
    · simp only [readRect, byteCount_header, hcnt]
      refine List.map_congr_left fun i _ ↦ ?_
      rw [Nat.add_right_comm 12 _ 1, Nat.add_right_comm 12 _ 2]
    · simp only [readRect, byteCount_append (_ ++ _), byteCount_header, byteCount_times, hcnt]
      change 12 + w.toNat * h.toNat * 3 + 0 = _
      rw [Nat.add_zero, Nat.mul_comm]
    · rw [drawn_readRect]
      exact congrArg₂ _ (Icc_last (Nat.pos_of_mul_pos_right hpos) hx)
        (Icc_last (Nat.pos_of_mul_pos_left hpos) hy)

/-- **Rectangles.** On the screen, `ili9340_writeRect` and `ili9340_readRect` go over the rectangle
just where the number of its pixels fits into the variable that counts them. -/
theorem transfersRect_iff {x y w h : BitVec 16} (data : ℕ → BitVec 16) (miso : ℕ → BitVec 8)
    (hx : x.toNat + w.toNat ≤ 240) (hy : y.toNat + h.toNat ≤ 320) :
    (WritesRect x y w h data (writeRect x y w h data) ∧
        ReadsRect miso x y w h (readRect miso x y w h)) ↔ w.toNat * h.toNat < 65536 := by
  rw [writesRect_iff data (by omega) (by omega), readsRect_iff miso (by omega) (by omega), and_self]

theorem transfersRect_iff_icon :
    (WritesRect 10 20 16 8 (fun _ ↦ 0xffff) (writeRect 10 20 16 8 fun _ ↦ 0xffff) ∧
        ReadsRect (fun _ ↦ 0) 10 20 16 8 (readRect (fun _ ↦ 0) 10 20 16 8)) ↔ 16 * 8 < 65536 :=
  transfersRect_iff (fun _ ↦ 0xffff) (fun _ ↦ 0) (by decide) (by decide)

/-- The whole screen. -/
theorem not_writesRect_screen : ¬WritesRect 0 0 tftWidth tftHeight (fun _ ↦ 0xffff)
    (writeRect 0 0 tftWidth tftHeight fun _ ↦ 0xffff) := by
  rw [writesRect_iff _ (by decide) (by decide)]
  decide

end Martink.Ili9340
