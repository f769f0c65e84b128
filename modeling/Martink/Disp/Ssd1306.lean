import Martink.Base.Bits
import Martink.Base.Raster
import Martink.Base.Word

/-!
# Images on the OLED

The display takes eight pixels of a column as a byte. `ssd1306_draw` sets a region and sends the
bytes of an image, at most eight at a time.

The region that `ssd1306_set_region` sets goes two columns and at least one page too far. The loops
over the image take steps of one pixel where it is meant to take steps of eight, so that most of the
columns are sent many times, and the index into the image is one too great.
-/

namespace Martink.Ssd1306

/-! ## The driver -/

def setLowColumn : BitVec 16 := 0x00

def setHighColumn : BitVec 16 := 0x10

def setStartPage : BitVec 16 := 0xb0

def columnAddr : BitVec 8 := 0x21

def pageAddr : BitVec 8 := 0x22

def displayAddress : BitVec 8 := 0x78

/-- A call of `ssd1306_command` or `ssd1306_data_buffer`. -/
inductive Transfer where
  | command (cmd : BitVec 8)
  | dataBuffer (data : List (BitVec 8))

/-- The address and the bytes of the message on the bus. -/
def Transfer.message : Transfer → BitVec 8 × List (BitVec 8)
  | command cmd => (displayAddress, [0, cmd])
  | dataBuffer data => (displayAddress, data)

def setRegion (b : IntWidth) (x0 y0 w h : BitVec 16) : List Transfer :=
  [.command ((setLowColumn ||| (x0 &&& 0x0f)).setWidth 8),
    .command ((setHighColumn ||| ((x0 >>> 4) &&& 0x0f)).setWidth 8),
    .command ((setStartPage ||| ((y0 >>> 3) &&& 0x07)).setWidth 8),
    .command columnAddr,
    .command (x0.setWidth 8),
    .command (BitVec.ofInt 8 (b.sum (x0.toNat + w.toNat + 1))),
    .command pageAddr,
    .command ((y0 >>> 3).setWidth 8),
    .command (BitVec.ofInt 8 (b.sum (y0.toNat + h.toNat) / 8 + 1))]

/-- `fb_image_t`. -/
structure FbImage where
  /-- The width. -/
  w : BitVec 16
  /-- The height. -/
  h : BitVec 16
  /-- The bytes, one for each pixel. -/
  data : ℕ → BitVec 8

namespace FbImage

variable (b : IntWidth) (img : FbImage)

/-- The index into `img.data`. -/
def index (top left col row : ℕ) : ℕ :=
  (b.sum (left + col + (top + row) * img.w.toNat + 1)).toNat

/-- The values of `row` for `row < 8 && (top + row) < img.h`. -/
def rows (top : ℕ) : List ℕ := List.range (min 8 (img.h.toNat - top))

/-- The values of `col` for `col < 8 && (left + col) < img.w`. -/
def cols (left : ℕ) : List ℕ := List.range (min 8 (img.w.toNat - left))

/-- What `byte` is at the end of the loop over `row`. -/
def byte (top left col : ℕ) : BitVec 8 :=
  (img.rows top).foldl (fun byte row ↦
    if img.data (img.index b top left col row) &&& bv (7 - col) ≠ 0 then byte ||| bv (7 - col)
    else byte) 0

def buffer (top left : ℕ) : List (BitVec 8) := (img.cols left).map (img.byte b top left)

/-- The entries of `img.data` that are read, in order. -/
def reads : List ℕ :=
  (List.range img.h.toNat).flatMap fun top ↦ (List.range img.w.toNat).flatMap fun left ↦
    (img.cols left).flatMap fun col ↦ (img.rows top).map (img.index b top left col)

/-- The columns of up to eight pixels that are sent, by their first pixel, in order. -/
def strips : List (ℕ × ℕ) :=
  (List.range img.h.toNat).flatMap fun top ↦ (List.range img.w.toNat).flatMap fun left ↦
    (img.cols left).map fun col ↦ (left + col, top)

end FbImage

def draw (b : IntWidth) (x y : BitVec 16) (img : FbImage) : List Transfer :=
  setRegion b x y img.w img.h ++ (List.range img.h.toNat).flatMap fun top ↦
    (List.range img.w.toNat).map fun left ↦ .dataBuffer (img.buffer b top left)

/-! ## The display -/

def Transfer.command? : Transfer → Option (BitVec 8)
  | command cmd => some cmd
  | dataBuffer _ => none

def Transfer.data : Transfer → List (BitVec 8)
  | command _ => []
  | dataBuffer data => data

def commands (l : List Transfer) : List (BitVec 8) := l.filterMap Transfer.command?

def dataBytes (l : List Transfer) : List (BitVec 8) := l.flatMap Transfer.data

/-- The columns and the pages of the window, the first and the last. -/
structure Region where
  /-- The first and the last column. -/
  columns : BitVec 8 × BitVec 8
  /-- The first and the last page. -/
  pages : BitVec 8 × BitVec 8

/-- What the display makes of some commands. `SSD1306_COLUMNADDR` and `SSD1306_PAGEADDR` take two
arguments. -/
def Region.program (r : Region) : List (BitVec 8) → Region
  | c :: a :: z :: l =>
    if c = columnAddr then program { r with columns := (a, z) } l
    else if c = pageAddr then program { r with pages := (a, z) } l
    else program r (a :: z :: l)
  | _ => r

/-- The region after some transfers, from the whole display. -/
def region (l : List Transfer) : Region := Region.program ⟨(0, 127), (0, 7)⟩ (commands l)

/-! ## The region -/

theorem commands_draw (b : IntWidth) (x y : BitVec 16) (img : FbImage) :
    commands (draw b x y img) = commands (setRegion b x y img.w img.h) := by
  rw [draw, commands, List.filterMap_append, ← commands, List.append_right_eq_self,
    List.filterMap_eq_nil_iff]
  intro t ht
  simp only [List.mem_flatMap, List.mem_map] at ht
  obtain ⟨top, -, left, -, rfl⟩ := ht
  rfl

theorem Region.program_skip (r : Region) {c : BitVec 8} (a z : BitVec 8) (l : List (BitVec 8))
    (hcol : c ≠ columnAddr) (hpage : c ≠ pageAddr) :
    r.program (c :: a :: z :: l) = r.program (a :: z :: l) := by
  rw [Region.program, if_neg hcol, if_neg hpage]

theorem ne_of_getLsbD_ne {w : ℕ} {x y : BitVec w} (i : ℕ) (h : x.getLsbD i ≠ y.getLsbD i) : x ≠ y :=
  fun heq ↦ h (congrArg (·.getLsbD i) heq)

/-- **The region of an image.** -/
theorem region_draw (b : IntWidth) (x y : BitVec 16) (img : FbImage) :
    region (draw b x y img) = ⟨(x.setWidth 8, BitVec.ofInt 8 (b.sum (x.toNat + img.w.toNat + 1))),
      ((y >>> 3).setWidth 8, BitVec.ofInt 8 (b.sum (y.toNat + img.h.toNat) / 8 + 1))⟩ := by
  -- The first three commands differ from the two with arguments in one bit.
  have hlow : ((setLowColumn ||| (x &&& 0x0f)).setWidth 8).getLsbD 5 = false := by
    simp [setLowColumn]
  have hhigh : ((setHighColumn ||| ((x >>> 4) &&& 0x0f)).setWidth 8).getLsbD 5 = false := by
    simp [setHighColumn]
  have hpage : ((setStartPage ||| ((y >>> 3) &&& 0x07)).setWidth 8).getLsbD 7 = true := by
    simp [setStartPage]
  rw [region, commands_draw]
  simp only [commands, setRegion, List.filterMap_cons, Transfer.command?, List.filterMap_nil]
  rw [Region.program_skip _ _ _ _ (ne_of_getLsbD_ne 5 (by rw [hlow]; decide))
      (ne_of_getLsbD_ne 5 (by rw [hlow]; decide)),
    Region.program_skip _ _ _ _ (ne_of_getLsbD_ne 5 (by rw [hhigh]; decide))
      (ne_of_getLsbD_ne 5 (by rw [hhigh]; decide)),
    Region.program_skip _ _ _ _ (ne_of_getLsbD_ne 7 (by rw [hpage]; decide))
      (ne_of_getLsbD_ne 7 (by rw [hpage]; decide))]
  rfl

/-- The last column is two beyond that of the image. -/
theorem toNat_lastColumn (b : IntWidth) {x : BitVec 16} {img : FbImage}
    (hx : x.toNat + img.w.toNat ≤ 128) (y : BitVec 16) :
    (region (draw b x y img)).columns.2.toNat = x.toNat + img.w.toNat + 1 := by
  rw [region_draw, BitVec.toNat_ofInt]
  cases b <;> rw [IntWidth.sum] <;> omega

/-- The last page is one or two beyond that of the image. -/
theorem toNat_lastPage (b : IntWidth) (x : BitVec 16) {y : BitVec 16} {img : FbImage}
    (hy : y.toNat + img.h.toNat ≤ 64) :
    (region (draw b x y img)).pages.2.toNat = (y.toNat + img.h.toNat) / 8 + 1 := by
  rw [region_draw, BitVec.toNat_ofInt]
  cases b <;> rw [IntWidth.sum] <;> omega

/-! ## What is sent and what is read -/

theorem length_buffer (b : IntWidth) (img : FbImage) (top left : ℕ) :
    (img.buffer b top left).length = min 8 (img.w.toNat - left) := by
  rw [FbImage.buffer, List.length_map, FbImage.cols, List.length_range]

/-- From every pixel of the image, up to eight bytes to the right of it. -/
theorem length_dataBytes_draw (b : IntWidth) (x y : BitVec 16) (img : FbImage) :
    (dataBytes (draw b x y img)).length
      = img.h.toNat * ((List.range img.w.toNat).map fun left ↦ min 8 (img.w.toNat - left)).sum := by
  have hregion : dataBytes (setRegion b x y img.w img.h) = [] := rfl
  have hline (top : ℕ) : ((List.range img.w.toNat).map fun left ↦
      Transfer.dataBuffer (img.buffer b top left)).flatMap Transfer.data
        = (List.range img.w.toNat).flatMap (img.buffer b top) := List.flatMap_map _ _ _
  rw [draw, dataBytes, List.flatMap_append, ← dataBytes, hregion, List.nil_append,
    List.flatMap_assoc, List.length_flatMap]
  simp only [hline, List.length_flatMap, length_buffer, List.map_const', List.length_range,
    List.sum_replicate_nat]

theorem length_strips (b : IntWidth) (x y : BitVec 16) (img : FbImage) :
    img.strips.length = (dataBytes (draw b x y img)).length := by
  rw [length_dataBytes_draw, FbImage.strips, List.length_flatMap]
  simp only [List.length_flatMap, List.length_map, FbImage.cols, List.length_range, List.map_const',
    List.sum_replicate_nat]

/-- A byte tells nothing but one bit. -/
theorem byte_eq (b : IntWidth) (img : FbImage) (top left col : ℕ) :
    img.byte b top left col = 0 ∨ img.byte b top left col = bv (7 - col) := by
  rw [FbImage.byte]
  refine List.foldlRecOn (motive := fun byte ↦ byte = 0 ∨ byte = bv (7 - col)) (img.rows top) _
    (.inl rfl) fun byte hbyte row _ ↦ ?_
  split_ifs
  · rcases hbyte with rfl | rfl
    · exact .inr BitVec.zero_or
    · exact .inr BitVec.or_self
  · exact hbyte

/-- No message begins with the control byte for data, `0x40`. -/
theorem head_message_ne (b : IntWidth) (x y : BitVec 16) (img : FbImage) :
    ∀ t ∈ draw b x y img, t.message.2.head? ≠ some 0x40 := by
  intro t ht
  rw [draw, List.mem_append] at ht
  rcases ht with ht | ht
  · simp only [setRegion, List.mem_cons, List.not_mem_nil, or_false] at ht
    rcases ht with rfl | rfl | rfl | rfl | rfl | rfl | rfl | rfl | rfl
    all_goals exact (by decide : some (0 : BitVec 8) ≠ some 0x40)
  · simp only [List.mem_flatMap, List.mem_map, List.mem_range] at ht
    obtain ⟨top, -, left, hleft, rfl⟩ := ht
    have hhead : (img.buffer b top left).head? = some (img.byte b top left 0) := by
      have hcols : img.cols left
          = 0 :: (List.range (min 8 (img.w.toNat - left) - 1)).map (· + 1) := by
        rw [FbImage.cols, ← List.range_succ_eq_map]
        congr 1
        omega
      rw [FbImage.buffer, hcols]
      rfl
    rw [Transfer.message, hhead]
    rcases byte_eq b img top left 0 with h | h <;> rw [h] <;> decide

/-- What is read is the image without its first byte, and the byte after it. -/
theorem range_of_mem_reads (b : IntWidth) {img : FbImage}
    (hsize : img.w.toNat * img.h.toNat < 65536)
    {i : ℕ} (hi : i ∈ img.reads b) : 1 ≤ i ∧ i ≤ img.w.toNat * img.h.toNat := by
  simp only [FbImage.reads, List.mem_flatMap, List.mem_map, FbImage.cols, FbImage.rows,
    List.mem_range] at hi
  obtain ⟨top, htop, left, hleft, col, hcol, row, hrow, rfl⟩ := hi
  have hline : (top + row + 1) * img.w.toNat ≤ img.w.toNat * img.h.toNat := by
    rw [Nat.mul_comm]
    exact Nat.mul_le_mul_left _ (by omega)
  rw [Nat.succ_mul] at hline
  have hindex : (left : ℤ) + col + (top + row) * img.w.toNat + 1
      = (left + col + (top + row) * img.w.toNat + 1 : ℕ) := by
    push_cast
    rfl
  have hlt : left + col + (top + row) * img.w.toNat + 1 ≤ img.w.toNat * img.h.toNat := by omega
  rw [FbImage.index, hindex]
  cases b with
  | bits16 =>
    rw [IntWidth.sum, Int.emod_eq_of_lt (Int.natCast_nonneg _) (by omega), Int.toNat_natCast]
    exact ⟨Nat.le_add_left _ _, hlt⟩
  | bits32 =>
    rw [IntWidth.sum, Int.toNat_natCast]
    exact ⟨Nat.le_add_left _ _, hlt⟩

/-- The byte after the image is read. -/
theorem mul_mem_reads (b : IntWidth) {img : FbImage} (hw : 0 < img.w.toNat) (hh : 0 < img.h.toNat)
    (hsize : img.w.toNat * img.h.toNat < 65536) : img.w.toNat * img.h.toNat ∈ img.reads b := by
  simp only [FbImage.reads, List.mem_flatMap, List.mem_map, FbImage.cols, FbImage.rows,
    List.mem_range]
  refine ⟨img.h.toNat - 1, by omega, img.w.toNat - 1, by omega, 0, by omega, 0, by omega, ?_⟩
  obtain ⟨m, hm⟩ := Nat.exists_eq_succ_of_ne_zero hw.ne'
  obtain ⟨n, hn⟩ := Nat.exists_eq_succ_of_ne_zero hh.ne'
  have hlast : (m : ℤ) + n * (m + 1) + 1 = ((m + 1) * (n + 1) : ℕ) := by
    push_cast
    ring
  have hlt : (((m + 1) * (n + 1) : ℕ) : ℤ) < 65536 := by
    rw [hm, hn] at hsize
    exact_mod_cast hsize
  rw [FbImage.index, hm, hn, Nat.succ_sub_one, Nat.succ_sub_one, Nat.cast_succ, Nat.cast_zero,
    add_zero, add_zero, hlast]
  cases b with
  | bits16 => rw [IntWidth.sum, Int.emod_eq_of_lt (Int.natCast_nonneg _) hlt, Int.toNat_natCast]
  | bits32 => rw [IntWidth.sum, Int.toNat_natCast]

/-! ## The whole -/

/-- The window is that of the image, each of its columns of eight pixels is sent once, page by page
and from the left to the right, and nothing is read but the image. -/
structure RightDraw (b : IntWidth) (x y : BitVec 16) (img : FbImage) : Prop where
  /-- The window has the columns of the image. -/
  columns : (region (draw b x y img)).columns.1.toNat = x.toNat ∧
    (region (draw b x y img)).columns.2.toNat + 1 = x.toNat + img.w.toNat
  /-- The window has the pages of the image. -/
  pages : (region (draw b x y img)).pages.1.toNat = y.toNat / 8 ∧
    (region (draw b x y img)).pages.2.toNat = (y.toNat + img.h.toNat - 1) / 8
  /-- A byte is sent for every column of every page. -/
  sent : (dataBytes (draw b x y img)).length = img.w.toNat * ((img.h.toNat + 7) / 8)
  /-- They are sent page by page, from the left to the right. -/
  strips : img.strips = (rowMajor 0 0 img.w.toNat ((img.h.toNat + 7) / 8)).map fun p ↦
    (p.1, 8 * p.2)
  /-- The image is read and nothing behind it. -/
  reads : ∀ i ∈ img.reads b, i < img.w.toNat * img.h.toNat

/-- **Images.** Wherever an image fits, it is not drawn right. -/
theorem not_rightDraw (b : IntWidth) {x : BitVec 16} (y : BitVec 16) {img : FbImage}
    (hx : x.toNat + img.w.toNat ≤ 128) : ¬RightDraw b x y img := by
  intro hdraw
  have hlast := hdraw.columns.2
  rw [toNat_lastColumn b hx] at hlast
  omega

theorem not_rightDraw_glyph : ¬RightDraw .bits32 8 16 ⟨6, 8, fun _ ↦ 0xff⟩ :=
  not_rightDraw .bits32 16 (by decide)

/-- An image of one pixel: the window ends with column 2 and not with column 0. -/
theorem not_rightDraw_pixel : ¬RightDraw .bits32 0 0 ⟨1, 1, fun _ ↦ 0xff⟩ := by
  intro hdraw
  have hlast : (region (draw .bits32 0 0 ⟨1, 1, fun _ ↦ 0xff⟩)).columns.2.toNat = 2 :=
    toNat_lastColumn .bits32 (by decide) 0
  have hcolumns := hdraw.columns.2
  rw [hlast] at hcolumns
  exact absurd hcolumns (by decide)

end Martink.Ssd1306
