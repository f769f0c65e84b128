import Martink.Base.Paged

/-!
# The storage of the Coffee file system

`cfs-coffee.c` works on a storage of 64-byte pages, of which four make a sector, through
`COFFEE_READ`, `COFFEE_WRITE` and `COFFEE_ERASE`. The storage is the memory as the file system reads
it, where an erased byte is zero. A board says what the last two do to it: a `Medium`.

A file begins with its header. The header is written again when one of its flags is set, and it is
read as it was written as long as no bit is taken back.
-/

namespace Martink

namespace Coffee

abbrev Memory := ℕ → BitVec 8

def pageSize : ℕ := 64
def pagesPerSector : ℕ := 4
def sectorSize : ℕ := 256
def sectorCount : ℕ := 8192
def pageCount : ℕ := 32768
def headerSize : ℕ := 36
def logSize : ℕ := 128

/-- What `COFFEE_WRITE` and `COFFEE_ERASE` do. A byte that only sets bits is stored as it is, and
the address counter stays inside a `page` of the chip. -/
structure Medium where
  /-- What a byte becomes when another is written over it. -/
  combine : BitVec 8 → BitVec 8 → BitVec 8
  /-- Setting bits is enough. -/
  combine_of_le : ∀ {old new : BitVec 8}, old &&& new = old → combine old new = new
  /-- The size of a page of the chip. -/
  page : ℕ
  /-- It is not zero. -/
  page_pos : 0 < page
  /-- Sectors are made of such pages. -/
  dvd_page : sectorSize ∣ page
  /-- The addresses that are erased with a sector, whose number is a byte. -/
  erased : BitVec 8 → ℕ → Bool

namespace Medium

/-- `openpilot_cc3d.c`, over the serial flash. The chip has 32 sectors of 64 KiB and ignores the
upper bits of a sector's number. -/
def cc3d : Medium where
  combine old new := old ||| new
  combine_of_le h := by rw [← h, BitVec.or_comm, BitVec.and_comm]; ext i; simp; tauto
  page := 256
  page_pos := by decide
  dvd_page := dvd_rfl
  erased s a := a / 65536 = s.toNat % 32

variable (m : Medium)

def write (mem : Memory) (addr : ℕ) (bytes : List (BitVec 8)) : Memory :=
  writePaged m.combine m.page mem addr bytes

/-- `COFFEE_ERASE(sector)`. The parameter of `stm32w_flash_erase` is a `uint8_t`. -/
def erase (mem : Memory) (sector : ℕ) : Memory :=
  fun a ↦ if m.erased (BitVec.ofNat 8 sector) a then 0 else mem a

end Medium

/-! ## Headers -/

def byteOf {w : ℕ} (x : BitVec w) (i : ℕ) : BitVec 8 := x.extractLsb' (8 * i) 8

def word16 (f : ℕ → BitVec 8) (i : ℕ) : BitVec 16 := f (i + 1) ++ f i

def word32 (f : ℕ → BitVec 8) (i : ℕ) : BitVec 32 := f (i + 3) ++ f (i + 2) ++ f (i + 1) ++ f i

@[ext]
structure FileHeader where
  /-- `log_page`. -/
  logPage : BitVec 32
  /-- `log_records`. -/
  logRecords : BitVec 16
  /-- `log_record_size`. -/
  logRecordSize : BitVec 16
  /-- `max_pages`. -/
  maxPages : BitVec 32
  /-- `deprecated_eof_hint`. -/
  deprecatedEofHint : BitVec 8
  /-- `flags`. -/
  flags : BitVec 8
  /-- `name`. -/
  name : Fin 20 → BitVec 8
  /-- The bytes that align the size of the structure. -/
  padding : BitVec 16

def flagValid : BitVec 8 := 0x1
def flagAllocated : BitVec 8 := 0x2
def flagObsolete : BitVec 8 := 0x4
def flagModified : BitVec 8 := 0x8
def flagLog : BitVec 8 := 0x10
def flagIsolated : BitVec 8 := 0x20

namespace FileHeader

variable (hdr : FileHeader)

def checkFlag (flag : BitVec 8) : Bool := hdr.flags &&& flag ≠ 0

def allocated : Bool := hdr.checkFlag flagAllocated

def free : Bool := !hdr.allocated

def isolated : Bool := hdr.checkFlag flagIsolated

def obsolete : Bool := hdr.checkFlag flagObsolete

def modified : Bool := hdr.checkFlag flagModified

def log : Bool := hdr.checkFlag flagLog

def active : Bool := hdr.allocated && !hdr.obsolete && !hdr.isolated

/-- The number of pages of a file. -/
def pages : ℕ := hdr.maxPages.toNat

/-- The structure in memory. -/
def byte (i : ℕ) : BitVec 8 :=
  if i < 4 then byteOf hdr.logPage i
  else if i < 6 then byteOf hdr.logRecords (i - 4)
  else if i < 8 then byteOf hdr.logRecordSize (i - 6)
  else if i < 12 then byteOf hdr.maxPages (i - 8)
  else if i = 12 then hdr.deprecatedEofHint
  else if i = 13 then hdr.flags
  else if h : i - 14 < 20 then hdr.name ⟨i - 14, h⟩
  else byteOf hdr.padding (i - 34)

def ofBytes (f : ℕ → BitVec 8) : FileHeader where
  logPage := word32 f 0
  logRecords := word16 f 4
  logRecordSize := word16 f 6
  maxPages := word32 f 8
  deprecatedEofHint := f 12
  flags := f 13
  name i := f (14 + i)
  padding := word16 f 34

/-- A structure that `memset` has cleared. -/
def zero : FileHeader := ⟨0, 0, 0, 0, 0, 0, fun _ ↦ 0, 0⟩

end FileHeader

def readHeader (mem : Memory) (page : ℕ) : FileHeader := .ofBytes fun i ↦ mem (page * pageSize + i)

variable (m : Medium)

def writeHeader (mem : Memory) (hdr : FileHeader) (page : ℕ) : Memory :=
  let hdr := { hdr with flags := hdr.flags ||| flagValid }
  m.write mem (page * pageSize) ((List.range headerSize).map hdr.byte)

def absoluteOffset (page offset : ℕ) : ℕ := page * pageSize + headerSize + offset

/-- `strcmp(name, hdr.name) == 0`. Both are what memory holds at a pointer. -/
def SameString (s t : ℕ → BitVec 8) : Prop := ∃ k ≤ 20, s k = 0 ∧ ∀ i ≤ k, s i = t i

instance (s t : ℕ → BitVec 8) : Decidable (SameString s t) :=
  inferInstanceAs (Decidable (∃ k ≤ 20, s k = 0 ∧ ∀ i ≤ k, s i = t i))

/-- The name in a header as a string; what lies behind the structure is taken as zero. -/
def FileHeader.nameAt (hdr : FileHeader) (i : ℕ) : BitVec 8 :=
  if h : i < 20 then hdr.name ⟨i, h⟩ else 0

def FileHeader.hasName (hdr : FileHeader) (name : ℕ → BitVec 8) : Bool :=
  hdr.active && !hdr.log && SameString name hdr.nameAt

/-! ## Headers in memory -/

theorem word16_byteOf (x : BitVec 16) : byteOf x 1 ++ byteOf x 0 = x := by
  apply BitVec.eq_of_getLsbD_eq
  intro i hi
  rw [BitVec.getLsbD_append]
  simp only [byteOf, BitVec.getLsbD_extractLsb']
  split
  · simp [*]
  · simp [show i - 8 < 8 by omega, show 8 + (i - 8) = i by omega]

theorem word32_byteOf (x : BitVec 32) :
    byteOf x 3 ++ byteOf x 2 ++ byteOf x 1 ++ byteOf x 0 = x := by
  apply BitVec.eq_of_getLsbD_eq
  intro i hi
  simp only [BitVec.getLsbD_append, byteOf, BitVec.getLsbD_extractLsb']
  split_ifs
  · simp [*]
  · simp [*, show 8 + (i - 8) = i by omega]
  · simp [*, show 16 + (i - 8 - 8) = i by omega]
  · simp [show i - 8 - 8 - 8 < 8 by omega, show 24 + (i - 8 - 8 - 8) = i by omega]

theorem byteOf_word16 (f : ℕ → BitVec 8) (k : ℕ) {i : ℕ} (hi : i < 2) :
    byteOf (word16 f k) i = f (k + i) := by
  apply BitVec.eq_of_getLsbD_eq
  intro j hj
  simp only [byteOf, word16, BitVec.getLsbD_extractLsb', BitVec.getLsbD_append]
  interval_cases i <;> simp [hj]

theorem byteOf_word32 (f : ℕ → BitVec 8) (k : ℕ) {i : ℕ} (hi : i < 4) :
    byteOf (word32 f k) i = f (k + i) := by
  apply BitVec.eq_of_getLsbD_eq
  intro j hj
  simp only [byteOf, word32, BitVec.getLsbD_extractLsb', BitVec.getLsbD_append]
  interval_cases i
  · simp [hj]
  · simp [hj]
  · simp [hj, show ¬16 + j < 8 by omega, show ¬16 + j - 8 < 8 by omega,
      show 16 + j - 8 - 8 = j by omega]
  · simp [hj, show ¬24 + j < 8 by omega, show ¬24 + j - 8 < 8 by omega,
      show ¬24 + j - 8 - 8 < 8 by omega, show 24 + j - 8 - 8 - 8 = j by omega]

namespace FileHeader

@[simp] theorem ofBytes_byte (hdr : FileHeader) : ofBytes hdr.byte = hdr := by
  ext1
  · exact word32_byteOf hdr.logPage
  · exact word16_byteOf hdr.logRecords
  · exact word16_byteOf hdr.logRecordSize
  · exact word32_byteOf hdr.maxPages
  · rfl
  · rfl
  · funext i
    have hi := i.isLt
    simp only [ofBytes, byte, Nat.add_sub_cancel_left, dif_pos hi]
    repeat rw [if_neg (by omega)]
  · exact word16_byteOf hdr.padding

theorem byte_ofBytes (f : ℕ → BitVec 8) {i : ℕ} (hi : i < headerSize) :
    (ofBytes f).byte i = f i := by
  rw [headerSize] at hi
  simp only [byte, ofBytes]
  split_ifs with h4 h6 h8 h12 heof hflags hname
  · exact (byteOf_word32 f 0 h4).trans (by rw [Nat.zero_add])
  · exact (byteOf_word16 f 4 (by omega)).trans (congrArg f (by omega))
  · exact (byteOf_word16 f 6 (by omega)).trans (congrArg f (by omega))
  · exact (byteOf_word32 f 8 (by omega)).trans (congrArg f (by omega))
  · rw [heof]
  · rw [hflags]
  · exact congrArg f (by omega)
  · exact (byteOf_word16 f 34 (by omega)).trans (congrArg f (by omega))

theorem ofBytes_congr {f g : ℕ → BitVec 8} (h : ∀ i < headerSize, f i = g i) :
    ofBytes f = ofBytes g := by
  simp only [headerSize] at h
  simp only [ofBytes, word32, word16, FileHeader.mk.injEq]
  refine ⟨?_, ?_, ?_, ?_, h _ (by omega), h _ (by omega), funext fun i ↦ h _ (by omega), ?_⟩ <;>
    rw [h _ (by omega), h _ (by omega)]
  all_goals first | rfl | rw [h _ (by omega), h _ (by omega)]

theorem checkFlag_or (hdr : FileHeader) (flag flag' : BitVec 8) :
    { hdr with flags := hdr.flags ||| flag }.checkFlag flag'
      = (hdr.checkFlag flag' || decide (flag &&& flag' ≠ 0)) := by
  simp [checkFlag, BitVec.and_or_distrib_right]

end FileHeader

/-- A row of pages lies in one page of the chip as far as a header goes. -/
theorem Medium.mod_page_add_le (m : Medium) (page : ℕ) :
    page * pageSize % m.page + pageSize ≤ m.page := by
  obtain ⟨k, hk⟩ := m.dvd_page
  have hpos := m.page_pos
  have hsize : m.page = pageSize * (4 * k) := by rw [hk, sectorSize, pageSize, ← Nat.mul_assoc]
  have hlt : page % (4 * k) < 4 * k := Nat.mod_lt _ (Nat.pos_of_mul_pos_left (hsize ▸ hpos))
  rw [hsize, Nat.mul_comm page, Nat.mul_mod_mul_left, ← Nat.mul_succ]
  exact Nat.mul_le_mul_left _ hlt

section WriteHeader

variable {m : Medium} {mem mem' : Memory} {hdr : FileHeader} {page : ℕ}

theorem readHeader_congr
    (h : ∀ i < headerSize, mem (page * pageSize + i) = mem' (page * pageSize + i)) :
    readHeader mem page = readHeader mem' page := FileHeader.ofBytes_congr h

/-- The header as it is written. -/
def FileHeader.valid (hdr : FileHeader) : FileHeader := { hdr with flags :=
  hdr.flags ||| flagValid }

theorem writeHeader_eq : writeHeader m mem hdr page
    = writeLinear m.combine mem (page * pageSize) ((List.range headerSize).map hdr.valid.byte) := by
  refine writePaged_eq_writeLinear _ _ _ ?_
  have hpage := m.mod_page_add_le page
  simp only [pageSize, headerSize, List.length_map, List.length_range] at hpage ⊢
  omega

/-- Only the header changes. -/
theorem writeHeader_of_notMem {a : ℕ} (h : a < page * pageSize ∨ page * pageSize + headerSize ≤ a) :
    writeHeader m mem hdr page a = mem a := by
  rw [writeHeader_eq]
  exact writeLinear_of_notMem _ _ _ (by simpa using h)

/-- The bytes of the file are behind its header. -/
theorem writeHeader_absoluteOffset (i : ℕ) :
    writeHeader m mem hdr page (absoluteOffset page i) = mem (absoluteOffset page i) :=
  writeHeader_of_notMem (Or.inr (Nat.le_add_right _ _))

/-- **A header is read as it was written**, if the writing only set bits. -/
theorem readHeader_writeHeader (h : ∀ i < headerSize,
    mem (page * pageSize + i) &&& hdr.valid.byte i = mem (page * pageSize + i)) :
    readHeader (writeHeader m mem hdr page) page = hdr.valid := by
  rw [← hdr.valid.ofBytes_byte]
  refine FileHeader.ofBytes_congr fun i hi ↦ ?_
  rw [writeHeader_eq, writeLinear_add _ _ _ (by simpa using hi), List.getElem_map,
    List.getElem_range]
  exact m.combine_of_le (h i hi)

/-- The bits of `old` are set in `new`. -/
def FileHeader.Le (old new : FileHeader) : Prop :=
  ∀ i < headerSize, old.byte i &&& new.byte i = old.byte i

theorem readHeader_writeHeader_of_le {old : FileHeader} (hold : readHeader mem page = old)
    (hle : old.Le hdr.valid) : readHeader (writeHeader m mem hdr page) page = hdr.valid := by
  refine readHeader_writeHeader fun i hi ↦ ?_
  have hbyte : mem (page * pageSize + i) = old.byte i := by
    rw [← hold]
    exact (FileHeader.byte_ofBytes (fun i ↦ mem (page * pageSize + i)) hi).symm
  rw [hbyte]
  exact hle i hi

theorem and_or_self {w : ℕ} (x y : BitVec w) : x &&& (x ||| y) = x := by
  ext i hi
  cases hx : x[i] <;> simp [hx]

/-- Flags are added to a header, and the page of a log where there was none. -/
theorem FileHeader.le_update (old : FileHeader) (flag : BitVec 8) {logPage : BitVec 32}
    (hlog : old.logPage = 0 ∨ old.logPage = logPage) :
    old.Le { old with flags := old.flags ||| flag, logPage := logPage } := by
  intro i hi
  simp only [byte]
  split_ifs with h4 h6 h8 h12 heof hflags hname
  · rcases hlog with hzero | hsame
    · simp [hzero, byteOf]
    · rw [hsame, BitVec.and_self]
  all_goals first | exact BitVec.and_self | exact and_or_self _ _

end WriteHeader

end Coffee

end Martink
