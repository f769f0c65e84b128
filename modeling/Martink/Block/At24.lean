import Martink.Arch.Interface
import Martink.Base.Paged

/-!
# The EEPROM driver

`at24_write` cuts a buffer into page writes of at most eight bytes. Four cases choose the cut: the
start address is aligned to a page or not, and the buffer fills a page or not. The page counters
are `uint8_t`, so lengths of 2048 bytes and more lose their upper bits.

Whatever the bus is, the driver does nothing but send the pages of one list, `pagesOf`, cut after
the sizes `pageSizes`. This is `at24Write_eq`, and every property of the driver is read off that
list.
-/

namespace Martink

/-! ## The driver -/

def i2cPacketSize : ℕ := 8

def eepromAddr : BitVec 8 := 0xA0

section Driver

variable {σ : Type} (i2c : I2cInterface σ)

/-- The two bytes that open every message to the chip. -/
def eeaddrBytes (eeaddr : BitVec 16) : List (BitVec 8) :=
  [(eeaddr >>> 8).setWidth 8, eeaddr.setWidth 8]

def at24WritePage (s : σ) (data : List (BitVec 8)) (eeaddr : BitVec 16) (count : ℕ) : σ :=
  let dataSize := if count > i2cPacketSize then i2cPacketSize else count
  let mbuf := eeaddrBytes eeaddr ++ data.take dataSize
  (i2c.stop (i2c.startWrite s eepromAddr mbuf).1).1

/-- The bytes `at24_read` stores in `data`, and the bus afterwards. The count is a `size_t` here
and a `uint16_t` in the interface. -/
def at24Read (s : σ) (eeaddr : BitVec 16) (count : ℕ) : σ × List (BitVec 8) :=
  let s := (i2c.startWrite s eepromAddr (eeaddrBytes eeaddr)).1
  let reply := i2c.startRead s eepromAddr (BitVec.ofNat 16 count)
  ((i2c.stop reply.1).1, reply.2.1)

/-- `at24_write_page` followed by `i2c_wait`, as every page write of `at24_write` is. -/
def at24WritePageWait (s : σ) (data : List (BitVec 8)) (eeaddr : BitVec 16) (count : ℕ) : σ :=
  i2c.wait (at24WritePage i2c s data eeaddr count) eepromAddr

/-- `while(NumOfPage--)`: full pages, with the address and the pointer advanced in step. -/
def at24WritePages : ℕ → σ → BitVec 16 → List (BitVec 8) → σ × BitVec 16 × List (BitVec 8)
  | 0, s, writeAddr, pBuffer => (s, writeAddr, pBuffer)
  | numOfPage + 1, s, writeAddr, pBuffer =>
    at24WritePages numOfPage (at24WritePageWait i2c s pBuffer writeAddr i2cPacketSize)
      (writeAddr + BitVec.ofNat 16 i2cPacketSize) (pBuffer.drop i2cPacketSize)

def at24Write (s : σ) (writeAddr : BitVec 16) (pBuffer : List (BitVec 8))
    (numByteToWrite : ℕ) : σ :=
  let addr := writeAddr.toNat % i2cPacketSize
  let count := i2cPacketSize - addr
  -- both counters are `uint8_t`
  let numOfPage := numByteToWrite / i2cPacketSize % 256
  let numOfSingle := numByteToWrite % i2cPacketSize
  if addr = 0 then
    if numOfPage = 0 then at24WritePageWait i2c s pBuffer writeAddr numOfSingle
    else
      let (s, writeAddr, pBuffer) := at24WritePages i2c numOfPage s writeAddr pBuffer
      if numOfSingle ≠ 0 then at24WritePageWait i2c s pBuffer writeAddr numOfSingle else s
  else
    if numOfPage = 0 then at24WritePageWait i2c s pBuffer writeAddr numOfSingle
    else
      let numByteToWrite := numByteToWrite - count
      let numOfPage := numByteToWrite / i2cPacketSize % 256
      let numOfSingle := numByteToWrite % i2cPacketSize
      let (s, writeAddr, pBuffer) :=
        if count ≠ 0 then
          (at24WritePageWait i2c s pBuffer writeAddr count, writeAddr + BitVec.ofNat 16 count,
            pBuffer.drop count)
        else (s, writeAddr, pBuffer)
      let (s, writeAddr, pBuffer) := at24WritePages i2c numOfPage s writeAddr pBuffer
      if numOfSingle ≠ 0 then at24WritePageWait i2c s pBuffer writeAddr numOfSingle else s

end Driver

/-! ## The pages -/

/-- One page write as the chip sees it: where it starts and what it carries. -/
structure PageWrite where
  /-- Where it starts. -/
  addr : BitVec 16
  /-- The bytes that it carries. -/
  data : List (BitVec 8)
  deriving DecidableEq

/-- Cut a buffer into page writes of the given sizes, at consecutive addresses. -/
def pagesOf (addr : BitVec 16) (buf : List (BitVec 8)) : List ℕ → List PageWrite
  | [] => []
  | k :: ks => ⟨addr, buf.take k⟩ :: pagesOf (addr + BitVec.ofNat 16 k) (buf.drop k) ks

/-- The last page write of a buffer, which is left out when nothing is left. -/
def lastSize (n : ℕ) : List ℕ := if n % 8 ≠ 0 then [n % 8] else []

/-- The sizes of the page writes for `n` bytes from an address with offset `addr` in its page. -/
def pageSizes (addr n : ℕ) : List ℕ :=
  if n / 8 % 256 = 0 then [n % 8]
  else if addr = 0 then List.replicate (n / 8 % 256) 8 ++ lastSize n
  else
    (8 - addr) :: (List.replicate ((n - (8 - addr)) / 8 % 256) 8 ++ lastSize (n - (8 - addr)))

section Pages

variable {σ : Type} (i2c : I2cInterface σ)

/-- Send one page and wait for the chip. -/
def sendPage (s : σ) (p : PageWrite) : σ :=
  i2c.wait (i2c.stop (i2c.startWrite s eepromAddr (eeaddrBytes p.addr ++ p.data)).1).1 eepromAddr

theorem at24WritePageWait_eq {k : ℕ} (hk : k ≤ 8) (s : σ) (addr : BitVec 16)
    (buf : List (BitVec 8)) :
    at24WritePageWait i2c s buf addr k = sendPage i2c s ⟨addr, buf.take k⟩ := by
  rw [at24WritePageWait, at24WritePage, sendPage, if_neg (by rw [i2cPacketSize]; omega)]

/-- The loop sends full pages, and leaves the address and the pointer past them. -/
theorem at24WritePages_spec (rest : List ℕ) (k : ℕ) : ∀ (s : σ) (addr : BitVec 16)
    (buf : List (BitVec 8)),
    (pagesOf (at24WritePages i2c k s addr buf).2.1 (at24WritePages i2c k s addr buf).2.2
        rest).foldl (sendPage i2c) (at24WritePages i2c k s addr buf).1
      = (pagesOf addr buf (List.replicate k 8 ++ rest)).foldl (sendPage i2c) s := by
  induction k with
  | zero => intro s addr buf; rfl
  | succ k ih =>
    intro s addr buf
    have hfull : at24WritePageWait i2c s buf addr i2cPacketSize
        = sendPage i2c s ⟨addr, buf.take 8⟩ := at24WritePageWait_eq i2c (le_refl 8) s addr buf
    rw [at24WritePages, ih, List.replicate_succ, List.cons_append, pagesOf, List.foldl_cons, hfull]
    rfl

/-- What the driver does with the remainder after its loop. -/
theorem lastSize_spec (n : ℕ) (s : σ) (addr : BitVec 16) (buf : List (BitVec 8)) :
    (if n % i2cPacketSize ≠ 0 then at24WritePageWait i2c s buf addr (n % i2cPacketSize) else s)
      = (pagesOf addr buf (lastSize n)).foldl (sendPage i2c) s := by
  rw [i2cPacketSize, lastSize]
  split
  · rw [at24WritePageWait_eq i2c (by omega)]
    rfl
  · rfl

/-- **The driver sends the pages of the cut.** -/
theorem at24Write_eq (s : σ) (addr : BitVec 16) (buf : List (BitVec 8)) (n : ℕ) :
    at24Write i2c s addr buf n
      = (pagesOf addr buf (pageSizes (addr.toNat % 8) n)).foldl (sendPage i2c) s := by
  have hsize : i2cPacketSize = 8 := rfl
  have hsingle : at24WritePageWait i2c s buf addr (n % 8)
      = (pagesOf addr buf [n % 8]).foldl (sendPage i2c) s :=
    at24WritePageWait_eq i2c (by omega) s addr buf
  rw [at24Write, pageSizes]
  dsimp only
  by_cases hpage : n / 8 % 256 = 0
  · rw [if_pos (show n / i2cPacketSize % 256 = 0 from hpage),
      if_pos (show n / i2cPacketSize % 256 = 0 from hpage), ite_self, if_pos hpage]
    exact hsingle
  · rw [if_neg (show ¬n / i2cPacketSize % 256 = 0 from hpage),
      if_neg (show ¬n / i2cPacketSize % 256 = 0 from hpage), if_neg hpage]
    by_cases hzero : addr.toNat % 8 = 0
    · rw [if_pos (show addr.toNat % i2cPacketSize = 0 from hzero), if_pos hzero,
        lastSize_spec, at24WritePages_spec]
      rfl
    · rw [if_neg (show ¬addr.toNat % i2cPacketSize = 0 from hzero), if_neg hzero,
        if_pos (show i2cPacketSize - addr.toNat % i2cPacketSize ≠ 0 by rw [hsize]; omega)]
      dsimp only
      rw [lastSize_spec, at24WritePages_spec, at24WritePageWait_eq i2c (by rw [hsize]; omega)]
      rfl

end Pages

end Martink
