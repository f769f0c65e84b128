import Martink.Base.Paged

/-!
# The serial flash driver

`serial_flash.c` talks to an M25P16 over SPI. A transaction is what happens between `select` and
`deselect`: the bytes the driver clocks out, each answered by one byte of the chip. The chip is
modelled by what a transaction does to it, `M25p16.transfer`; the driver is a sequence of
transactions, including the two loops that poll the status register.

The driver inverts every data byte on both paths, so that erased cells read as zero.

How a Page Program treats its addresses is a parameter of the part: a linear memory, or one whose
address counter stays inside a 256-byte page. So is the number of status reads for which the chip
reports a write in progress.
-/

namespace Martink

/-! ## The chip -/

structure M25p16 where
  /-- The cells. -/
  mem : ℕ → BitVec 8
  /-- The write enable latch. -/
  wel : Bool
  /-- How many more reads of the status register will report a write in progress. -/
  wip : ℕ
  /-- The Page Programs executed so far: address and data as they came over the wire. -/
  programs : List (ℕ × List (BitVec 8))

structure FlashPart where
  /-- What a Page Program does to the cells. -/
  program : (ℕ → BitVec 8) → ℕ → List (BitVec 8) → ℕ → BitVec 8
  /-- How long the `n`-th Page Program takes, in status reads. -/
  busy : ℕ → ℕ

/-- A linear NOR memory: programming can only clear bits. -/
def FlashPart.linear (busy : ℕ → ℕ) : FlashPart where
  program := writeLinear fun old new ↦ old &&& new
  busy := busy

/-- A NOR memory whose address counter stays inside a 256-byte page while it programs. -/
def FlashPart.paged (busy : ℕ → ℕ) : FlashPart where
  program := writePaged (fun old new ↦ old &&& new) 256
  busy := busy

namespace M25p16

/-! ### Instruction set -/

def iWren : BitVec 8 := 0x06
def iRdsr : BitVec 8 := 0x05
def iFastRead : BitVec 8 := 0x0B
def iPp : BitVec 8 := 0x02
def srWel : BitVec 8 := 0x02
def srWip : BitVec 8 := 0x01

def status (chip : M25p16) : BitVec 8 :=
  (if chip.wel then srWel else 0) ||| (if chip.wip = 0 then 0 else srWip)

/-- What follows the instruction byte of a command with an address: the address, most significant
byte first, and the data. -/
def operand : List (BitVec 8) → Option (ℕ × List (BitVec 8))
  | a2 :: a1 :: a0 :: data => some (a2.toNat * 65536 + a1.toNat * 256 + a0.toNat, data)
  | _ => none

/-- One transaction: the bytes clocked out, and the chip afterwards with its replies. A chip that
is busy obeys nothing but a read of its status register, and a Page Program needs the write enable
latch, which it resets. -/
def transfer (part : FlashPart) (chip : M25p16) : List (BitVec 8) → M25p16 × List (BitVec 8)
  | [] => (chip, [])
  | instr :: rest =>
    let silent := 0 :: rest.map fun _ ↦ 0
    if instr = iRdsr then
      ({ chip with wip := chip.wip - 1 }, 0 :: rest.map fun _ ↦ chip.status)
    else if chip.wip ≠ 0 then (chip, silent)
    else if instr = iWren then ({ chip with wel := true }, silent)
    else
      match operand rest with
      | none => (chip, silent)
      | some (addr, data) =>
        if instr = iFastRead then
          -- the instruction, three address bytes and a dummy come before the first cell
          (chip, silent.take 5 ++ (List.range (data.length - 1)).map fun i ↦ chip.mem (addr + i))
        else if instr = iPp ∧ chip.wel = true then
          ({ mem := part.program chip.mem addr data
             wel := false
             wip := part.busy chip.programs.length
             programs := chip.programs ++ [(addr, data)] }, silent)
        else (chip, silent)

end M25p16

/-! ## The driver -/

section Driver

variable (part : FlashPart)

open M25p16

/-- `_read_status`: the second byte of the transaction is the status register. -/
def flashReadStatus (chip : M25p16) : M25p16 × BitVec 8 :=
  let r := chip.transfer part [iRdsr, 0]
  (r.1, r.2.getD 1 0)

/-- Poll the status register for as long as `again` holds of it, but at most `n` times. -/
def flashPoll (again : BitVec 8 → Bool) : ℕ → M25p16 → M25p16
  | 0, chip => chip
  | n + 1, chip =>
    let r := flashReadStatus part chip
    if again r.2 then flashPoll again n r.1 else r.1

/-- `while(write_in_progress())`. The chip ends its write cycle after `wip` reads, and
`wip_flashWaitReady` shows that the loop ends with it. -/
def flashWaitReady (chip : M25p16) : M25p16 :=
  flashPoll part (fun sr ↦ sr &&& srWip ≠ 0) (chip.wip + 1) chip

/-- `_flash_wren`. The latch is set by the time of the first read. -/
def flashWren (chip : M25p16) : M25p16 :=
  flashPoll part (fun sr ↦ sr &&& srWel = 0) 1 (chip.transfer part [iWren]).1

/-- The three address bytes, most significant first. -/
def flashAddrBytes (addr : ℕ) : List (BitVec 8) :=
  [BitVec.ofNat 8 (addr / 65536), BitVec.ofNat 8 (addr / 256), BitVec.ofNat 8 addr]

/-- `serial_flash_read`: the chip afterwards and the bytes stored in `buff`. -/
def serialFlashRead (chip : M25p16) (addr buffLen : ℕ) : M25p16 × List (BitVec 8) :=
  let chip := flashWaitReady part chip
  let r := chip.transfer part (iFastRead :: flashAddrBytes addr ++ 0 :: List.replicate buffLen 0)
  (r.1, (r.2.drop 5).map (~~~·))

def serialFlashWrite (chip : M25p16) (addr : ℕ) (buff : List (BitVec 8)) : M25p16 :=
  let chip := flashWren part (flashWaitReady part chip)
  (chip.transfer part (iPp :: flashAddrBytes addr ++ buff.map (~~~·))).1

end Driver

/-! ## What the transactions do -/

section Spec

variable (part : FlashPart)

open M25p16

theorem flashReadStatus_eq (chip : M25p16) :
    flashReadStatus part chip = ({ chip with wip := chip.wip - 1 }, chip.status) := rfl

theorem status_and_srWip (chip : M25p16) : chip.status &&& srWip = 0 ↔ chip.wip = 0 := by
  rw [status]
  rcases chip.wel <;> by_cases h : chip.wip = 0 <;> simp [h, srWel, srWip]

theorem status_and_srWel (chip : M25p16) : chip.status &&& srWel = 0 ↔ chip.wel = false := by
  rw [status]
  rcases chip.wel <;> by_cases h : chip.wip = 0 <;> simp [h, srWel, srWip]

/-- Polling long enough waits out the write cycle and changes nothing else. -/
theorem flashPoll_srWip (n : ℕ) : ∀ chip : M25p16, chip.wip < n →
    flashPoll part (fun sr ↦ sr &&& srWip ≠ 0) n chip = { chip with wip := 0 } := by
  induction n with
  | zero => intro chip h; exact absurd h (Nat.not_lt_zero _)
  | succ n ih =>
    intro chip h
    rw [flashPoll, flashReadStatus_eq]
    by_cases hwip : chip.wip = 0
    · rw [if_neg (by simpa using (status_and_srWip chip).mpr hwip), hwip]
    · rw [if_pos (by simpa using fun hs ↦ hwip ((status_and_srWip chip).mp hs)),
        ih _ (by omega : chip.wip - 1 < n)]

theorem flashWaitReady_eq (chip : M25p16) :
    flashWaitReady part chip = { chip with wip := 0 } :=
  flashPoll_srWip part _ chip (Nat.lt_succ_self _)

theorem flashWren_eq {chip : M25p16} (h : chip.wip = 0) :
    flashWren part chip = { chip with wel := true } := by
  have hset : (chip.transfer part [iWren]).1 = { chip with wel := true } := by
    rw [transfer, if_neg (by decide), if_neg (not_not.mpr h), if_pos rfl]
  have hpoll : ¬decide (M25p16.status { chip with wel := true } &&& srWel = 0) = true := by
    rw [decide_eq_true_iff, status_and_srWel]
    exact Bool.true_eq_false_eq_False
  rw [flashWren, hset, flashPoll, flashReadStatus_eq, if_neg hpoll, h]

theorem operand_flashAddrBytes {addr : ℕ} (h : addr < 2 ^ 24) (data : List (BitVec 8)) :
    operand (flashAddrBytes addr ++ data) = some (addr, data) := by
  have haddr : (BitVec.ofNat 8 (addr / 65536)).toNat * 65536
      + (BitVec.ofNat 8 (addr / 256)).toNat * 256 + (BitVec.ofNat 8 addr).toNat = addr := by
    rw [BitVec.toNat_ofNat, BitVec.toNat_ofNat, BitVec.toNat_ofNat]
    omega
  exact congrArg (fun a ↦ some (a, data)) haddr

/-- **Reading.** The driver returns the inverted cells and leaves them as they are. -/
theorem serialFlashRead_eq (chip : M25p16) {addr : ℕ} (h : addr < 2 ^ 24) (len : ℕ) :
    serialFlashRead part chip addr len
      = ({ chip with wip := 0 }, (List.range len).map fun i ↦ ~~~chip.mem (addr + i)) := by
  rw [serialFlashRead, flashWaitReady_eq, List.cons_append, transfer, if_neg (by decide),
    if_neg (not_not.mpr rfl), if_neg (by decide), operand_flashAddrBytes h]
  dsimp only
  rw [if_pos rfl]
  simp [flashAddrBytes, Function.comp_def]

/-- **Writing.** The driver executes one Page Program of the inverted bytes. -/
theorem serialFlashWrite_eq (chip : M25p16) {addr : ℕ} (h : addr < 2 ^ 24)
    (buff : List (BitVec 8)) :
    serialFlashWrite part chip addr buff
      = { mem := part.program chip.mem addr (buff.map (~~~·))
          wel := false
          wip := part.busy chip.programs.length
          programs := chip.programs ++ [(addr, buff.map (~~~·))] } := by
  rw [serialFlashWrite, flashWaitReady_eq, flashWren_eq part rfl, List.cons_append, transfer,
    if_neg (by decide), if_neg (not_not.mpr rfl), if_neg (by decide), operand_flashAddrBytes h]
  dsimp only
  rw [if_neg (by decide), if_pos ⟨rfl, rfl⟩]

end Spec

end Martink
