import Martink.Radio.Nrf24l01

/-!
# What the calls of the radio driver do

Between calls no transaction is under way. `Nrf24View` is what the rest of the development looks at:
the registers `CONFIG`, `RF_CH` and `RX_ADDR_P0`, the pin CE, and what was sent and polled. Each
function of the driver has one equation for the chip, and from it one for the view.
-/

namespace Martink

open Nrf24

/-- What decides whether the chip listens, and where. -/
structure Nrf24Mode where
  /-- The configuration. -/
  config : BitVec 8
  /-- The channel. -/
  rfCh : BitVec 8
  /-- The address of pipe 0. -/
  rxAddrP0 : ℕ → BitVec 8
  /-- The pin that starts listening. -/
  ce : Bool

/-- The mode, with what was sent and polled. -/
structure Nrf24View extends Nrf24Mode where
  /-- The bytes to be sent. -/
  payload : List (BitVec 8)
  /-- The answers to `NOP`. -/
  polled : List (BitVec 8)

namespace Nrf24Chip

variable {s : Nrf24Chip}

/-! ## Transactions -/

/-- The chip between transactions, `n` bytes later. -/
def idle (s : Nrf24Chip) (n : ℕ) : Nrf24Chip :=
  { s with csn := true, command := none, pos := 0, shifted := s.shifted + n }

/-- The chip after the command byte of a transaction. -/
def opened (s : Nrf24Chip) (command : BitVec 8) : Nrf24Chip :=
  { s with csn := false, command := some command, pos := 0, shifted := s.shifted + 1 }

/-- The chip `n` data bytes later. -/
def advance (s : Nrf24Chip) (n : ℕ) : Nrf24Chip :=
  { s with shifted := s.shifted + n, pos := s.pos + n }

/-- The chip with the bytes of a register from `i` on replaced. -/
def setBytes (s : Nrf24Chip) (reg i : ℕ) (value : List (BitVec 8)) : Nrf24Chip :=
  { s with regs := fun r j ↦
      if r = reg ∧ i ≤ j then value.getD (j - i) (s.regs r j) else s.regs r j }

theorem spiWriteReadByte_command (h : s.command = none) {command : BitVec 8}
    (hne : command ≠ cmdNop) : (s.csnLo.spiWriteReadByte command).1 = s.opened command := by
  simp [spiWriteReadByte, csnLo, h, hne, opened]

section Commands

variable (reg : BitVec 8)

theorem read_command :
    (cmdRRegister ||| (cmdRegisterMask &&& reg)) &&& ~~~cmdRegisterMask = cmdRRegister ∧
      cmdRegisterMask &&& (cmdRRegister ||| (cmdRegisterMask &&& reg)) = cmdRegisterMask &&& reg ∧
      cmdRRegister ||| (cmdRegisterMask &&& reg) ≠ cmdNop := by
  revert reg
  decide

theorem write_command :
    (cmdWRegister ||| (cmdRegisterMask &&& reg)) &&& ~~~cmdRegisterMask = cmdWRegister ∧
      cmdRegisterMask &&& (cmdWRegister ||| (cmdRegisterMask &&& reg)) = cmdRegisterMask &&& reg ∧
      cmdWRegister ||| (cmdRegisterMask &&& reg) ≠ cmdNop := by
  revert reg
  decide

end Commands

theorem readRegister_eq (h : s.command = none) (reg : BitVec 8) :
    s.readRegister reg = (s.idle 2,
      if Volatile (cmdRegisterMask &&& reg) then s.miso (s.shifted + 1)
      else s.regs (cmdRegisterMask &&& reg).toNat 0) := by
  obtain ⟨hread, hreg, hne⟩ := read_command reg
  rw [readRegister, spiWriteReadByte_command h hne]
  simp [spiWriteReadByte, opened, exchangeData, hread, hreg, csnHi, idle]

theorem setBytes_cons (reg i : ℕ) (b : BitVec 8) (value : List (BitVec 8)) :
    s.setBytes reg i (b :: value) = (s.setReg reg i b).setBytes reg (i + 1) value := by
  rw [setBytes, setBytes, setReg]
  congr 1
  funext r j
  rcases Nat.lt_trichotomy j i with hlt | rfl | hgt
  · simp [show ¬i ≤ j by omega, show ¬i + 1 ≤ j by omega, show j ≠ i by omega]
  · simp
  · simp only [show i ≤ j by omega, show i + 1 ≤ j by omega, show j ≠ i by omega, and_true,
      and_false, if_false]
    rw [show j - i = (j - (i + 1)) + 1 by omega, List.getD_cons_succ]

/-- The data bytes of a register write. -/
theorem foldl_write (reg : BitVec 8) (value : List (BitVec 8)) : ∀ {s : Nrf24Chip}, s.csn = false →
    s.command = some (cmdWRegister ||| (cmdRegisterMask &&& reg)) →
    value.foldl (fun s b ↦ (s.spiWriteReadByte b).1) s =
      (s.setBytes (cmdRegisterMask &&& reg).toNat s.pos value).advance value.length := by
  obtain ⟨hwrite, hreg, -⟩ := write_command reg
  have hread : cmdWRegister ≠ cmdRRegister := by decide
  induction value with
  | nil =>
    intro s _ _
    simp [setBytes, advance]
  | cons b value ih =>
    intro s hcsn hcmd
    have hbyte : (s.spiWriteReadByte b).1 =
        (s.setReg (cmdRegisterMask &&& reg).toNat s.pos b).advance 1 := by
      simp [spiWriteReadByte, hcsn, hcmd, exchangeData, hwrite, hread, hreg, setReg, advance]
    have hrest := ih (s := (s.setReg (cmdRegisterMask &&& reg).toNat s.pos b).advance 1) hcsn hcmd
    rw [List.foldl_cons, hbyte, hrest, setBytes_cons]
    simp [setBytes, setReg, advance, Nat.add_assoc, Nat.add_comm 1]

theorem writeRegisters_eq (h : s.command = none) (reg : BitVec 8) (value : List (BitVec 8)) :
    s.writeRegisters reg value =
      (s.setBytes (cmdRegisterMask &&& reg).toNat 0 value).idle (value.length + 1) := by
  obtain ⟨-, -, hne⟩ := write_command reg
  rw [writeRegisters, spiWriteReadByte_command h hne, foldl_write reg value rfl rfl]
  simp [opened, csnHi, idle, setBytes, advance, Nat.add_comm 1, Nat.add_assoc]

theorem writeRegister_eq (h : s.command = none) (reg v : BitVec 8) :
    s.writeRegister reg v = (s.setReg (cmdRegisterMask &&& reg).toNat 0 v).idle 2 := by
  obtain ⟨hwrite, hreg, hne⟩ := write_command reg
  have hread : cmdWRegister ≠ cmdRRegister := by decide
  rw [writeRegister, spiWriteReadByte_command h hne]
  simp [spiWriteReadByte, opened, exchangeData, hwrite, hread, hreg, csnHi, idle, setReg]

theorem modifyRegister_eq (h : s.command = none) {reg : BitVec 8}
    (hreg : ¬Volatile (cmdRegisterMask &&& reg)) (f : BitVec 8 → BitVec 8) :
    s.modifyRegister reg f =
      (s.setReg (cmdRegisterMask &&& reg).toNat 0
        (f (s.regs (cmdRegisterMask &&& reg).toNat 0))).idle 4 := by
  rw [modifyRegister, readRegister_eq h, if_neg hreg, writeRegister_eq rfl]
  simp [idle, setReg]

theorem flushRxFifo_eq (h : s.command = none) : s.flushRxFifo = s.idle 1 := by
  rw [flushRxFifo, spiWriteReadByte_command h (by decide)]
  rfl

theorem flushTxFifo_eq (h : s.command = none) : s.flushTxFifo = s.idle 1 := by
  rw [flushTxFifo, spiWriteReadByte_command h (by decide)]
  rfl

theorem getStatus_eq (h : s.command = none) :
    s.getStatus = ({ s.idle 1 with polled := s.polled ++ [s.miso s.shifted] },
      s.miso s.shifted) := by
  simp [getStatus, spiWriteReadByte, csnLo, h, csnHi, idle]

/-! ## The view -/

def view (s : Nrf24Chip) : Nrf24View where
  config := s.regs regConfig.toNat 0
  rfCh := s.regs regRfCh.toNat 0
  rxAddrP0 := s.regs regRxAddrP0.toNat
  ce := s.ce
  payload := s.payload
  polled := s.polled

/-- The chip is between transactions, CSN is high, and the view is `v`. -/
structure Shows (s : Nrf24Chip) (v : Nrf24View) : Prop where
  /-- No command is under way. -/
  command : s.command = none
  /-- No transaction is. -/
  csn : s.csn = true
  /-- The view of the chip. -/
  view : s.view = v

/-- The registers that the view shows. -/
def viewed : List (BitVec 8) := [regConfig, regRfCh, regRxAddrP0]

variable {v : Nrf24View}

@[simp] theorem view_idle (n : ℕ) : (s.idle n).view = s.view := rfl

theorem view_setReg {reg : BitVec 8} (hreg : reg ∉ viewed) (i : ℕ) (x : BitVec 8) :
    (s.setReg reg.toNat i x).view = s.view := by
  have hne : ∀ r ∈ viewed, r.toNat ≠ reg.toNat := fun r hr heq ↦
    hreg (BitVec.eq_of_toNat_eq heq ▸ hr)
  have hconfig := hne regConfig (by decide)
  have hrfCh := hne regRfCh (by decide)
  have hpipe := hne regRxAddrP0 (by decide)
  simp [view, setReg, hconfig, hrfCh, hpipe]

theorem view_setBytes {reg : BitVec 8} (hreg : reg ∉ viewed) (i : ℕ) (value : List (BitVec 8)) :
    (s.setBytes reg.toNat i value).view = s.view := by
  have hne : ∀ r ∈ viewed, r.toNat ≠ reg.toNat := fun r hr heq ↦
    hreg (BitVec.eq_of_toNat_eq heq ▸ hr)
  have hconfig := hne regConfig (by decide)
  have hrfCh := hne regRfCh (by decide)
  have hpipe := hne regRxAddrP0 (by decide)
  simp [view, setBytes, hconfig, hrfCh, hpipe]

theorem Shows.writeRegister (h : s.Shows v) (reg : BitVec 8)
    (hreg : cmdRegisterMask &&& reg ∉ viewed) (x : BitVec 8) : (s.writeRegister reg x).Shows v := by
  rw [writeRegister_eq h.command]
  exact ⟨rfl, rfl, by rw [view_idle, view_setReg hreg, h.view]⟩

theorem Shows.writeRegisters (h : s.Shows v) {reg : BitVec 8}
    (hreg : cmdRegisterMask &&& reg ∉ viewed) (value : List (BitVec 8)) :
    (s.writeRegisters reg value).Shows v := by
  rw [writeRegisters_eq h.command]
  exact ⟨rfl, rfl, by rw [view_idle, view_setBytes hreg, h.view]⟩

theorem Shows.readRegister (h : s.Shows v) (reg : BitVec 8) : (s.readRegister reg).1.Shows v := by
  rw [readRegister_eq h.command]
  exact ⟨rfl, rfl, h.view⟩

theorem Shows.modifyRegister (h : s.Shows v) (reg : BitVec 8)
    (hreg : cmdRegisterMask &&& reg ∉ viewed) (f : BitVec 8 → BitVec 8) :
    (s.modifyRegister reg f).Shows v :=
  (h.readRegister reg).writeRegister reg hreg _

theorem Shows.modifyConfig (h : s.Shows v) (f : BitVec 8 → BitVec 8) :
    (s.modifyRegister regConfig f).Shows { v with config := f v.config } := by
  rw [modifyRegister_eq h.command (by decide), ← h.view]
  refine ⟨rfl, rfl, ?_⟩
  simp [Nrf24Chip.view, idle, setReg, regConfig, regRfCh, regRxAddrP0, cmdRegisterMask]

theorem Shows.writeRfCh (h : s.Shows v) (x : BitVec 8) :
    (s.writeRegister regRfCh x).Shows { v with rfCh := x } := by
  rw [writeRegister_eq h.command, ← h.view]
  refine ⟨rfl, rfl, ?_⟩
  simp [Nrf24Chip.view, idle, setReg, regConfig, regRfCh, regRxAddrP0, cmdRegisterMask]

/-- The address registers hold the bytes of an address in reverse. -/
def addrBytes (addr : Addr) (old : ℕ → BitVec 8) (i : ℕ) : BitVec 8 :=
  (revAddress addr).getD i (old i)

theorem Shows.writeRxAddrP0 (h : s.Shows v) (addr : Addr) :
    (s.writeRegisters regRxAddrP0 (revAddress addr)).Shows
      { v with rxAddrP0 := addrBytes addr v.rxAddrP0 } := by
  rw [writeRegisters_eq h.command, ← h.view]
  refine ⟨rfl, rfl, ?_⟩
  simp [Nrf24Chip.view, idle, setBytes, regConfig, regRfCh, regRxAddrP0, cmdRegisterMask]
  funext j
  simp [addrBytes]

theorem Shows.flushRxFifo (h : s.Shows v) : s.flushRxFifo.Shows v := by
  rw [flushRxFifo_eq h.command]
  exact ⟨rfl, rfl, h.view⟩

theorem Shows.flushTxFifo (h : s.Shows v) : s.flushTxFifo.Shows v := by
  rw [flushTxFifo_eq h.command]
  exact ⟨rfl, rfl, h.view⟩

theorem Shows.ceHi (h : s.Shows v) : s.ceHi.Shows { v with ce := true } :=
  ⟨h.command, h.csn, by rw [← h.view]; rfl⟩

theorem Shows.ceLo (h : s.Shows v) : s.ceLo.Shows { v with ce := false } :=
  ⟨h.command, h.csn, by rw [← h.view]; rfl⟩

/-- `CONFIG` in receive mode. -/
def rxConfig (config : BitVec 8) : BitVec 8 := config ||| bv bitPrimRx ||| bv bitPwrUp

/-- `CONFIG` in transmit mode. -/
def txConfig (config : BitVec 8) : BitVec 8 := config &&& ~~~bv bitPrimRx ||| bv bitPwrUp

theorem Shows.setRx (h : s.Shows v) :
    s.setRx.Shows { v with config := rxConfig v.config, ce := true } :=
  ((((h.modifyConfig _).modifyConfig _).writeRegister _ (by decide) _).flushRxFifo).flushTxFifo.ceHi

theorem Shows.setTx (h : s.Shows v) :
    s.setTx.Shows { v with config := txConfig v.config, ce := false } :=
  (((h.ceLo.modifyConfig _).modifyConfig _).writeRegister _ (by decide) _).flushTxFifo

theorem Shows.getStatus (h : s.Shows v) :
    s.getStatus.1.Shows { v with polled := v.polled ++ [s.getStatus.2] } := by
  rw [getStatus_eq h.command]
  exact ⟨rfl, rfl, by rw [← h.view]; rfl⟩

/-! ## The calls -/

theorem Shows.setRxAddr (h : s.Shows v) (pipe : BitVec 8) (addr : Addr) :
    (s.setRxAddr pipe addr).Shows
      (if pipe = 0 then { v with rxAddrP0 := addrBytes addr v.rxAddrP0 } else v) := by
  rw [Nrf24Chip.setRxAddr]
  split
  · exact h.writeRxAddrP0 addr
  · split_ifs
    · exact h.writeRegisters (by decide) _
    · exact h.writeRegister _ (by decide) _
    · exact h.writeRegister _ (by decide) _
    · exact h.writeRegister _ (by decide) _
    · exact h.writeRegister _ (by decide) _
    · exact h

theorem Shows.setTxAddr (h : s.Shows v) (addr : Addr) :
    (s.setTxAddr addr).Shows { v with rxAddrP0 := addrBytes addr v.rxAddrP0 } :=
  (h.writeRxAddrP0 addr).writeRegisters (by decide) _

/-- Reading a payload changes nothing but the count of bytes. -/
theorem shiftIn_eq (n : ℕ) : ∀ {s : Nrf24Chip}, s.csn = false → s.command = some cmdRRxPayload →
    (shiftIn n s).1 = s.advance n := by
  induction n with
  | zero => exact fun _ _ ↦ rfl
  | succ n ih =>
    intro s hcsn hcmd
    have hbyte : (s.spiWriteReadByte cmdNop).1 = s.advance 1 := by
      simp [spiWriteReadByte, hcsn, hcmd, exchangeData, advance, cmdRRxPayload, cmdRRegister,
        cmdWRegister, cmdRegisterMask, cmdWTxPayload]
    rw [shiftIn, hbyte, ih (s := s.advance 1) hcsn hcmd]
    simp [advance, Nat.add_assoc, Nat.add_comm 1]

theorem foldl_payload (value : List (BitVec 8)) : ∀ {s : Nrf24Chip}, s.csn = false →
    s.command = some cmdWTxPayload →
    value.foldl (fun s b ↦ (s.spiWriteReadByte b).1) s =
      { s with payload := s.payload ++ value }.advance value.length := by
  induction value with
  | nil =>
    intro s _ _
    simp [advance]
  | cons b value ih =>
    intro s hcsn hcmd
    have hbyte : (s.spiWriteReadByte b).1 = { s with payload := s.payload ++ [b] }.advance 1 := by
      simp [spiWriteReadByte, hcsn, hcmd, exchangeData, advance, cmdRRegister, cmdWRegister,
        cmdRegisterMask, cmdWTxPayload]
    have hrest := ih (s := { s with payload := s.payload ++ [b] }.advance 1) hcsn hcmd
    rw [List.foldl_cons, hbyte, hrest]
    simp [advance, Nat.add_assoc, Nat.add_comm 1]

/-- `nrf24l01_read` reads the status once. -/
theorem Shows.read (h : s.Shows v) :
    ∃ status, s.read.1.Shows { v with polled := v.polled ++ [status] } := by
  have hdata :
      (shiftIn payloadSize (s.csnLo.spiWriteReadByte cmdRRxPayload).1).1.csnHi.Shows v := by
    rw [spiWriteReadByte_command h.command (by decide), shiftIn_eq _ rfl rfl]
    exact ⟨rfl, rfl, h.view⟩
  have hreset : ∀ (r : Nrf24Chip × BitVec 8) {w : Nrf24View}, r.1.Shows w →
      (if r.2 &&& bv bitTxDs ≠ 0 then r.1.writeRegister regStatus (bv bitTxDs)
        else r.1).Shows w := by
    intro r w hr
    split
    · exact hr.writeRegister _ (by decide) _
    · exact hr
  exact ⟨_, hreset _ (hdata.writeRegister _ (by decide) (bv bitRxDr)).getStatus⟩

theorem Shows.readReady (h : s.Shows v) :
    s.readReady.1.Shows { v with polled := v.polled ++ [s.getStatus.2] } := h.getStatus

/-- The loop polls the status at most as often as `timeout` allows, and ends with the last
answer. -/
theorem Shows.pollStatus (timeout : ℕ) : ∀ {s : Nrf24Chip} {v : Nrf24View}, s.Shows v →
    ∃ polls, polls.length ≤ timeout ∧
      (pollStatus (timeout + 1) s).1.Shows
        { v with polled := v.polled ++ (polls ++ [(pollStatus (timeout + 1) s).2]) } := by
  induction timeout with
  | zero =>
    intro s v h
    rw [Nrf24Chip.pollStatus, if_pos (.inl rfl)]
    exact ⟨[], le_rfl, h.getStatus⟩
  | succ timeout ih =>
    intro s v h
    rw [Nrf24Chip.pollStatus]
    split
    · exact ⟨[], Nat.zero_le _, h.getStatus⟩
    · obtain ⟨polls, hlen, hrest⟩ := ih h.getStatus
      refine ⟨s.getStatus.2 :: polls, Nat.succ_le_succ hlen, ?_⟩
      simpa using hrest

/-- The payload of a transmission. -/
theorem Shows.sendPayload (h : s.Shows v) (value : List (BitVec 8)) :
    (value.foldl (fun s b ↦ (s.spiWriteReadByte b).1)
      (s.csnLo.spiWriteReadByte cmdWTxPayload).1).csnHi.Shows
        { v with payload := v.payload ++ value } := by
  rw [spiWriteReadByte_command h.command (by decide), foldl_payload _ rfl rfl, ← h.view]
  exact ⟨rfl, rfl, rfl⟩

/-- A transmission, from any mode. -/
theorem Shows.write (h : s.Shows v) (data : ℕ → BitVec 8) :
    ∃ polls status, polls.length < writeTimeout ∧ (s.write data).2 = writeResult status ∧
      (s.write data).1.Shows
        { config := rxConfig (txConfig v.config), rfCh := channel, rxAddrP0 := v.rxAddrP0,
          ce := true, payload := v.payload ++ payloadBytes data,
          polled := v.polled ++ (polls ++ [status]) } := by
  have hsent := h.setTx.sendPayload (payloadBytes data)
  obtain ⟨polls, hlen, hpolled⟩ := Shows.pollStatus 1499 hsent.ceHi.ceLo
  exact ⟨polls, _, Nat.lt_succ_of_le hlen, rfl, (hpolled.writeRfCh channel).setRx⟩

/-- `CONFIG` with the CRC of 16 bits. -/
def crcConfig (config : BitVec 8) : BitVec 8 :=
  config &&& ~~~(bv bitCrco ||| bv bitEnCrc) ||| bv bitEnCrc ||| bv bitCrco

theorem Shows.setPaLevel (h : s.Shows v) : s.setPaLevel.Shows v := h.modifyRegister _ (by decide) _

theorem Shows.setDataRate (h : s.Shows v) : s.setDataRate.Shows v :=
  h.modifyRegister _ (by decide) _

theorem Shows.setCrcLength (h : s.Shows v) :
    s.setCrcLength.Shows { v with config := crcConfig v.config } := h.modifyConfig _

theorem Shows.modifyEnAa (pipes : List ℕ) : ∀ {s : Nrf24Chip}, s.Shows v →
    (pipes.foldl (fun s pipe ↦ s.modifyRegister regEnAa (· &&& ~~~bv pipe)) s).Shows v := by
  induction pipes with
  | nil => exact id
  | cons pipe pipes ih => exact fun h ↦ ih (h.modifyRegister _ (by decide) _)

theorem init_shows (s : Nrf24Chip) :
    s.init.Shows { s.view with
      config := rxConfig (crcConfig s.view.config), rfCh := channel, ce := true } := by
  have hpins : s.ceLo.csnHi.Shows { s.view with ce := false } := ⟨rfl, rfl, rfl⟩
  have hmode := ((hpins.setPaLevel.setDataRate.setCrcLength.writeRegister regSetupRetr
    (by decide) retr).writeRegister regDynpd (by decide) 0).writeRfCh channel
  have hsize := (hmode.writeRegister regRxPwP0 (by decide)
    (BitVec.ofNat 8 payloadSize)).writeRegister regRxPwP1 (by decide)
    (BitVec.ofNat 8 payloadSize)
  have hpipes := ((hsize.writeRegister regEnRxaddr (by decide) 0).modifyRegister
    regEnRxaddr (by decide) (· ||| bv 0)).modifyRegister regEnRxaddr (by decide) (· ||| bv 1)
  exact (hpipes.modifyEnAa _).setRx

/-- Listening to a channel leaves the chip tuned to it. -/
theorem Shows.scanChannel (h : s.Shows v) (i : ℕ) :
    (s.scanChannel i).1.Shows
      { v with config := rxConfig v.config, rfCh := BitVec.ofNat 8 i, ce := true } :=
  (h.writeRfCh _).setRx.readRegister _

theorem rxConfig_idem (config : BitVec 8) : rxConfig (rxConfig config) = rxConfig config := by
  revert config
  decide

/-- A pass ends with the last channel. -/
theorem Shows.scanSteps (n : ℕ) {w : Nrf24Chip × (ℕ → BitVec 8)} (h : w.1.Shows v) :
    ((List.range (n + 1)).foldl scanStep w).1.Shows
      { v with config := rxConfig v.config, rfCh := BitVec.ofNat 8 n, ce := true } := by
  induction n with
  | zero => exact h.scanChannel 0
  | succ n ih =>
    rw [List.range_succ, List.foldl_append]
    have hlast := ih.scanChannel (n + 1)
    simp only [rxConfig_idem] at hlast
    exact hlast

/-- The channel that a scan ends with. -/
def lastChannel : BitVec 8 := 127

theorem Shows.scanPasses (n : ℕ) : ∀ {w : Nrf24Chip × (ℕ → BitVec 8)} {v : Nrf24View},
    w.1.Shows v → (scanPass^[n + 1] w).1.Shows
      { v with config := rxConfig v.config, rfCh := lastChannel, ce := true } := by
  induction n with
  | zero => exact fun h ↦ h.scanSteps 127
  | succ n ih =>
    intro w v h
    have hrest := ih (h.scanSteps 127)
    simp only [rxConfig_idem] at hrest
    rw [Function.iterate_succ_apply]
    exact hrest

theorem Shows.scan (h : s.Shows v) (iterations : BitVec 8) :
    (s.scan iterations).1.Shows (if iterations = 0 then v
      else { v with config := rxConfig v.config, rfCh := lastChannel, ce := true }) := by
  rw [Nrf24Chip.scan, scanCounts]
  split
  · simpa [‹iterations = 0›] using h
  · obtain ⟨n, hn⟩ := Nat.exists_eq_succ_of_ne_zero
      (fun hzero ↦ ‹¬iterations = 0› (BitVec.eq_of_toNat_eq hzero))
    rw [hn]
    exact Shows.scanPasses n (w := (s, fun _ ↦ 0)) h

end Nrf24Chip

/-! ## Runs -/

/-- The calls between `nrf24l01_init` and the end of the program. -/
inductive Nrf24Call where
  | setRxAddr (pipe : BitVec 8) (addr : Addr)
  | setTxAddr (addr : Addr)
  | write (data : ℕ → BitVec 8)
  | read
  | readReady
  | getStatus
  | scan (iterations : BitVec 8)

namespace Nrf24Chip

def call (s : Nrf24Chip) : Nrf24Call → Nrf24Chip
  | .setRxAddr pipe addr => s.setRxAddr pipe addr
  | .setTxAddr addr => s.setTxAddr addr
  | .write data => (s.write data).1
  | .read => s.read.1
  | .readReady => s.readReady.1
  | .getStatus => s.getStatus.1
  | .scan iterations => (s.scan iterations).1

/-- The chip after the initialization and a sequence of calls. -/
def runCalls (s : Nrf24Chip) (calls : List Nrf24Call) : Nrf24Chip := calls.foldl call s.init

end Nrf24Chip

/-- What a call does to the mode. -/
def Nrf24Mode.call (m : Nrf24Mode) : Nrf24Call → Nrf24Mode
  | .setRxAddr pipe addr =>
    if pipe = 0 then { m with rxAddrP0 := Nrf24Chip.addrBytes addr m.rxAddrP0 } else m
  | .setTxAddr addr => { m with rxAddrP0 := Nrf24Chip.addrBytes addr m.rxAddrP0 }
  | .write _ =>
    { m with
      config := Nrf24Chip.rxConfig (Nrf24Chip.txConfig m.config), rfCh := channel, ce := true }
  | .scan iterations =>
    if iterations = 0 then m
    else { m with config := Nrf24Chip.rxConfig m.config, rfCh := Nrf24Chip.lastChannel, ce := true }
  | .read | .readReady | .getStatus => m

namespace Nrf24Chip

variable {s : Nrf24Chip} {v : Nrf24View}

theorem Shows.call (h : s.Shows v) (c : Nrf24Call) :
    ∃ w, (s.call c).Shows w ∧ w.toNrf24Mode = v.toNrf24Mode.call c := by
  cases c with
  | setRxAddr pipe addr =>
    refine ⟨_, h.setRxAddr pipe addr, ?_⟩
    rw [Nrf24Mode.call]
    split <;> rfl
  | setTxAddr addr => exact ⟨_, h.setTxAddr addr, rfl⟩
  | write data =>
    obtain ⟨polls, status, -, -, hwrite⟩ := h.write data
    exact ⟨_, hwrite, rfl⟩
  | read =>
    obtain ⟨status, hread⟩ := h.read
    exact ⟨_, hread, rfl⟩
  | readReady => exact ⟨_, h.readReady, rfl⟩
  | getStatus => exact ⟨_, h.getStatus, rfl⟩
  | scan iterations =>
    refine ⟨_, h.scan iterations, ?_⟩
    rw [Nrf24Mode.call]
    split <;> rfl

/-- The mode after the initialization. -/
def initMode (m : Nrf24Mode) : Nrf24Mode :=
  { m with config := rxConfig (crcConfig m.config), rfCh := channel, ce := true }

theorem runCalls_shows (s : Nrf24Chip) (calls : List Nrf24Call) :
    ∃ w, (s.runCalls calls).Shows w ∧
      w.toNrf24Mode = calls.foldl Nrf24Mode.call (initMode s.view.toNrf24Mode) := by
  induction calls using List.reverseRecOn with
  | nil => exact ⟨_, init_shows s, rfl⟩
  | append_singleton calls c ih =>
    obtain ⟨v, hv, hmode⟩ := ih
    obtain ⟨w, hw, hstep⟩ := hv.call c
    refine ⟨w, ?_, ?_⟩
    · rw [runCalls, List.foldl_append]
      exact hw
    · rw [hstep, hmode, List.foldl_append]
      rfl

end Nrf24Chip

end Martink
