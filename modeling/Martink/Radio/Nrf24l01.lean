import Martink.Base.Bits

/-!
# The nRF24L01 radio

`radio/nrf24l01.c`, over a model of the chip: a register file behind an SPI port, with the pins CE
and CSN. The first byte after CSN goes low is a command, and its answer is the status. What the chip
decides by itself (its status, received payloads, the carrier detector) comes from the stream
`miso`, so that nothing is assumed about it. Waiting has no effect here.
-/

namespace Martink

/-! ## Constants -/

namespace Nrf24

def regConfig : BitVec 8 := 0x00

def regEnAa : BitVec 8 := 0x01

def regEnRxaddr : BitVec 8 := 0x02

def regSetupRetr : BitVec 8 := 0x04

def regRfCh : BitVec 8 := 0x05

def regRfSetup : BitVec 8 := 0x06

def regStatus : BitVec 8 := 0x07

def regObserveTx : BitVec 8 := 0x08

def regCd : BitVec 8 := 0x09

def regRxAddrP0 : BitVec 8 := 0x0A

def regRxAddrP1 : BitVec 8 := 0x0B

def regRxAddrP2 : BitVec 8 := 0x0C

def regRxAddrP3 : BitVec 8 := 0x0D

def regRxAddrP4 : BitVec 8 := 0x0E

def regRxAddrP5 : BitVec 8 := 0x0F

def regTxAddr : BitVec 8 := 0x10

def regRxPwP0 : BitVec 8 := 0x11

def regRxPwP1 : BitVec 8 := 0x12

def regFifoStatus : BitVec 8 := 0x17

def regDynpd : BitVec 8 := 0x1C

def cmdRRegister : BitVec 8 := 0x00

def cmdWRegister : BitVec 8 := 0x20

def cmdRegisterMask : BitVec 8 := 0x1F

def cmdRRxPayload : BitVec 8 := 0x61

def cmdWTxPayload : BitVec 8 := 0xA0

def cmdFlushTx : BitVec 8 := 0xE1

def cmdFlushRx : BitVec 8 := 0xE2

def cmdNop : BitVec 8 := 0xFF

/-- The bits of `CONFIG`. -/
def bitPrimRx : ℕ := 0

def bitPwrUp : ℕ := 1

def bitCrco : ℕ := 2

def bitEnCrc : ℕ := 3

/-- The bits of `STATUS`. -/
def bitMaxRt : ℕ := 4

def bitTxDs : ℕ := 5

def bitRxDr : ℕ := 6

def bitRxPNo : ℕ := 1

/-- The bits of `RF_SETUP`. -/
def bitRfPwrLow : ℕ := 1

def bitRfPwrHigh : ℕ := 2

def bitRfDrHigh : ℕ := 3

def bitRfDrLow : ℕ := 5

/-- `NRF24L01_CH` -/
def channel : BitVec 8 := 54

/-- `NRF24L01_PAYLOAD` -/
def payloadSize : ℕ := 32

/-- `NRF24L01_RETR` -/
def retr : BitVec 8 := 0xFF

/-- `NRF24L01_MAX_CHANNEL` -/
def maxChannel : ℕ := 128

/-- `NRF24L01_ADDRSIZE` bytes. -/
abbrev Addr := Vector (BitVec 8) 5

/-- The choices of `NRF24L01_RF24_PA`. -/
inductive PaLevel where
  | min
  | low
  | high
  | max
  deriving DecidableEq

/-- The choices of `NRF24L01_RF24_SPEED`. -/
inductive Speed where
  | kbps250
  | mbps1
  | mbps2
  deriving DecidableEq

/-- The choices of `NRF24L01_RF24_CRC`. -/
inductive Crc where
  | disabled
  | crc8
  | crc16
  deriving DecidableEq

def rf24Pa : PaLevel := .max

def rf24Speed : Speed := .mbps1

def rf24Crc : Crc := .crc16

end Nrf24

/-! ## The chip -/

/-- The chip: the bytes of its registers, its pins, and the transaction under way. `payload` are the
bytes written to be sent, `polled` the answers to `NOP` commands. -/
structure Nrf24Chip where
  /-- The bytes of the registers. -/
  regs : ℕ → ℕ → BitVec 8
  /-- The bytes that the chip answers with. -/
  miso : ℕ → BitVec 8
  /-- How many of them were taken. -/
  shifted : ℕ
  /-- The pin that starts listening and sending. -/
  ce : Bool
  /-- The pin that ends a transaction. -/
  csn : Bool
  /-- The command under way. -/
  command : Option (BitVec 8)
  /-- How many bytes have followed it. -/
  pos : ℕ
  /-- The bytes to be sent. -/
  payload : List (BitVec 8)
  /-- The answers to `NOP`. -/
  polled : List (BitVec 8)

namespace Nrf24Chip

open Nrf24

/-- The registers that the chip changes by itself. -/
def Volatile (reg : BitVec 8) : Prop :=
  reg = regStatus ∨ reg = regObserveTx ∨ reg = regCd ∨ reg = regFifoStatus

instance (reg : BitVec 8) : Decidable (Volatile reg) := inferInstanceAs (Decidable (_ ∨ _))

def setReg (s : Nrf24Chip) (reg i : ℕ) (v : BitVec 8) : Nrf24Chip :=
  { s with regs := fun r j ↦ if r = reg ∧ j = i then v else s.regs r j }

/-- A data byte of the transaction that `command` opened. -/
def exchangeData (s : Nrf24Chip) (command b : BitVec 8) : Nrf24Chip × BitVec 8 :=
  let reg := cmdRegisterMask &&& command
  let s' := { s with shifted := s.shifted + 1, pos := s.pos + 1 }
  if command &&& ~~~cmdRegisterMask = cmdRRegister then
    (s', if Volatile reg then s.miso s.shifted else s.regs reg.toNat s.pos)
  else if command &&& ~~~cmdRegisterMask = cmdWRegister then
    (s'.setReg reg.toNat s.pos b, s.miso s.shifted)
  else if command = cmdWTxPayload then
    ({ s' with payload := s.payload ++ [b] }, s.miso s.shifted)
  else (s', s.miso s.shifted)

/-- The macro `spi_writereadbyte`: a byte in either direction. -/
def spiWriteReadByte (s : Nrf24Chip) (b : BitVec 8) : Nrf24Chip × BitVec 8 :=
  if s.csn then ({ s with shifted := s.shifted + 1 }, s.miso s.shifted)
  else
    match s.command with
    | none =>
      let status := s.miso s.shifted
      let polled := if b = cmdNop then s.polled ++ [status] else s.polled
      ({ s with command := some b, pos := 0, shifted := s.shifted + 1, polled := polled }, status)
    | some command => s.exchangeData command b

def csnHi (s : Nrf24Chip) : Nrf24Chip := { s with csn := true, command := none, pos := 0 }

def csnLo (s : Nrf24Chip) : Nrf24Chip := { s with csn := false }

def ceHi (s : Nrf24Chip) : Nrf24Chip := { s with ce := true }

def ceLo (s : Nrf24Chip) : Nrf24Chip := { s with ce := false }

/-! ## The driver -/

def readRegister (s : Nrf24Chip) (reg : BitVec 8) : Nrf24Chip × BitVec 8 :=
  let s := (s.csnLo.spiWriteReadByte (cmdRRegister ||| (cmdRegisterMask &&& reg))).1
  let r := s.spiWriteReadByte cmdNop
  (r.1.csnHi, r.2)

def writeRegister (s : Nrf24Chip) (reg value : BitVec 8) : Nrf24Chip :=
  let s := (s.csnLo.spiWriteReadByte (cmdWRegister ||| (cmdRegisterMask &&& reg))).1
  (s.spiWriteReadByte value).1.csnHi

def writeRegisters (s : Nrf24Chip) (reg : BitVec 8) (value : List (BitVec 8)) : Nrf24Chip :=
  let s := (s.csnLo.spiWriteReadByte (cmdWRegister ||| (cmdRegisterMask &&& reg))).1
  (value.foldl (fun s b ↦ (s.spiWriteReadByte b).1) s).csnHi

/-- `writeregister(reg, f(readregister(reg)))` -/
def modifyRegister (s : Nrf24Chip) (reg : BitVec 8) (f : BitVec 8 → BitVec 8) : Nrf24Chip :=
  let r := s.readRegister reg
  r.1.writeRegister reg (f r.2)

def revAddress (addr : Addr) : List (BitVec 8) := addr.toList.reverse

def setRxAddr (s : Nrf24Chip) (pipe : BitVec 8) (addr : Addr) : Nrf24Chip :=
  -- of the pipes 2 to 5 only the last byte of the address is their own
  let lsb := addr.toList.getD 4 0
  if pipe = 0 then s.writeRegisters regRxAddrP0 (revAddress addr)
  else if pipe = 1 then s.writeRegisters regRxAddrP1 (revAddress addr)
  else if pipe = 2 then s.writeRegister regRxAddrP2 lsb
  else if pipe = 3 then s.writeRegister regRxAddrP3 lsb
  else if pipe = 4 then s.writeRegister regRxAddrP4 lsb
  else if pipe = 5 then s.writeRegister regRxAddrP5 lsb
  else s

def setTxAddr (s : Nrf24Chip) (addr : Addr) : Nrf24Chip :=
  (s.writeRegisters regRxAddrP0 (revAddress addr)).writeRegisters regTxAddr (revAddress addr)

def flushRxFifo (s : Nrf24Chip) : Nrf24Chip := (s.csnLo.spiWriteReadByte cmdFlushRx).1.csnHi

def flushTxFifo (s : Nrf24Chip) : Nrf24Chip := (s.csnLo.spiWriteReadByte cmdFlushTx).1.csnHi

/-- The bits that reset the status. -/
def statusReset : BitVec 8 := bv bitRxDr ||| bv bitTxDs ||| bv bitMaxRt

def setRx (s : Nrf24Chip) : Nrf24Chip :=
  let s := s.modifyRegister regConfig (· ||| bv bitPrimRx)
  let s := s.modifyRegister regConfig (· ||| bv bitPwrUp)
  let s := s.writeRegister regStatus statusReset
  s.flushRxFifo.flushTxFifo.ceHi

def setTx (s : Nrf24Chip) : Nrf24Chip :=
  let s := s.ceLo.modifyRegister regConfig (· &&& ~~~bv bitPrimRx)
  let s := s.modifyRegister regConfig (· ||| bv bitPwrUp)
  let s := s.writeRegister regStatus statusReset
  s.flushTxFifo

def getStatus (s : Nrf24Chip) : Nrf24Chip × BitVec 8 :=
  let r := s.csnLo.spiWriteReadByte cmdNop
  (r.1.csnHi, r.2)

/-- The flag, and the number of the pipe if the flag is set. -/
def readReady (s : Nrf24Chip) : Nrf24Chip × BitVec 8 × Option (BitVec 8) :=
  let r := s.getStatus
  let ret := r.2 &&& bv bitRxDr
  (r.1, ret, if ret ≠ 0 then some ((r.2 >>> bitRxPNo) &&& 0b111) else none)

/-- `n` times `data[i] = spi_writereadbyte(NRF24L01_CMD_NOP)` -/
def shiftIn : ℕ → Nrf24Chip → Nrf24Chip × List (BitVec 8)
  | 0, s => (s, [])
  | n + 1, s =>
    let r := s.spiWriteReadByte cmdNop
    let rest := shiftIn n r.1
    (rest.1, r.2 :: rest.2)

def read (s : Nrf24Chip) : Nrf24Chip × List (BitVec 8) :=
  let s := (s.csnLo.spiWriteReadByte cmdRRxPayload).1
  let data := shiftIn payloadSize s
  let s := data.1.csnHi.writeRegister regStatus (bv bitRxDr)
  let status := s.getStatus
  (if status.2 &&& bv bitTxDs ≠ 0 then status.1.writeRegister regStatus (bv bitTxDs) else status.1,
    data.2)

/-- The loop that waits for the end of a transmission: `timeout` is decremented, and the loop ends
when it is 0. -/
def pollStatus : ℕ → Nrf24Chip → Nrf24Chip × BitVec 8
  | 0, s => (s, 0)
  | timeout + 1, s =>
    let r := s.getStatus
    if timeout = 0 ∨ r.2 &&& (bv bitMaxRt ||| bv bitTxDs) ≠ 0 then r else pollStatus timeout r.1

def writeTimeout : ℕ := 1500

/-- The bytes `data[0]`, …, `data[31]`. -/
def payloadBytes (data : ℕ → BitVec 8) : List (BitVec 8) := (List.range payloadSize).map data

def writeResult (status : BitVec 8) : BitVec 8 :=
  if status &&& bv bitMaxRt ≠ 0 then 2 else if status &&& bv bitTxDs ≠ 0 then 1 else 0

def write (s : Nrf24Chip) (data : ℕ → BitVec 8) : Nrf24Chip × BitVec 8 :=
  let s := (s.setTx.csnLo.spiWriteReadByte cmdWTxPayload).1
  let s := ((payloadBytes data).foldl (fun s b ↦ (s.spiWriteReadByte b).1) s).csnHi
  let status := pollStatus writeTimeout s.ceHi.ceLo
  ((status.1.writeRegister regRfCh channel).setRx, writeResult status.2)

def setPaLevel (s : Nrf24Chip) : Nrf24Chip :=
  s.modifyRegister regRfSetup fun setup ↦
    let setup := setup &&& ~~~(bv bitRfPwrLow ||| bv bitRfPwrHigh)
    match rf24Pa with
    | .max => setup ||| (bv bitRfPwrLow ||| bv bitRfPwrHigh)
    | .high => setup ||| bv bitRfPwrHigh
    | .low => setup ||| bv bitRfPwrLow
    | .min => setup

def setDataRate (s : Nrf24Chip) : Nrf24Chip :=
  s.modifyRegister regRfSetup fun setup ↦
    let setup := setup &&& ~~~(bv bitRfDrLow ||| bv bitRfDrHigh)
    match rf24Speed with
    | .kbps250 => setup ||| bv bitRfDrLow
    | .mbps2 => setup ||| bv bitRfDrHigh
    | .mbps1 => setup

def setCrcLength (s : Nrf24Chip) : Nrf24Chip :=
  s.modifyRegister regConfig fun config ↦
    let config := config &&& ~~~(bv bitCrco ||| bv bitEnCrc)
    match rf24Crc with
    | .disabled => config
    | .crc8 => config ||| bv bitEnCrc
    | .crc16 => config ||| bv bitEnCrc ||| bv bitCrco

/-- The pipes 0 and 1 are enabled, and acknowledgements are off on all six. -/
def init (s : Nrf24Chip) : Nrf24Chip :=
  let s := s.ceLo.csnHi.setPaLevel.setDataRate.setCrcLength
  let s := s.writeRegister regSetupRetr retr
  let s := s.writeRegister regDynpd 0
  let s := s.writeRegister regRfCh channel
  let s := s.writeRegister regRxPwP0 (BitVec.ofNat 8 payloadSize)
  let s := s.writeRegister regRxPwP1 (BitVec.ofNat 8 payloadSize)
  let s := s.writeRegister regEnRxaddr 0
  let s := s.modifyRegister regEnRxaddr (· ||| bv 0)
  let s := s.modifyRegister regEnRxaddr (· ||| bv 1)
  let s := [0, 1, 2, 3, 4, 5].foldl (fun s pipe ↦ s.modifyRegister regEnAa (· &&& ~~~bv pipe)) s
  s.setRx

/-! ## Scanning -/

/-- A channel of a pass: tune to it, listen, and read the carrier detector. -/
def scanChannel (s : Nrf24Chip) (i : ℕ) : Nrf24Chip × Bool :=
  let r := ((s.writeRegister regRfCh (BitVec.ofNat 8 i)).setRx).readRegister regCd
  (r.1, r.2.toNat > 0)

/-- A turn of the inner loop, with the counts of the carriers detected. -/
def scanStep (w : Nrf24Chip × (ℕ → BitVec 8)) (i : ℕ) : Nrf24Chip × (ℕ → BitVec 8) :=
  let r := w.1.scanChannel i
  (r.1, if r.2 then Function.update w.2 i (w.2 i + 1) else w.2)

def scanPass (w : Nrf24Chip × (ℕ → BitVec 8)) : Nrf24Chip × (ℕ → BitVec 8) :=
  (List.range maxChannel).foldl scanStep w

def grey : List Char := " 123456789".toList

/-- A division as the code makes it. -/
def div? (a b : ℕ) : Option ℕ := if b = 0 then none else some (a / b)

/-- The character of a count, for the maximal count `norm`; `none` where the code would divide by
zero or leave the table. -/
def greyChar? (norm count : ℕ) : Option Char := do
  let pos ← if norm ≠ 0 then div? (count * 10) norm else some 0
  let pos := if pos = 0 ∧ count > 0 then pos + 1 else pos
  let pos := if pos > 9 then 9 else pos
  grey[pos]?

def greyChar (norm count : ℕ) : Char := (greyChar? norm count).getD ' '

/-- The passes over the channels, with the counts that they leave. -/
def scanCounts (s : Nrf24Chip) (iterations : BitVec 8) : Nrf24Chip × List ℕ :=
  let r := scanPass^[iterations.toNat] (s, fun _ ↦ 0)
  (r.1, (List.range maxChannel).map fun i ↦ (r.2 i).toNat)

/-- The maximal count. -/
def scanNorm (counts : List ℕ) : ℕ :=
  counts.foldl (fun norm count ↦ if count > norm then count else norm) 0

def scan (s : Nrf24Chip) (iterations : BitVec 8) : Nrf24Chip × List Char :=
  let r := s.scanCounts iterations
  (r.1, r.2.map (greyChar (scanNorm r.2)))

end Nrf24Chip

end Martink
