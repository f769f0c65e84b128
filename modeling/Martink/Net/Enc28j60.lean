import Martink.Base.Outcome

/-!
# The ENC28J60 network controller

`net/enc28j60.c`. The control registers of the chip lie in four banks, and the bank select bits of
`ECON1` say which of them an address means. A register constant carries its bank in bits 5 and 6,
and the driver caches the selected bank so as to switch only when it has to. The registers `EIE` to
`ECON1` are in every bank.

Of the chip, `ECON1` is modelled, and every access to a control register is recorded with both
banks. What the chip answers comes from the stream `miso`, so that nothing is assumed about it. The
PHY may stay busy for ever: the loop that waits for it is given fuel.
-/

namespace Martink

/-! ## Constants -/

namespace Enc28

def addrMask : BitVec 8 := 0x1F

def bankMask : BitVec 8 := 0x60

def eie : BitVec 8 := 0x1B

def eir : BitVec 8 := 0x1C

def econ2 : BitVec 8 := 0x1E

def econ1 : BitVec 8 := 0x1F

def erdptl : BitVec 8 := 0x00 ||| 0x00

def erdpth : BitVec 8 := 0x01 ||| 0x00

def ewrptl : BitVec 8 := 0x02 ||| 0x00

def ewrpth : BitVec 8 := 0x03 ||| 0x00

def etxstl : BitVec 8 := 0x04 ||| 0x00

def etxsth : BitVec 8 := 0x05 ||| 0x00

def etxndl : BitVec 8 := 0x06 ||| 0x00

def etxndh : BitVec 8 := 0x07 ||| 0x00

def erxstl : BitVec 8 := 0x08 ||| 0x00

def erxsth : BitVec 8 := 0x09 ||| 0x00

def erxndl : BitVec 8 := 0x0A ||| 0x00

def erxndh : BitVec 8 := 0x0B ||| 0x00

def erxrdptl : BitVec 8 := 0x0C ||| 0x00

def erxrdpth : BitVec 8 := 0x0D ||| 0x00

def epmm0 : BitVec 8 := 0x08 ||| 0x20

def epmm1 : BitVec 8 := 0x09 ||| 0x20

def epmcsl : BitVec 8 := 0x10 ||| 0x20

def epmcsh : BitVec 8 := 0x11 ||| 0x20

def erxfcon : BitVec 8 := 0x18 ||| 0x20

def epktcnt : BitVec 8 := 0x19 ||| 0x20

def macon1 : BitVec 8 := 0x00 ||| 0x40 ||| 0x80

def macon2 : BitVec 8 := 0x01 ||| 0x40 ||| 0x80

def macon3 : BitVec 8 := 0x02 ||| 0x40 ||| 0x80

def mabbipg : BitVec 8 := 0x04 ||| 0x40 ||| 0x80

def maipgl : BitVec 8 := 0x06 ||| 0x40 ||| 0x80

def maipgh : BitVec 8 := 0x07 ||| 0x40 ||| 0x80

def mamxfll : BitVec 8 := 0x0A ||| 0x40 ||| 0x80

def mamxflh : BitVec 8 := 0x0B ||| 0x40 ||| 0x80

def miregadr : BitVec 8 := 0x14 ||| 0x40 ||| 0x80

def miwrl : BitVec 8 := 0x16 ||| 0x40 ||| 0x80

def miwrh : BitVec 8 := 0x17 ||| 0x40 ||| 0x80

def maadr1 : BitVec 8 := 0x00 ||| 0x60 ||| 0x80

def maadr0 : BitVec 8 := 0x01 ||| 0x60 ||| 0x80

def maadr3 : BitVec 8 := 0x02 ||| 0x60 ||| 0x80

def maadr2 : BitVec 8 := 0x03 ||| 0x60 ||| 0x80

def maadr5 : BitVec 8 := 0x04 ||| 0x60 ||| 0x80

def maadr4 : BitVec 8 := 0x05 ||| 0x60 ||| 0x80

def mistat : BitVec 8 := 0x0A ||| 0x60 ||| 0x80

def erevid : BitVec 8 := 0x12 ||| 0x60

def phcon2 : BitVec 8 := 0x10

/-- The SPI operation codes. -/
def readCtrlReg : BitVec 8 := 0x00

def readBufMem : BitVec 8 := 0x3A

def writeCtrlReg : BitVec 8 := 0x40

def writeBufMem : BitVec 8 := 0x7A

def bitFieldSet : BitVec 8 := 0x80

def bitFieldClr : BitVec 8 := 0xA0

def softReset : BitVec 8 := 0xFF

/-- `ECON1_BSEL1|ECON1_BSEL0` -/
def econ1Bsel : BitVec 8 := 0x02 ||| 0x01

def econ1Rxen : BitVec 8 := 0x04

def econ1Txrts : BitVec 8 := 0x08

def econ1Txrst : BitVec 8 := 0x80

def econ2Pktdec : BitVec 8 := 0x40

def eirTxerif : BitVec 8 := 0x02

def mistatBusy : BitVec 8 := 0x01

/-- `EIE_INTIE | EIE_PKTIE` -/
def eieInit : BitVec 8 := 0x80 ||| 0x40

/-- `ERXFCON_UCEN | ERXFCON_CRCEN | ERXFCON_PMEN` -/
def erxfconInit : BitVec 8 := 0x80 ||| 0x20 ||| 0x10

/-- `MACON1_MARXEN | MACON1_TXPAUS | MACON1_RXPAUS` -/
def macon1Init : BitVec 8 := 0x01 ||| 0x08 ||| 0x04

/-- `MACON3_PADCFG0 | MACON3_TXCRCEN | MACON3_FRMLNEN` -/
def macon3Init : BitVec 8 := 0x20 ||| 0x10 ||| 0x02

/-- `PHCON2_HDLDIS` -/
def phcon2Hdldis : BitVec 16 := 0x0100

def rxStartInit : ℕ := 0x0

def rxStopInit : ℕ := 0x1FFF - 0x0600 - 1

def txStartInit : ℕ := 0x1FFF - 0x0600

def txStopInit : ℕ := 0x1FFF

def maxFrameLen : ℕ := 1500

abbrev MacAddr := Vector (BitVec 8) 6

def defaultMac : MacAddr := #v[0x00, 0x05, 0x5D, 0x12, 0x43, 0x85]

/-- The low and the high byte of a number, as the driver writes them to a pair of registers. -/
def lowByte (n : ℕ) : BitVec 8 := BitVec.ofNat 8 n

def highByte (n : ℕ) : BitVec 8 := BitVec.ofNat 8 (n >>> 8)

end Enc28

/-! ## State -/

/-- An access to a control register: the operation, the register constant and the data, with the
bank that was selected in the chip and the bank in the cache when it was made. -/
structure EncAccess where
  /-- The operation. -/
  op : BitVec 8
  /-- The register constant. -/
  address : BitVec 8
  /-- The data. -/
  data : BitVec 8
  /-- The bank in the chip. -/
  selected : BitVec 8
  /-- The bank in the cache. -/
  cached : BitVec 8

/-- `struct enc28j60` with the chip behind it. -/
structure Enc28j60 where
  /-- Where the next packet begins. -/
  nextPacketPtr : BitVec 16
  /-- The cache of the bank. -/
  bank : BitVec 8
  /-- The register of the chip that selects it. -/
  chipEcon1 : BitVec 8
  /-- The bytes that the chip answers with. -/
  miso : ℕ → BitVec 8
  /-- How many of them were taken. -/
  shifted : ℕ
  /-- The accesses so far, in order. -/
  accesses : List EncAccess

namespace Enc28j60

open Enc28

/-! ## The chip -/

/-- The bank that is selected in the chip, at the place it has in a register constant. -/
def selected (s : Enc28j60) : BitVec 8 := (s.chipEcon1 &&& econ1Bsel) <<< 5

/-- What the bytes between two edges of the chip select do to `ECON1`. -/
def execute (e : BitVec 8) : List (BitVec 8) → BitVec 8
  | [command, data] =>
    if command = softReset then 0
    else if command = writeCtrlReg ||| (econ1 &&& addrMask) then data
    else if command = bitFieldSet ||| (econ1 &&& addrMask) then e ||| data
    else if command = bitFieldClr ||| (econ1 &&& addrMask) then e &&& ~~~data
    else e
  | _ => e

/-- `enc28j60_writereadbyte` for the bytes of a transaction, with the answers. -/
def transfer (s : Enc28j60) (bytes : List (BitVec 8)) : Enc28j60 × List (BitVec 8) :=
  ({ s with chipEcon1 := execute s.chipEcon1 bytes, shifted := s.shifted + bytes.length },
    (List.range' s.shifted bytes.length).map s.miso)

/-- The operations on control registers; the others are on the buffer memory. -/
def controlOps : List (BitVec 8) := [readCtrlReg, writeCtrlReg, bitFieldSet, bitFieldClr]

def record (s : Enc28j60) (op address data : BitVec 8) : Enc28j60 :=
  if op ∈ controlOps then
    { s with accesses := s.accesses ++ [⟨op, address, data, s.selected, s.bank⟩] }
  else s

/-! ## The driver -/

def readReg (s : Enc28j60) (op address : BitVec 8) : Enc28j60 × BitVec 8 :=
  -- the registers of the MAC and the MII answer with a dummy byte first
  let dummy := if address &&& 0x80 ≠ 0 then [0x00] else []
  let r := (s.record op address 0).transfer ([op ||| (address &&& addrMask), 0x00] ++ dummy)
  (r.1, r.2.getLastD 0)

def writeReg (s : Enc28j60) (op address data : BitVec 8) : Enc28j60 :=
  ((s.record op address data).transfer [op ||| (address &&& addrMask), data]).1

/-- The bytes stored at `data`, with the zero behind them. -/
def readBuffer (s : Enc28j60) (len : ℕ) : Enc28j60 × List (BitVec 8) :=
  let r := s.transfer (readBufMem :: List.replicate len 0x00)
  (r.1, r.2.drop 1 ++ [0x00])

def writeBuffer (s : Enc28j60) (data : List (BitVec 8)) : Enc28j60 :=
  (s.transfer (writeBufMem :: data)).1

def setBank (s : Enc28j60) (address : BitVec 8) : Enc28j60 :=
  if address &&& bankMask ≠ s.bank then
    let s := s.writeReg bitFieldClr econ1 econ1Bsel
    let s := s.writeReg bitFieldSet econ1 ((address &&& bankMask) >>> 5)
    { s with bank := address &&& bankMask }
  else s

def readFrom (s : Enc28j60) (address : BitVec 8) : Enc28j60 × BitVec 8 :=
  (s.setBank address).readReg readCtrlReg address

def writeTo (s : Enc28j60) (address data : BitVec 8) : Enc28j60 :=
  (s.setBank address).writeReg writeCtrlReg address data

/-- The loop of `_enc28j60_phy_write`. -/
def phyWait : ℕ → Enc28j60 → Outcome Unit Enc28j60
  | 0, s => .stuck () s
  | fuel + 1, s =>
    let r := s.readFrom mistat
    if r.2 &&& mistatBusy ≠ 0 then phyWait fuel r.1 else .done r.1

def phyWrite (fuel : ℕ) (s : Enc28j60) (address : BitVec 8) (data : BitVec 16) :
    Outcome Unit Enc28j60 :=
  let s := s.writeTo miregadr address
  let s := s.writeTo miwrl (lowByte data.toNat)
  let s := s.writeTo miwrh (highByte data.toNat)
  phyWait fuel s

def setMacAddr (s : Enc28j60) (macaddr : MacAddr) : Enc28j60 :=
  let byte := macaddr.toList.getD
  let s := s.writeTo maadr5 (byte 0 0)
  let s := s.writeTo maadr4 (byte 1 0)
  let s := s.writeTo maadr3 (byte 2 0)
  let s := s.writeTo maadr2 (byte 3 0)
  let s := s.writeTo maadr1 (byte 4 0)
  s.writeTo maadr0 (byte 5 0)

/-- `enc28j60_init` up to the PHY. -/
def initRegs (s : Enc28j60) : Enc28j60 :=
  let s := s.writeReg softReset 0 softReset
  let s := { s with nextPacketPtr := BitVec.ofNat 16 rxStartInit }
  let s := s.writeTo erxstl (lowByte rxStartInit)
  let s := s.writeTo erxsth (highByte rxStartInit)
  let s := s.writeTo erxrdptl (lowByte rxStartInit)
  let s := s.writeTo erxrdpth (highByte rxStartInit)
  let s := s.writeTo erxndl (lowByte rxStopInit)
  let s := s.writeTo erxndh (highByte rxStopInit)
  let s := s.writeTo etxstl (lowByte txStartInit)
  let s := s.writeTo etxsth (highByte txStartInit)
  let s := s.writeTo etxndl (lowByte txStopInit)
  let s := s.writeTo etxndh (highByte txStopInit)
  let s := s.writeTo erxfcon erxfconInit
  let s := s.writeTo epmm0 0x3F
  let s := s.writeTo epmm1 0x30
  let s := s.writeTo epmcsl 0xF9
  let s := s.writeTo epmcsh 0xF7
  let s := s.writeTo macon1 macon1Init
  let s := s.writeTo macon2 0x00
  -- this access relies on the bank that the one before it has selected
  let s := s.writeReg bitFieldSet macon3 macon3Init
  let s := s.writeTo maipgl 0x12
  let s := s.writeTo maipgh 0x0C
  let s := s.writeTo mabbipg 0x12
  let s := s.writeTo mamxfll (lowByte maxFrameLen)
  let s := s.writeTo mamxflh (highByte maxFrameLen)
  s.setMacAddr defaultMac

/-- The end of `enc28j60_init`: interrupts and reception are enabled. -/
def initEnable (s : Enc28j60) : Enc28j60 :=
  let s := s.setBank econ1
  let s := s.writeReg bitFieldSet eie eieInit
  s.writeReg bitFieldSet econ1 econ1Rxen

def init (fuel : ℕ) (s : Enc28j60) : Outcome Unit Enc28j60 :=
  (phyWrite fuel s.initRegs phcon2 phcon2Hdldis).andThen fun s ↦ .done s.initEnable

def readVersion (s : Enc28j60) : Enc28j60 × BitVec 8 := s.readFrom erevid

/-- `packet` are the `len` bytes to send. -/
def send (s : Enc28j60) (packet : List (BitVec 8)) : Enc28j60 :=
  let r := s.readFrom eir
  let s :=
    if r.2 &&& eirTxerif ≠ 0 then
      let s := r.1.writeReg bitFieldSet econ1 econ1Txrst
      let s := s.writeReg bitFieldClr econ1 econ1Txrst
      s.writeReg bitFieldClr eir eirTxerif
    else r.1
  let s := s.writeTo ewrptl (lowByte txStartInit)
  let s := s.writeTo ewrpth (highByte txStartInit)
  let s := s.writeTo etxndl (lowByte (txStartInit + packet.length))
  let s := s.writeTo etxndh (highByte (txStartInit + packet.length))
  let s := s.writeReg writeBufMem 0 0x00
  let s := s.writeBuffer packet
  s.writeReg bitFieldSet econ1 econ1Txrts

/-- Two bytes of the buffer memory, the low one first. -/
def readBufWord (s : Enc28j60) : Enc28j60 × BitVec 16 :=
  let low := s.readReg readBufMem 0
  let high := low.1.readReg readBufMem 0
  (high.1, low.2.setWidth 16 ||| high.2.setWidth 16 <<< 8)

/-- The header of the next packet: the pointer to the one after it is kept, the length and the
status are returned. -/
def recvHeader (s : Enc28j60) : Enc28j60 × BitVec 16 × BitVec 16 :=
  let s := s.writeTo erdptl (lowByte s.nextPacketPtr.toNat)
  let s := s.writeTo erdpth (highByte s.nextPacketPtr.toNat)
  let next := s.readBufWord
  let size := { next.1 with nextPacketPtr := next.2 }.readBufWord
  let rxstat := size.1.readBufWord
  (rxstat.1, size.2, rxstat.2)

/-- The number of bytes to retrieve: the CRC is not counted, and one byte is kept for the zero
behind them. -/
def recvLength (len maxlen : BitVec 16) : BitVec 16 :=
  let len := len - 4
  if (len.toNat : ℤ) > maxlen.toNat - 1 then maxlen - 1 else len

/-- Free the memory of the packet that was read, and count it off. -/
def recvRelease (s : Enc28j60) : Enc28j60 :=
  let s := s.writeTo erxrdptl (lowByte s.nextPacketPtr.toNat)
  let s := s.writeTo erxrdpth (highByte s.nextPacketPtr.toNat)
  s.writeReg bitFieldSet econ2 econ2Pktdec

/-- The bytes stored at `packet`, if any, and the length. -/
def recv (s : Enc28j60) (maxlen : BitVec 16) : Enc28j60 × List (BitVec 8) × BitVec 16 :=
  let r := s.readFrom epktcnt
  if r.2 = 0 then (r.1, [], 0)
  else
    let header := r.1.recvHeader
    let len := recvLength header.2.1 maxlen
    if header.2.2 &&& 0x80 = 0 then (header.1.recvRelease, [], 0)
    else
      let data := header.1.readBuffer len.toNat
      (data.1.recvRelease, data.2, len)

end Enc28j60

/-! ## Calls -/

inductive EncCall where
  | init
  | setMacAddr (macaddr : Enc28.MacAddr)
  | readVersion
  | send (packet : List (BitVec 8))
  | recv (maxlen : BitVec 16)

namespace Enc28j60

def call (fuel : ℕ) (s : Enc28j60) : EncCall → Outcome Unit Enc28j60
  | .init => s.init fuel
  | .setMacAddr macaddr => .done (s.setMacAddr macaddr)
  | .readVersion => .done s.readVersion.1
  | .send packet => .done (s.send packet)
  | .recv maxlen => .done (s.recv maxlen).1

def runCalls (fuel : ℕ) : List EncCall → Enc28j60 → Outcome Unit Enc28j60
  | [], s => .done s
  | c :: calls, s => (s.call fuel c).andThen (runCalls fuel calls)

end Enc28j60

end Martink
