import Martink.Arch.Stm32.Twi
import Martink.Block.At24

/-!
# The generic I2C interface on the STM32

`arch/twi.c` turns the driver of the board into devices with the interface `struct i2c_interface`.
The interface counts with 16 bits and the driver with 8, and the interface takes the requested
length for the number of bytes moved. A transfer of 256 bytes or more therefore moves only its
length modulo 256, and still reports all of it.
-/

namespace Martink

open TwiBus

/-- The identifiers in the table `_twi`. -/
def twiIds : List (BitVec 8) := [0, 1, 2, 3]

def twiWrite (id : BitVec 8) (s : TwiBus) (adr : BitVec 8) (data : List (BitVec 8))
    (maxSz : BitVec 16) : TwiBus × BitVec 32 :=
  -- the length becomes a `uint8_t` here
  let r := twiStartWrite s id adr data (maxSz.setWidth 8)
  if r.2 ≠ -1 then (r.1, maxSz.setWidth 32) else (r.1, 0)

def twiRead (id : BitVec 8) (s : TwiBus) (adr : BitVec 8) (maxSz : BitVec 16) :
    TwiBus × List (BitVec 8) × BitVec 32 :=
  let r := twiStartRead s id adr (maxSz.setWidth 8)
  if r.2.2 ≠ -1 then (r.1, r.2.1, maxSz.setWidth 32) else (r.1, r.2.1, 0)

/-- The device of a row of `_twi`. The caller of a write hands over as many bytes as it
announces. -/
def twiDevice (id : BitVec 8) : I2cInterface TwiBus where
  startWrite s address data := twiWrite id s address data (BitVec.ofNat 16 data.length)
  startRead := twiRead id
  stop s := ((twiStop s id).1, (twiStop s id).2.signExtend 16)
  wait s addr := twiWait s id addr

def twiGetInterface (id : BitVec 8) : Option (I2cInterface TwiBus) :=
  twiIds[id.toNat]?.map twiDevice

/-! ## What a transfer moves -/

/-- A write puts exactly `data` on the bus of the device, and returns the number of bytes it put
there. -/
def Transmits (dev : I2cInterface TwiBus) (id : BitVec 8) (s : TwiBus) (adr : BitVec 8)
    (data : List (BitVec 8)) : Prop :=
  ∃ port moved, devices[id.toNat]? = some port ∧
    (dev.startWrite s adr data).1.sent port = s.sent port ++ moved ∧
    moved = data ∧ (dev.startWrite s adr data).2.toNat = moved.length

/-- A read stores exactly the next `maxSz` bytes from the bus of the device, and returns the number
of bytes it took from there. -/
def Receives (dev : I2cInterface TwiBus) (id : BitVec 8) (s : TwiBus) (adr : BitVec 8)
    (maxSz : BitVec 16) : Prop :=
  ∃ port moved, devices[id.toNat]? = some port ∧
    (dev.startRead s adr maxSz).1.taken port = s.taken port ++ moved ∧
    moved = (List.range' s.received maxSz.toNat).map s.reply ∧
    (dev.startRead s adr maxSz).2.1 = moved ∧
    (dev.startRead s adr maxSz).2.2.toNat = moved.length

theorem twiGetInterface_eq_some {id : BitVec 8} {dev : I2cInterface TwiBus}
    (h : twiGetInterface id = some dev) : dev = twiDevice id := by
  rw [twiGetInterface, Option.map_eq_some_iff] at h
  obtain ⟨id', hrow, rfl⟩ := h
  obtain ⟨hlt, hget⟩ := List.getElem?_eq_some_iff.mp hrow
  have hid : id'.toNat = id.toNat := by
    have hrows : ∀ (i : ℕ) (hi : i < twiIds.length), twiIds[i].toNat = i := by decide
    rw [← hget]
    exact hrows _ hlt
  rw [BitVec.eq_of_toNat_eq hid]

theorem devices_eq_some_iff {i : ℕ} : (∃ port, devices[i]? = some port) ↔ i < 2 := by
  simp only [List.getElem?_eq_some_iff]
  exact ⟨fun ⟨_, hlt, _⟩ ↦ hlt, fun hlt ↦ ⟨_, hlt, rfl⟩⟩

section Transfer

variable {id : BitVec 8} {port : I2cPort} (s : TwiBus) (adr : BitVec 8)

theorem startWrite_twiDevice (hport : devices[id.toNat]? = some port) (data : List (BitVec 8))
    (hlen : data.length < 65536) :
    ((twiDevice id).startWrite s adr data).1.sent port =
        s.sent port ++ data.take (data.length % 256) ∧
      ((twiDevice id).startWrite s adr data).2.toNat = data.length := by
  constructor
  · simp [twiDevice, twiWrite, twiStartWrite, hport, sent_foldl, sent_op, sentBy]
  · simp [twiDevice, twiWrite, twiStartWrite, hport]
    omega

theorem startRead_twiDevice (hport : devices[id.toNat]? = some port) (maxSz : BitVec 16) :
    ((twiDevice id).startRead s adr maxSz).2.1 =
        (List.range' s.received (maxSz.toNat % 256)).map s.reply ∧
      ((twiDevice id).startRead s adr maxSz).1.taken port =
        s.taken port ++ ((twiDevice id).startRead s adr maxSz).2.1 ∧
      ((twiDevice id).startRead s adr maxSz).2.2.toNat = maxSz.toNat := by
  have hloop := readLoop_moves
    (((s.op port .generateStart).wait.op port (.send7bitAddress adr true)).wait.op port .cmdEnable)
    port (maxSz.toNat % 256)
  simp only [received_op, received_wait, reply_op, reply_wait, taken_op, taken_wait, takenBy,
    Option.toList_none, List.append_nil] at hloop
  refine ⟨?_, ?_, ?_⟩
  · simp [twiDevice, twiRead, twiStartRead, hport, hloop.1]
  · simp [twiDevice, twiRead, twiStartRead, hport, hloop.2, taken_op, takenBy]
  · simp [twiDevice, twiRead, twiStartRead, hport]
    omega

theorem transmits_iff (data : List (BitVec 8)) (hlen : data.length < 65536) :
    Transmits (twiDevice id) id s adr data ↔ id.toNat < 2 ∧ data.length < 256 := by
  rw [← devices_eq_some_iff]
  constructor
  · rintro ⟨port, moved, hport, hsent, rfl, -⟩
    refine ⟨⟨port, hport⟩, ?_⟩
    rw [(startWrite_twiDevice s adr hport moved hlen).1, List.append_cancel_left_eq] at hsent
    have hlength := congrArg List.length hsent
    rw [List.length_take] at hlength
    omega
  · rintro ⟨⟨port, hport⟩, hlt⟩
    obtain ⟨hsent, hcount⟩ := startWrite_twiDevice s adr hport data hlen
    rw [Nat.mod_eq_of_lt hlt, List.take_length] at hsent
    exact ⟨port, data, hport, hsent, rfl, hcount⟩

theorem receives_iff (maxSz : BitVec 16) :
    Receives (twiDevice id) id s adr maxSz ↔ id.toNat < 2 ∧ maxSz.toNat < 256 := by
  rw [← devices_eq_some_iff]
  constructor
  · rintro ⟨port, moved, hport, -, rfl, hstored, -⟩
    refine ⟨⟨port, hport⟩, ?_⟩
    rw [(startRead_twiDevice s adr hport maxSz).1] at hstored
    have hlength := congrArg List.length hstored
    rw [List.length_map, List.length_map, List.length_range', List.length_range'] at hlength
    omega
  · rintro ⟨⟨port, hport⟩, hlt⟩
    obtain ⟨hstored, htaken, hcount⟩ := startRead_twiDevice s adr hport maxSz
    rw [Nat.mod_eq_of_lt hlt] at hstored
    refine ⟨port, _, hport, htaken, hstored, rfl, ?_⟩
    rw [hcount, hstored, List.length_map, List.length_range']

end Transfer

/-- **Transfers.** A transfer through the generic interface moves exactly the requested bytes, and
counts them, if and only if there is a peripheral behind the device and at most 255 bytes are
requested. -/
theorem twi_transfer_iff {id : BitVec 8} {dev : I2cInterface TwiBus}
    (h : twiGetInterface id = some dev) (s : TwiBus) (adr : BitVec 8) :
    (∀ data, 1 ≤ data.length → data.length ≤ 65535 →
        (Transmits dev id s adr data ↔ id.toNat < 2 ∧ data.length ≤ 255)) ∧
      ∀ maxSz : BitVec 16, 1 ≤ maxSz.toNat →
        (Receives dev id s adr maxSz ↔ id.toNat < 2 ∧ maxSz.toNat ≤ 255) := by
  rw [twiGetInterface_eq_some h]
  constructor
  · intro data _ hlen
    rw [transmits_iff s adr data (by omega)]
    omega
  · intro maxSz _
    rw [receives_iff s adr maxSz]
    omega

/-- A bus on which every event has occurred when it is first looked for. -/
def promptTwiBus : TwiBus where
  delay _ := 0
  reply k := BitVec.ofNat 8 k
  events := 0
  received := 0
  polls := 0
  ops := []

theorem twi_transfer_iff_prompt :
    Transmits (twiDevice 1) 1 promptTwiBus 0xA0 [0x00, 0x10, 0x2A] ∧
      ¬Receives (twiDevice 2) 2 promptTwiBus 0xA0 1 := by
  have h1 : twiGetInterface 1 = some (twiDevice 1) := rfl
  have h2 : twiGetInterface 2 = some (twiDevice 2) := rfl
  have h := (twi_transfer_iff h1 promptTwiBus 0xA0).1 [0x00, 0x10, 0x2A]
  have h' := (twi_transfer_iff h2 promptTwiBus 0xA0).2 1
  refine ⟨(h (by decide) (by decide)).mpr (by decide), ?_⟩
  rw [h' (by decide)]
  decide

/-- None of 256 bytes is sent, and all of them are counted. -/
theorem twi_write_loses_256 :
    ((twiDevice 0).startWrite promptTwiBus 0xA0 (List.replicate 256 0x55)).1.sent .i2c1 = [] ∧
      ((twiDevice 0).startWrite promptTwiBus 0xA0 (List.replicate 256 0x55)).2.toNat = 256 ∧
      ¬Transmits (twiDevice 0) 0 promptTwiBus 0xA0 (List.replicate 256 0x55) := by
  have hport : devices[(0 : BitVec 8).toNat]? = some I2cPort.i2c1 := rfl
  obtain ⟨hsent, hcount⟩ := startWrite_twiDevice promptTwiBus 0xA0 hport
    (List.replicate 256 0x55) (by rw [List.length_replicate]; norm_num)
  rw [List.length_replicate] at hsent hcount
  refine ⟨hsent, hcount, ?_⟩
  rw [transmits_iff _ _ _ (by rw [List.length_replicate]; norm_num), List.length_replicate]
  omega

/-- `at24_read` asks for its bytes in one transfer, and gets their number modulo 256. -/
theorem length_at24Read_twiDevice (id : BitVec 8) (hid : id.toNat < 2) (s : TwiBus)
    (eeaddr : BitVec 16) (count : ℕ) :
    (at24Read (twiDevice id) s eeaddr count).2.length = count % 256 := by
  obtain ⟨port, hport⟩ := devices_eq_some_iff.mpr hid
  rw [at24Read, (startRead_twiDevice _ _ hport _).1, List.length_map, List.length_range',
    BitVec.toNat_ofNat]
  omega

end Martink
