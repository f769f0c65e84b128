import Martink.Base.Outcome
import Martink.Base.Paged

/-!
# The I2C master on the AVR

`avr/mega/twi.c` moves the bytes of a transfer in its interrupt handler. The peripheral reports what
happened on the bus in `TWSR`, and the handler answers in `TWCR`. A system is the driver with the
state of the peripheral and a log of the bus, and it takes one event of the bus after another.

When the arbitration is lost the handler starts again, but its pointer stays where it is. `WriteRun`
says what this means for a write: the attempts together put every byte out once, and the last one
sends what the ones before have not.
-/

namespace Martink

/-- The bits of `TWCR`. The stop bit is set in `twi_stop` only. -/
structure Twcr where
  /-- The interrupt flag: writing it starts the next transfer. -/
  twint : Bool
  /-- The acknowledge bit. -/
  twea : Bool
  /-- The start bit. -/
  twsta : Bool
  /-- The interrupt is enabled. -/
  twie : Bool
  deriving DecidableEq

namespace Twcr

def start : Twcr := ⟨true, false, true, true⟩

def go (ack : Bool) : Twcr := ⟨true, ack, false, true⟩

def off : Twcr := ⟨false, false, false, false⟩

end Twcr

def twStart : BitVec 8 := 0x08
def twRepStart : BitVec 8 := 0x10
def twMtSlaAck : BitVec 8 := 0x18
def twMtSlaNack : BitVec 8 := 0x20
def twMtDataAck : BitVec 8 := 0x28
def twMtDataNack : BitVec 8 := 0x30
def twMtArbLost : BitVec 8 := 0x38
def twMrSlaAck : BitVec 8 := 0x40
def twMrSlaNack : BitVec 8 := 0x48
def twMrDataAck : BitVec 8 := 0x50
def twMrDataNack : BitVec 8 := 0x58
def twBusError : BitVec 8 := 0x00

def twiStatusDone : BitVec 8 := 0xff

/-- The variables of the driver, its registers, and the memory that the pointers point into. -/
structure AvrTwi where
  /-- The address of the device, with the direction in its last bit. -/
  adr : BitVec 8
  /-- Where the next byte received goes. -/
  rdData : ℕ
  /-- Where the next byte to send comes from. -/
  wrData : ℕ
  /-- How many bytes are left. -/
  counter : BitVec 8
  /-- The result of the transfer. -/
  status : BitVec 8
  /-- The data register. -/
  twdr : BitVec 8
  /-- The control register. -/
  twcr : Twcr
  /-- The bytes of the memory. -/
  mem : ℕ → BitVec 8

namespace AvrTwi

variable (s : AvrTwi)

/-- `*twi_rd_data++ = TWDR`, and the counter. -/
def store : AvrTwi :=
  { s with mem := Function.update s.mem s.rdData s.twdr, rdData := s.rdData + 1,
           counter := s.counter - 1 }

/-- The answer to the next byte, which is refused if it is the last. -/
def answer : AvrTwi := { s with twcr := .go (1 < s.counter.toNat) }

/-- The interrupt handler. -/
def twiVect (twsr : BitVec 8) : AvrTwi :=
  if twsr = twStart ∨ twsr = twRepStart then { s with twdr := s.adr, twcr := .go false }
  else if twsr = twMtSlaAck ∨ twsr = twMtDataAck then
    if s.counter ≠ 0 then
      { s with counter := s.counter - 1, twdr := s.mem s.wrData, wrData := s.wrData + 1,
               twcr := .go false }
    else { s with twcr := .off, status := twiStatusDone }
  else if twsr = twMrDataAck then s.store.answer
  else if twsr = twMrSlaAck then s.answer
  else if twsr = twMrDataNack then { s.store with twcr := .off, status := twiStatusDone }
  else if twsr = twMtArbLost then { s with twcr := .start }
  else { s with status := twsr, twcr := .off }

/-- `twi_start_write(0, adr, data, bytes_to_send)` when the interface is not busy. -/
def twiStartWrite (adr : BitVec 8) (data : ℕ) (bytesToSend : BitVec 8) : AvrTwi :=
  { s with adr := adr &&& ~~~1, wrData := data, counter := bytesToSend, twcr := .start }

/-- `twi_start_read(0, adr, data, bytes_to_receive)` when the interface is not busy. -/
def twiStartRead (adr : BitVec 8) (data : ℕ) (bytesToReceive : BitVec 8) : AvrTwi :=
  { s with adr := adr ||| 1, rdData := data, counter := bytesToReceive, twcr := .start }

def twiBusy : Bool := s.twcr.twie

theorem twiVect_start {twsr : BitVec 8} (h : twsr = twStart ∨ twsr = twRepStart) :
    s.twiVect twsr = { s with twdr := s.adr, twcr := .go false } := if_pos h

theorem twiVect_send {twsr : BitVec 8} (h : twsr = twMtSlaAck ∨ twsr = twMtDataAck)
    (hne : s.counter ≠ 0) :
    s.twiVect twsr = { s with counter := s.counter - 1, twdr := s.mem s.wrData,
                              wrData := s.wrData + 1, twcr := .go false } := by
  rcases h with rfl | rfl <;> exact if_pos hne

theorem twiVect_sent {twsr : BitVec 8} (h : twsr = twMtSlaAck ∨ twsr = twMtDataAck)
    (heq : s.counter = 0) :
    s.twiVect twsr = { s with twcr := .off, status := twiStatusDone } := by
  rcases h with rfl | rfl <;> exact if_neg (not_not.mpr heq)

theorem twiVect_asked : s.twiVect twMrSlaAck = s.answer := rfl

theorem twiVect_more : s.twiVect twMrDataAck = s.store.answer := rfl

theorem twiVect_refused :
    s.twiVect twMrDataNack = { s.store with twcr := .off, status := twiStatusDone } := rfl

theorem twiVect_error {twsr : BitVec 8}
    (h : twsr ∈ [twMtSlaNack, twMtDataNack, twMrSlaNack, twBusError]) :
    s.twiVect twsr = { s with status := twsr, twcr := .off } := by
  simp only [List.mem_cons, List.not_mem_nil, or_false] at h
  rcases h with rfl | rfl | rfl | rfl <;> rfl

end AvrTwi

/-! ## The bus -/

inductive TwiReply
  | ack
  | nack
  | lost
  deriving DecidableEq

/-- What is seen on the bus. A byte is `dropped` when the arbitration is lost as it is refused. -/
inductive TwiItem
  | start
  | address (a : BitVec 8) (r : TwiReply)
  | sent (b : BitVec 8) (r : TwiReply)
  | received (b : BitVec 8) (acked : Bool)
  | dropped
  | error
  deriving DecidableEq

/-- What the peripheral has done last, as the master of the bus. -/
inductive TwiPhase
  | idle
  | started
  | transmitting
  | receiving
  deriving DecidableEq

inductive TwiEvent
  | start
  | reply (r : TwiReply)
  | byte (b : BitVec 8)
  | error

structure TwiSystem where
  /-- The driver. -/
  drv : AvrTwi
  /-- What the peripheral is at. -/
  phase : TwiPhase
  /-- What has happened on the bus, in order. -/
  log : List TwiItem

namespace TwiSystem

/-- What the peripheral does when its flag is cleared, if the event can happen: the status, the data
register, the phase, and what is seen on the bus. -/
def hardware (s : TwiSystem) (e : TwiEvent) : Option (BitVec 8 × BitVec 8 × TwiPhase × TwiItem) :=
  let d := s.drv.twdr
  match e with
  | .error => some (twBusError, d, .idle, .error)
  | .start =>
    if s.drv.twcr.twsta then
      some (if s.phase = .idle then twStart else twRepStart, d, .started, .start)
    else none
  | .reply r =>
    if s.drv.twcr.twsta then none
    else match s.phase, r with
      | .started, .ack =>
        if d.getLsbD 0 then some (twMrSlaAck, d, .receiving, .address d .ack)
        else some (twMtSlaAck, d, .transmitting, .address d .ack)
      | .started, .nack =>
        some (if d.getLsbD 0 then twMrSlaNack else twMtSlaNack, d, .transmitting, .address d .nack)
      | .started, .lost => some (twMtArbLost, d, .idle, .address d .lost)
      | .transmitting, .ack => some (twMtDataAck, d, .transmitting, .sent d .ack)
      | .transmitting, .nack => some (twMtDataNack, d, .transmitting, .sent d .nack)
      | .transmitting, .lost => some (twMtArbLost, d, .idle, .sent d .lost)
      | .receiving, .lost => if s.drv.twcr.twea then none
          else some (twMtArbLost, d, .idle, .dropped)
      | _, _ => none
  | .byte b =>
    if s.drv.twcr.twsta ∨ s.phase ≠ .receiving then none
    else
      let acked := s.drv.twcr.twea
      some (if acked then twMrDataAck else twMrDataNack, b, .receiving, .received b acked)

/-- An event of the bus, and the interrupt that it causes. -/
def step (s : TwiSystem) (e : TwiEvent) : Option TwiSystem :=
  if s.drv.twcr.twie ∧ s.drv.twcr.twint then
    (s.hardware e).map fun (twsr, twdr, phase, item) ↦
      ⟨{ s.drv with twdr := twdr }.twiVect twsr, phase, s.log ++ [item]⟩
  else none

/-- The transfer was given up. -/
def Failed (s : TwiSystem) : Prop := s.drv.twcr = .off ∧ s.drv.status ≠ twiStatusDone

variable {s s' : TwiSystem} {e : TwiEvent} {drv : AvrTwi} {phase : TwiPhase} {log : List TwiItem}

theorem step_eq_some (h : s.step e = some s') :
    s.drv.twcr.twie ∧ ∃ twsr twdr phase item, s.hardware e = some (twsr, twdr, phase, item) ∧
      s' = ⟨{ s.drv with twdr := twdr }.twiVect twsr, phase, s.log ++ [item]⟩ := by
  rw [step] at h
  split_ifs at h with hcr
  obtain ⟨⟨twsr, twdr, phase, item⟩, hhardware, rfl⟩ := Option.map_eq_some_iff.mp h
  exact ⟨hcr.1, twsr, twdr, phase, item, hhardware, rfl⟩

theorem step_off (hcr : drv.twcr = .off) : step ⟨drv, phase, log⟩ e ≠ some s' := fun h ↦ by
  have htwie := (step_eq_some h).1
  simp [hcr, Twcr.off] at htwie

theorem failed_twiVect {twsr : BitVec 8}
    (h : twsr ∈ [twMtSlaNack, twMtDataNack, twMrSlaNack, twBusError]) :
    Failed ⟨drv.twiVect twsr, phase, log⟩ := by
  have hne : ∀ x ∈ [twMtSlaNack, twMtDataNack, twMrSlaNack, twBusError], x ≠ twiStatusDone := by
    decide
  rw [drv.twiVect_error h]
  exact ⟨rfl, hne _ h⟩

/-- What follows a start condition that was asked for. -/
theorem step_start (hcr : drv.twcr = .start) (h : step ⟨drv, phase, log⟩ e = some s') :
    s'.Failed ∨ s' = ⟨{ drv with twdr := drv.adr, twcr := .go false }, .started,
      log ++ [.start]⟩ := by
  obtain ⟨-, twsr, twdr, phase', item, hhardware, rfl⟩ := step_eq_some h
  cases e with
  | start =>
    simp [hardware, hcr, Twcr.start] at hhardware
    obtain ⟨rfl, rfl, rfl, rfl⟩ := hhardware
    rw [AvrTwi.twiVect_start _ (by split_ifs <;> simp)]
    exact Or.inr rfl
  | error =>
    simp [hardware] at hhardware
    obtain ⟨rfl, rfl, rfl, rfl⟩ := hhardware
    exact Or.inl (failed_twiVect (by decide))
  | reply r => simp [hardware, hcr, Twcr.start] at hhardware
  | byte b => simp [hardware, hcr, Twcr.start] at hhardware

/-- What follows the address. -/
theorem step_address {ack : Bool} (hcr : drv.twcr = .go ack)
    (h : step ⟨drv, .started, log⟩ e = some s') : s'.Failed ∨
      s' = ⟨drv.twiVect (if drv.twdr.getLsbD 0 then twMrSlaAck else twMtSlaAck),
        if drv.twdr.getLsbD 0 then .receiving else .transmitting, log ++ [.address drv.twdr .ack]⟩ ∨
      s' = ⟨{ drv with twcr := .start }, .idle, log ++ [.address drv.twdr .lost]⟩ := by
  obtain ⟨-, twsr, twdr, phase', item, hhardware, rfl⟩ := step_eq_some h
  cases e with
  | start => simp [hardware, hcr, Twcr.go] at hhardware
  | error =>
    simp [hardware] at hhardware
    obtain ⟨rfl, rfl, rfl, rfl⟩ := hhardware
    exact Or.inl (failed_twiVect (by decide))
  | reply r =>
    cases r with
    | ack =>
      refine Or.inr (Or.inl ?_)
      simp only [hardware, hcr, Twcr.go, Bool.false_eq_true, if_false] at hhardware
      split_ifs at hhardware ⊢ <;> cases hhardware <;> rfl
    | nack =>
      simp only [hardware, hcr, Twcr.go, Bool.false_eq_true, if_false] at hhardware
      split_ifs at hhardware <;> cases hhardware <;> exact Or.inl (failed_twiVect (by decide))
    | lost =>
      simp [hardware, hcr, Twcr.go] at hhardware
      obtain ⟨rfl, rfl, rfl, rfl⟩ := hhardware
      exact Or.inr (Or.inr rfl)
  | byte b => simp [hardware, hcr, Twcr.go] at hhardware

/-- What follows a byte that was sent. -/
theorem step_sent {ack : Bool} (hcr : drv.twcr = .go ack)
    (h : step ⟨drv, .transmitting, log⟩ e = some s') : s'.Failed ∨
      s' = ⟨drv.twiVect twMtDataAck, .transmitting, log ++ [.sent drv.twdr .ack]⟩ ∨
      s' = ⟨{ drv with twcr := .start }, .idle, log ++ [.sent drv.twdr .lost]⟩ := by
  obtain ⟨-, twsr, twdr, phase', item, hhardware, rfl⟩ := step_eq_some h
  cases e with
  | start => simp [hardware, hcr, Twcr.go] at hhardware
  | error =>
    simp [hardware] at hhardware
    obtain ⟨rfl, rfl, rfl, rfl⟩ := hhardware
    exact Or.inl (failed_twiVect (by decide))
  | reply r =>
    cases r <;> simp [hardware, hcr, Twcr.go] at hhardware <;>
      obtain ⟨rfl, rfl, rfl, rfl⟩ := hhardware
    · exact Or.inr (Or.inl rfl)
    · exact Or.inl (failed_twiVect (by decide))
    · exact Or.inr (Or.inr rfl)
  | byte b => simp [hardware, hcr, Twcr.go] at hhardware

/-- What comes when a byte is to be received. -/
theorem step_received {ack : Bool} (hcr : drv.twcr = .go ack)
    (h : step ⟨drv, .receiving, log⟩ e = some s') : s'.Failed ∨
      (∃ b, s' = ⟨{ drv with twdr := b }.twiVect (if ack then twMrDataAck else twMrDataNack),
        .receiving, log ++ [.received b ack]⟩) ∨
      ack = false ∧ s' = ⟨{ drv with twcr := .start }, .idle, log ++ [.dropped]⟩ := by
  obtain ⟨-, twsr, twdr, phase', item, hhardware, rfl⟩ := step_eq_some h
  cases e with
  | start => simp [hardware, hcr, Twcr.go] at hhardware
  | error =>
    simp [hardware] at hhardware
    obtain ⟨rfl, rfl, rfl, rfl⟩ := hhardware
    exact Or.inl (failed_twiVect (by decide))
  | reply r =>
    cases r with
    | lost =>
      simp [hardware, hcr, Twcr.go] at hhardware
      obtain ⟨hack, rfl, rfl, rfl, rfl⟩ := hhardware
      exact Or.inr (Or.inr ⟨hack, rfl⟩)
    | ack | nack => simp [hardware, hcr, Twcr.go] at hhardware
  | byte b =>
    simp [hardware, hcr, Twcr.go] at hhardware
    obtain ⟨rfl, rfl, rfl, rfl⟩ := hhardware
    exact Or.inr (Or.inl ⟨b, rfl⟩)

end TwiSystem

/-! ## Writing -/

/-- The data bytes that the master put on the bus. -/
def dataOf (log : List TwiItem) : List (BitVec 8) :=
  log.filterMap fun
    | .sent b _ => some b
    | _ => none

@[simp] theorem dataOf_append (log log' : List TwiItem) :
    dataOf (log ++ log') = dataOf log ++ dataOf log' :=
  List.filterMap_append

/-- An attempt in which every byte was taken. -/
def attempt (adr : BitVec 8) (bytes : List (BitVec 8)) : List TwiItem :=
  .start :: .address adr .ack :: bytes.map (.sent · .ack)

@[simp] theorem dataOf_attempt (adr : BitVec 8) (bytes : List (BitVec 8)) :
    dataOf (attempt adr bytes) = bytes := by
  induction bytes with
  | nil => rfl
  | cons b bytes ih => exact congrArg (b :: ·) ih

theorem attempt_concat (adr b : BitVec 8) (bytes : List (BitVec 8)) :
    attempt adr bytes ++ [.sent b .ack] = attempt adr (bytes ++ [b]) := by simp [attempt]

/-- Attempts that were all lost, in which `k` bytes went out. -/
structure LostAttempts (mem : ℕ → BitVec 8) (data k : ℕ) (log : List TwiItem) : Prop where
  /-- The bytes that went out are the first of the transfer. -/
  bytes : dataOf log = bytesAt mem data k
  /-- None went out if none was lost on the way. -/
  clean : (∀ b, .sent b .lost ∉ log) → k = 0

/-- The driver in a write of `n` bytes, of which `k` have gone to the peripheral. -/
structure AvrTwi.Writes (drv : AvrTwi) (mem : ℕ → BitVec 8) (adr : BitVec 8)
    (data n k : ℕ) : Prop where
  /-- The memory is not touched. -/
  mem : drv.mem = mem
  /-- The address is that of the call. -/
  adr : drv.adr = adr
  /-- The pointer is at the next byte. -/
  wrData : drv.wrData = data + k
  /-- The counter has the bytes that are left. -/
  counter : drv.counter.toNat + k = n

/-- A write in progress, and what is on the bus. -/
inductive WriteRun (mem : ℕ → BitVec 8) (adr : BitVec 8) (data n : ℕ) : TwiSystem → Prop
  | pending {drv : AvrTwi} {phase : TwiPhase} {log : List TwiItem} {k : ℕ}
      (hdrv : drv.Writes mem adr data n k) (hcr : drv.twcr = .start)
      (hlog : LostAttempts mem data k log) : WriteRun mem adr data n ⟨drv, phase, log⟩
  | started {drv : AvrTwi} {log : List TwiItem} {k : ℕ} (hdrv : drv.Writes mem adr data n k)
      (hcr : drv.twcr = .go false) (hdr : drv.twdr = adr) (hlog : LostAttempts mem data k log) :
      WriteRun mem adr data n ⟨drv, .started, log ++ [.start]⟩
  | sending {drv : AvrTwi} {log : List TwiItem} {k m : ℕ}
      (hdrv : drv.Writes mem adr data n (k + m + 1))
      (hcr : drv.twcr = .go false) (hdr : drv.twdr = mem (data + k + m))
      (hlog : LostAttempts mem data k log) :
      WriteRun mem adr data n ⟨drv, .transmitting, log ++ attempt adr (bytesAt mem (data + k) m)⟩
  | done {drv : AvrTwi} {phase : TwiPhase} {log : List TwiItem} {k m : ℕ} (hcr : drv.twcr = .off)
      (hstatus : drv.status = twiStatusDone) (hcount : k + m = n)
        (hlog : LostAttempts mem data k log) :
      WriteRun mem adr data n ⟨drv, phase, log ++ attempt adr (bytesAt mem (data + k) m)⟩
  | failed {drv : AvrTwi} {phase : TwiPhase} {log : List TwiItem} (hcr : drv.twcr = .off)
      (hstatus : drv.status ≠ twiStatusDone) : WriteRun mem adr data n ⟨drv, phase, log⟩

namespace LostAttempts

variable {mem : ℕ → BitVec 8} {adr : BitVec 8} {data k m : ℕ} {log : List TwiItem}

theorem eq_zero_iff (h : LostAttempts mem data k log) : k = 0 ↔ ∀ b, .sent b .lost ∉ log where
  mp hzero b hb := by
    have hmem : b ∈ dataOf log := List.mem_filterMap.mpr ⟨_, hb, rfl⟩
    rw [h.bytes, hzero] at hmem
    exact absurd hmem List.not_mem_nil
  mpr := h.clean

theorem address (h : LostAttempts mem data k log) (a : BitVec 8) :
    LostAttempts mem data k (log ++ [.start] ++ [.address a .lost]) where
  bytes := by rw [dataOf_append, dataOf_append, h.bytes]; simp [dataOf]
  clean hclean := h.clean fun b hb ↦ hclean b (by simp [hb])

theorem sent (h : LostAttempts mem data k log) :
    LostAttempts mem data (k + m + 1)
      (log ++ attempt adr (bytesAt mem (data + k) m) ++ [.sent (mem (data + k + m)) .lost]) where
  bytes := by
    rw [dataOf_append, dataOf_append, h.bytes, dataOf_attempt, bytesAt_succ, bytesAt_add,
      Nat.add_assoc]
    rfl
  clean hclean := absurd (by simp) (hclean (mem (data + k + m)))

end LostAttempts

section Write

variable {mem : ℕ → BitVec 8} {adr : BitVec 8} {data n k m : ℕ} {drv : AvrTwi} {phase : TwiPhase}
  {log : List TwiItem}

theorem toNat_sub_one {c : BitVec 8} (h : 0 < c.toNat) : (c - 1).toNat = c.toNat - 1 := by
  bv_omega

theorem AvrTwi.Writes.congr {drv' : AvrTwi} (h : drv.Writes mem adr data n k)
    (hmem : drv'.mem = drv.mem)
    (hadr : drv'.adr = drv.adr) (hwrData : drv'.wrData = drv.wrData)
    (hcounter : drv'.counter = drv.counter) :
    drv'.Writes mem adr data n k :=
  ⟨hmem ▸ h.mem, hadr ▸ h.adr, hwrData ▸ h.wrData, hcounter ▸ h.counter⟩

/-- The interrupt after an address or a byte that was taken. -/
theorem WriteRun.next (h : drv.Writes mem adr data n (k + m)) (hlog : LostAttempts mem data k log)
    {twsr : BitVec 8} (hs : twsr = twMtSlaAck ∨ twsr = twMtDataAck) :
    WriteRun mem adr data n
      ⟨drv.twiVect twsr, .transmitting, log ++ attempt adr (bytesAt mem (data + k) m)⟩ := by
  rcases eq_or_ne drv.counter 0 with hzero | hne
  · have hcount := h.counter
    rw [hzero] at hcount
    rw [drv.twiVect_sent hs hzero]
    exact .done rfl rfl (by simpa using hcount) hlog
  · have hpos : 0 < drv.counter.toNat :=
      Nat.pos_of_ne_zero fun hzero ↦ hne (BitVec.eq_of_toNat_eq hzero)
    rw [drv.twiVect_send hs hne]
    refine .sending ⟨h.mem, h.adr, ?_, ?_⟩ rfl ?_ hlog
    · simp only [h.wrData]
      omega
    · have hcount := h.counter
      simp only
      rw [toNat_sub_one hpos]
      omega
    · simp only [h.mem, h.wrData, Nat.add_assoc]

theorem WriteRun.fail {s : TwiSystem} (h : s.Failed) : WriteRun mem adr data n s := .failed h.1 h.2

/-- **Every event keeps a write what it is.** -/
theorem WriteRun.step (hadr : adr.getLsbD 0 = false) {s s' : TwiSystem} {e : TwiEvent}
    (h : WriteRun mem adr data n s) (hstep : s.step e = some s') : WriteRun mem adr data n s' := by
  cases h with
  | pending hdrv hcr hlog =>
    rcases TwiSystem.step_start hcr hstep with hfail | rfl
    · exact .fail hfail
    · exact .started (hdrv.congr rfl rfl rfl rfl) rfl hdrv.adr hlog
  | @started drv log k hdrv hcr hdr hlog =>
    rcases TwiSystem.step_address hcr hstep with hfail | rfl | rfl
    · exact .fail hfail
    · have hempty : log ++ [.start] ++ [.address drv.twdr .ack]
          = log ++ attempt adr (bytesAt mem (data + k) 0) := by simp [hdr, attempt, bytesAt]
      rw [hempty, hdr, hadr]
      exact .next (m := 0) hdrv hlog (Or.inl rfl)
    · exact .pending (hdrv.congr rfl rfl rfl rfl) rfl (hlog.address _)
  | @sending drv log k m hdrv hcr hdr hlog =>
    rcases TwiSystem.step_sent hcr hstep with hfail | rfl | rfl
    · exact .fail hfail
    · rw [hdr, List.append_assoc, attempt_concat, ← bytesAt_succ]
      exact .next (m := m + 1) hdrv hlog (Or.inr rfl)
    · rw [hdr]
      exact .pending (hdrv.congr rfl rfl rfl rfl) rfl hlog.sent
  | done hcr | failed hcr => exact absurd hstep (TwiSystem.step_off hcr)

/-- **A write that is done.** The attempts that were lost have put the first `k` bytes on the bus,
and the last one carries the others. Nothing is missing from it only if no data byte was lost. -/
theorem twiStartWrite_run (s : AvrTwi) (adr : BitVec 8) (data : ℕ) (bytesToSend : BitVec 8)
    {phase : TwiPhase} {events : List TwiEvent} {t : TwiSystem}
    (hrun : events.foldlM TwiSystem.step ⟨s.twiStartWrite adr data bytesToSend, phase, []⟩ = some t)
    (hbusy : t.drv.twiBusy = false) (hdone : t.drv.status = twiStatusDone) :
    ∃ lost k m, k + m = bytesToSend.toNat ∧
      t.log = lost ++ attempt (adr &&& ~~~1) (bytesAt s.mem (data + k) m) ∧
      dataOf lost = bytesAt s.mem data k ∧ (k = 0 ↔ ∀ b, .sent b .lost ∉ lost) := by
  have hadr : (adr &&& ~~~1).getLsbD 0 = false := by simp
  have hstart : WriteRun s.mem (adr &&& ~~~1) data bytesToSend.toNat
      ⟨s.twiStartWrite adr data bytesToSend, phase, []⟩ :=
    .pending (k := 0) ⟨rfl, rfl, rfl, rfl⟩ rfl ⟨rfl, fun _ ↦ rfl⟩
  cases foldlM_invariant (fun _ _ _ h hstep ↦ h.step hadr hstep) hstart hrun with
  | pending _ hcr => simp [AvrTwi.twiBusy, hcr, Twcr.start] at hbusy
  | started _ hcr => simp [AvrTwi.twiBusy, hcr, Twcr.go] at hbusy
  | sending _ hcr => simp [AvrTwi.twiBusy, hcr, Twcr.go] at hbusy
  | @done _ _ lost k m _ _ hcount hlog =>
    exact ⟨lost, k, m, hcount, rfl, hlog.bytes, hlog.eq_zero_iff⟩
  | failed _ hstatus => exact absurd hdone hstatus

/-- The first byte of two is lost, and the second attempt carries the second byte alone. -/
theorem twiStartWrite_run_two : ∃ lost k m, k + m = 2 ∧
    [.start, .address 0xd0 .ack, .sent 7 .lost, .start, .address 0xd0 .ack, .sent 7 .ack]
      = lost ++ attempt (0xd0 &&& ~~~1) (bytesAt (fun _ ↦ 7) (0 + k) m) ∧
    dataOf lost = bytesAt (fun _ ↦ 7) 0 k ∧ (k = 0 ↔ ∀ b, .sent b .lost ∉ lost) :=
  @twiStartWrite_run ⟨0, 0, 0, 0, 0, 0, .off, fun _ ↦ 7⟩ 0xd0 0 2 .idle
    [.start, .reply .ack, .reply .lost, .start, .reply .ack, .reply .ack] _ rfl rfl rfl

end Write

end Martink
