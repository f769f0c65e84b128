import Martink.Arch.Avr.Twi

/-!
# Reading from the I2C bus on the AVR

A read stores its bytes as they come and refuses the last. `ReadRun` follows it through the attempts
that lose the arbitration: the bytes that are stored stay where they are, and the next attempt goes
on behind them.
-/

namespace Martink

/-- Memory after `bs` was stored from `a` on. -/
def stored (mem : ℕ → BitVec 8) (a : ℕ) (bs : List (BitVec 8)) : ℕ → BitVec 8 :=
  fun x ↦ if a ≤ x then bs.getD (x - a) (mem x) else mem x

theorem stored_concat (mem : ℕ → BitVec 8) (a : ℕ) (bs : List (BitVec 8)) (b : BitVec 8) :
    stored mem a (bs ++ [b]) = Function.update (stored mem a bs) (a + bs.length) b := by
  funext x
  rcases lt_or_ge x a with hlt | hge
  · simp [stored, hlt.not_ge, show x ≠ a + bs.length by omega]
  · obtain ⟨i, rfl⟩ := Nat.exists_eq_add_of_le hge
    rcases lt_trichotomy i bs.length with hi | rfl | hi
    · simp [stored, List.getElem?_append_left hi, hi.ne]
    · simp [stored]
    · have hout : (bs ++ [b])[i]? = none := List.getElem?_eq_none (by simpa using hi)
      simp [stored, hi.ne', hi.le, hout]

/-- The bytes that the master received, each with its answer. -/
def receivedOf (log : List TwiItem) : List (BitVec 8 × Bool) :=
  log.filterMap fun
    | .received b acked => some (b, acked)
    | _ => none

@[simp] theorem receivedOf_append (log log' : List TwiItem) :
    receivedOf (log ++ log') = receivedOf log ++ receivedOf log' := List.filterMap_append

/-- An attempt in which more bytes were asked for after each. -/
def readAttempt (adr : BitVec 8) (bytes : List (BitVec 8)) : List TwiItem :=
  .start :: .address adr .ack :: bytes.map (.received · true)

@[simp] theorem receivedOf_readAttempt (adr : BitVec 8) (bytes : List (BitVec 8)) :
    receivedOf (readAttempt adr bytes) = bytes.map (·, true) := by
  induction bytes with
  | nil => rfl
  | cons b bytes ih => exact congrArg ((b, true) :: ·) ih

theorem readAttempt_concat (adr b : BitVec 8) (bytes : List (BitVec 8)) :
    readAttempt adr bytes ++ [.received b true] = readAttempt adr (bytes ++ [b]) := by
  simp [readAttempt]

/-- How many bytes a read of `n` stores. -/
def readLength (n : ℕ) : ℕ := max n 1

/-- Attempts at a read of `n` bytes that were all lost. Bytes are left of them only if the last one
of the read was refused in vain. -/
structure LostReads (n : ℕ) (bs : List (BitVec 8)) (log : List TwiItem) : Prop where
  /-- The bytes were received and acknowledged. -/
  received : receivedOf log = bs.map (·, true)
  /-- They are none, or all but the last one of the read. -/
  count : .dropped ∉ log ∧ bs = [] ∨ .dropped ∈ log ∧ bs.length + 1 = readLength n

/-- The driver in a read of `n` bytes, when `bs` is stored. -/
structure AvrTwi.Reads (drv : AvrTwi) (mem : ℕ → BitVec 8) (adr : BitVec 8) (data n : ℕ)
    (bs : List (BitVec 8)) : Prop where
  /-- The bytes are in the buffer, and nothing else has changed. -/
  mem : drv.mem = stored mem data bs
  /-- The address is that of the call. -/
  adr : drv.adr = adr
  /-- The pointer is behind them. -/
  rdData : drv.rdData = data + bs.length
  /-- The counter has the bytes that are left. -/
  counter : drv.counter.toNat = n - bs.length
  /-- There is one more to come. -/
  short : bs.length < readLength n

/-- A read in progress, and what is on the bus. -/
inductive ReadRun (mem : ℕ → BitVec 8) (adr : BitVec 8) (data n : ℕ) : TwiSystem → Prop
  | pending {drv : AvrTwi} {phase : TwiPhase} {log : List TwiItem} {cs : List (BitVec 8)}
      (hdrv : drv.Reads mem adr data n cs) (hcr : drv.twcr = .start) (hlog : LostReads n cs log) :
      ReadRun mem adr data n ⟨drv, phase, log⟩
  | started {drv : AvrTwi} {log : List TwiItem} {cs : List (BitVec 8)}
    (hdrv : drv.Reads mem adr data n cs)
      (hcr : drv.twcr = .go false) (hdr : drv.twdr = adr) (hlog : LostReads n cs log) :
      ReadRun mem adr data n ⟨drv, .started, log ++ [.start]⟩
  | receiving {drv : AvrTwi} {log : List TwiItem} {cs bs : List (BitVec 8)}
      (hdrv : drv.Reads mem adr data n (cs ++ bs)) (hcr : drv.twcr = .go (1 < drv.counter.toNat))
      (hlog : LostReads n cs log) :
        ReadRun mem adr data n ⟨drv, .receiving, log ++ readAttempt adr bs⟩
  | done {drv : AvrTwi} {phase : TwiPhase} {log : List TwiItem} {cs bs : List (BitVec 8)}
      {b : BitVec 8}
      (hcr : drv.twcr = .off) (hstatus : drv.status = twiStatusDone)
      (hmem : drv.mem = stored mem data (cs ++ bs ++ [b]))
      (hcount : (cs ++ bs).length + 1 = readLength n) (hlog : LostReads n cs log) :
      ReadRun mem adr data n ⟨drv, phase, log ++ readAttempt adr bs ++ [.received b false]⟩
  | failed {drv : AvrTwi} {phase : TwiPhase} {log : List TwiItem} (hcr : drv.twcr = .off)
      (hstatus : drv.status ≠ twiStatusDone) : ReadRun mem adr data n ⟨drv, phase, log⟩

section Read

variable {mem : ℕ → BitVec 8} {adr : BitVec 8} {data n : ℕ} {drv : AvrTwi} {phase : TwiPhase}
  {log : List TwiItem} {bs cs : List (BitVec 8)}

theorem LostReads.address (h : LostReads n cs log) (a : BitVec 8) :
    LostReads n cs (log ++ [.start] ++ [.address a .lost]) where
  received := by rw [receivedOf_append, receivedOf_append, h.received]; simp [receivedOf]
  count := by simpa using h.count

theorem LostReads.dropped (h : LostReads n cs log) (hcount : (cs ++ bs).length + 1 = readLength n) :
    LostReads n (cs ++ bs) (log ++ readAttempt adr bs ++ [.dropped]) where
  received := by
    rw [receivedOf_append, receivedOf_append, h.received, receivedOf_readAttempt]
    simp [receivedOf]
  count := Or.inr ⟨by simp, hcount⟩

namespace AvrTwi.Reads

theorem congr {drv' : AvrTwi} (h : drv.Reads mem adr data n bs) (hmem : drv'.mem = drv.mem)
    (hadr : drv'.adr = drv.adr) (hrdData : drv'.rdData = drv.rdData)
    (hcounter : drv'.counter = drv.counter) :
    drv'.Reads mem adr data n bs :=
  ⟨hmem ▸ h.mem, hadr ▸ h.adr, hrdData ▸ h.rdData, hcounter ▸ h.counter, h.short⟩

theorem withTwdr (h : drv.Reads mem adr data n bs) (d : BitVec 8) :
    { drv with twdr := d }.Reads mem adr data n bs := h.congr rfl rfl rfl rfl

theorem answer (h : drv.Reads mem adr data n bs) : drv.answer.Reads mem adr data n bs :=
  h.congr rfl rfl rfl rfl

theorem mem_store (h : drv.Reads mem adr data n bs) :
    drv.store.mem = stored mem data (bs ++ [drv.twdr]) := by
  rw [stored_concat, ← h.mem, ← h.rdData]
  rfl

/-- A byte that is not the last is stored. -/
theorem store (h : drv.Reads mem adr data n bs) (hmore : 1 < drv.counter.toNat) :
    drv.store.Reads mem adr data n (bs ++ [drv.twdr]) where
  mem := h.mem_store
  adr := h.adr
  rdData := by simp [AvrTwi.store, h.rdData, Nat.add_assoc]
  counter := by
    have hcount := h.counter
    change (drv.counter - 1).toNat = _
    rw [toNat_sub_one (by omega), List.length_append, List.length_singleton]
    omega
  short := by
    have hcount := h.counter
    simp only [List.length_append, List.length_singleton, readLength]
    omega

/-- The byte that is refused is the last. -/
theorem last (h : drv.Reads mem adr data n bs) (hlast : ¬1 < drv.counter.toNat) :
    bs.length + 1 = readLength n := by
  have hcount := h.counter
  have hshort := h.short
  simp only [readLength] at *
  omega

end AvrTwi.Reads

theorem ReadRun.fail {s : TwiSystem} (h : s.Failed) : ReadRun mem adr data n s := .failed h.1 h.2

/-- **Every event keeps a read what it is.** -/
theorem ReadRun.step (hadr : adr.getLsbD 0 = true) {s s' : TwiSystem} {e : TwiEvent}
    (h : ReadRun mem adr data n s) (hstep : s.step e = some s') : ReadRun mem adr data n s' := by
  cases h with
  | pending hdrv hcr hlog =>
    rcases TwiSystem.step_start hcr hstep with hfail | rfl
    · exact .fail hfail
    · exact .started (hdrv.congr rfl rfl rfl rfl) rfl hdrv.adr hlog
  | @started drv log cs hdrv hcr hdr hlog =>
    rcases TwiSystem.step_address hcr hstep with hfail | rfl | rfl
    · exact .fail hfail
    · have hempty : log ++ [.start] ++ [.address drv.twdr .ack] = log ++ readAttempt adr [] := by
        simp [hdr, readAttempt]
      rw [hempty, hdr, hadr, if_pos rfl, if_pos rfl, AvrTwi.twiVect_asked]
      rw [← List.append_nil cs] at hdrv
      exact .receiving hdrv.answer rfl hlog
    · exact .pending (hdrv.congr rfl rfl rfl rfl) rfl (hlog.address _)
  | @receiving drv log cs bs hdrv hcr hlog =>
    rcases TwiSystem.step_received hcr hstep with hfail | ⟨b, rfl⟩ | ⟨hlast, rfl⟩
    · exact .fail hfail
    · rcases Decidable.em (1 < drv.counter.toNat) with hmore | hlast
      · rw [decide_eq_true hmore, if_pos rfl, List.append_assoc, readAttempt_concat,
          AvrTwi.twiVect_more]
        refine .receiving ?_ rfl hlog
        rw [← List.append_assoc]
        exact ((hdrv.withTwdr b).store hmore).answer
      · rw [decide_eq_false hlast, if_neg Bool.false_ne_true, AvrTwi.twiVect_refused]
        exact .done rfl rfl (hdrv.withTwdr b).mem_store (hdrv.last hlast) hlog
    · exact .pending (hdrv.congr rfl rfl rfl rfl) rfl
        (hlog.dropped (hdrv.last (of_decide_eq_false hlast)))
  | done hcr | failed hcr => exact absurd hstep (TwiSystem.step_off hcr)

/-- **A read that is done.** It has stored `bytesToReceive` bytes, or one if none was asked for, and
it has refused the last. They come from one attempt, unless the arbitration was lost as the last
byte was refused: then the others are from an earlier attempt, and the last is the first of a new
one. -/
theorem twiStartRead_run (s : AvrTwi) (adr : BitVec 8) (data : ℕ) (bytesToReceive : BitVec 8)
    {phase : TwiPhase} {events : List TwiEvent} {t : TwiSystem}
    (hrun : events.foldlM TwiSystem.step ⟨s.twiStartRead adr data bytesToReceive,
      phase, []⟩ = some t)
    (hbusy : t.drv.twiBusy = false) (hdone : t.drv.status = twiStatusDone) :
    ∃ lost cs bs b, (cs ++ bs).length + 1 = readLength bytesToReceive.toNat ∧
      t.log = lost ++ readAttempt (adr ||| 1) bs ++ [.received b false] ∧
      t.drv.mem = stored s.mem data (cs ++ bs ++ [b]) ∧ receivedOf lost = cs.map (·, true) ∧
      (.dropped ∉ lost ∧ cs = [] ∨ .dropped ∈ lost ∧ bs = []) := by
  have hadr : (adr ||| 1).getLsbD 0 = true := by simp
  have hreads : (s.twiStartRead adr data bytesToReceive).Reads s.mem (adr ||| 1)
    data bytesToReceive.toNat [] :=
    ⟨by funext x; simp [stored, AvrTwi.twiStartRead], rfl, rfl, rfl, by simp [readLength]⟩
  have hstart : ReadRun s.mem (adr ||| 1) data bytesToReceive.toNat
      ⟨s.twiStartRead adr data bytesToReceive, phase, []⟩ :=
    .pending hreads rfl ⟨rfl, Or.inl ⟨List.not_mem_nil, rfl⟩⟩
  cases foldlM_invariant (fun _ _ _ h hstep ↦ h.step hadr hstep) hstart hrun with
  | pending _ hcr => simp [AvrTwi.twiBusy, hcr, Twcr.start] at hbusy
  | started _ hcr => simp [AvrTwi.twiBusy, hcr, Twcr.go] at hbusy
  | receiving _ hcr => simp [AvrTwi.twiBusy, hcr, Twcr.go] at hbusy
  | @done _ _ lost cs bs b _ _ hmem hcount hlog =>
    refine ⟨lost, cs, bs, b, hcount, rfl, hmem, hlog.received,
      hlog.count.imp_right fun h ↦ ⟨h.1, ?_⟩⟩
    rw [List.length_append] at hcount
    exact List.length_eq_zero_iff.mp (by omega)
  | failed _ hstatus => exact absurd hdone hstatus

/-- A read of no bytes stores one. -/
theorem twiStartRead_run_zero : ∃ lost cs bs b, (cs ++ bs).length + 1 = readLength 0 ∧
    [.start, .address 0xd1 .ack, .received 5 false]
    = lost ++ readAttempt (0xd0 ||| 1) bs ++ [.received b false] ∧
    Function.update (fun _ ↦ 0) 3 5 = stored (fun _ ↦ 0) 3 (cs ++ bs ++ [b]) ∧
    receivedOf lost = cs.map (·, true) ∧
    (.dropped ∉ lost ∧ cs = [] ∨ .dropped ∈ lost ∧ bs = []) :=
  @twiStartRead_run ⟨0, 0, 0, 0, 0, 0, .off, fun _ ↦ 0⟩ 0xd0 3 0 .idle
    [.start, .reply .ack, .byte 5]
    ⟨⟨0xd1, 4, 0, 255, 0xff, 5, .off, Function.update (fun _ ↦ 0) 3 5⟩, .receiving,
      [.start, .address 0xd1 .ack, .received 5 false]⟩ rfl rfl rfl

end Read

end Martink
