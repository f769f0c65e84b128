import Martink.Net.Enc28j60

/-!
# Every access is made in its bank

`Synced b` says that `b` is the bank in the cache and in the chip, and that every access so far went
to the bank it was meant for. Each operation of the driver takes it to the bank of its last access.
Only the reset at the start of `enc28j60_init` breaks it: it selects bank 0 behind the cache. The
first access after it is to bank 0, so that the cache is right or is corrected.
-/

namespace Martink

open Enc28

/-! ## Accesses -/

namespace EncAccess

/-- The registers `EIE` to `ECON1`. -/
def AllBank (a : EncAccess) : Prop := (a.address &&& addrMask).toNat ≥ eie.toNat

/-- The access goes to a register of every bank or to the bank that its constant names. -/
def InBank (a : EncAccess) : Prop := a.AllBank ∨ a.selected = a.address &&& bankMask

/-- The access is one of the two by which the driver changes the bank. -/
def Switches (a : EncAccess) : Prop := a.address = econ1 ∧ a.data &&& ~~~econ1Bsel = 0

/-- Both banks are as they should be. -/
structure Ok (a : EncAccess) : Prop where
  /-- The register is in the bank of the chip, or in all. -/
  inBank : a.InBank
  /-- The cache has the bank of the chip, except while it is changed. -/
  cached : ¬a.Switches → a.cached = a.selected

end EncAccess

namespace Enc28j60

/-- The bank `b` is in the cache and in the chip, and all accesses so far were right. -/
structure Synced (s : Enc28j60) (b : BitVec 8) : Prop where
  /-- The cache has it. -/
  bank : s.bank = b
  /-- The chip has it. -/
  selected : s.selected = b
  /-- The accesses were right. -/
  accesses : ∀ a ∈ s.accesses, a.Ok

variable {s : Enc28j60} {b : BitVec 8}

/-! ## Single transactions -/

/-- The commands that write `ECON1`, and the reset. -/
def econ1Commands : List (BitVec 8) :=
  [softReset, writeCtrlReg ||| (econ1 &&& addrMask), bitFieldSet ||| (econ1 &&& addrMask),
    bitFieldClr ||| (econ1 &&& addrMask)]

theorem execute_of_not_mem (e : BitVec 8) {command : BitVec 8} (h : command ∉ econ1Commands)
    (data : List (BitVec 8)) : execute e (command :: data) = e := by
  simp only [econ1Commands, List.mem_cons, List.not_mem_nil, or_false, not_or] at h
  obtain ⟨hreset, hwrite, hset, hclr⟩ := h
  match data with
  | [] => rfl
  | [b] => rw [execute, if_neg hreset, if_neg hwrite, if_neg hset, if_neg hclr]
  | _ :: _ :: _ => rfl

/-- A command that addresses another register does not touch `ECON1`. -/
theorem command_not_mem {op address : BitVec 8} (hop : op ∈ controlOps)
    (haddress : address &&& addrMask ≠ econ1) : op ||| (address &&& addrMask) ∉ econ1Commands := by
  revert address
  fin_cases hop <;> decide

theorem accesses_transfer (bytes : List (BitVec 8)) :
    (s.transfer bytes).1.accesses = s.accesses := rfl

theorem bank_record (op address data : BitVec 8) : (s.record op address data).bank = s.bank := by
  rw [record]
  split <;> rfl

theorem chipEcon1_record (op address data : BitVec 8) :
    (s.record op address data).chipEcon1 = s.chipEcon1 := by
  rw [record]
  split <;> rfl

theorem chipEcon1_transfer (op address data : BitVec 8) (bytes : List (BitVec 8)) :
    ((s.record op address data).transfer bytes).1.chipEcon1 = execute s.chipEcon1 bytes := by
  rw [← chipEcon1_record op address data (s := s)]
  rfl

theorem ok_record {op address data : BitVec 8} (hs : ∀ a ∈ s.accesses, a.Ok)
    (h : op ∈ controlOps → EncAccess.Ok ⟨op, address, data, s.selected, s.bank⟩) :
    ∀ a ∈ (s.record op address data).accesses, a.Ok := by
  rw [record]
  split
  · intro a ha
    rcases List.mem_append.mp ha with hold | hnew
    · exact hs a hold
    · rw [List.mem_singleton.mp hnew]
      exact h ‹_›
  · exact hs

/-- The operation leaves the bank select bits alone. -/
def KeepsBank (bytes : List (BitVec 8)) : Prop :=
  ∀ e, execute e bytes &&& econ1Bsel = e &&& econ1Bsel

theorem keepsBank_of_not_mem {command : BitVec 8} (h : command ∉ econ1Commands)
    (data : List (BitVec 8)) : KeepsBank (command :: data) :=
  fun e ↦ by rw [execute_of_not_mem e h]

/-- A transaction that goes to the right bank, and leaves it selected. -/
theorem Synced.transfer (h : s.Synced b) {op address data : BitVec 8} {bytes : List (BitVec 8)}
    (hbank : op ∈ controlOps → eie.toNat ≤ (address &&& addrMask).toNat ∨ b = address &&& bankMask)
    (hkeeps : KeepsBank bytes) : ((s.record op address data).transfer bytes).1.Synced b where
  bank := (bank_record op address data).trans h.bank
  selected := by
    rw [Enc28j60.selected, chipEcon1_transfer, hkeeps]
    exact h.selected
  accesses := by
    rw [accesses_transfer]
    refine ok_record h.accesses fun hop ↦ ⟨?_, fun _ ↦ h.bank.trans h.selected.symm⟩
    exact (hbank hop).imp id fun haddress ↦ h.selected.trans haddress

theorem Synced.writeReg (h : s.Synced b) (op address data : BitVec 8)
    (hbank : op ∈ controlOps → eie.toNat ≤ (address &&& addrMask).toNat ∨ b = address &&& bankMask)
    (hkeeps : KeepsBank [op ||| (address &&& addrMask), data]) :
    (s.writeReg op address data).Synced b := h.transfer hbank hkeeps

theorem Synced.readReg (h : s.Synced b) (op address : BitVec 8)
    (hbank : op ∈ controlOps → eie.toNat ≤ (address &&& addrMask).toNat ∨ b = address &&& bankMask)
    (hcommand : op ||| (address &&& addrMask) ∉ econ1Commands) :
    (s.readReg op address).1.Synced b := by
  rw [Enc28j60.readReg]
  exact h.transfer hbank (keepsBank_of_not_mem hcommand _)

theorem chipEcon1_writeReg (op address data : BitVec 8) :
    (s.writeReg op address data).chipEcon1 =
      execute s.chipEcon1 [op ||| (address &&& addrMask), data] :=
  chipEcon1_transfer op address data _

theorem ok_switch {op data selected cached : BitVec 8} (hdata : data &&& ~~~econ1Bsel = 0) :
    EncAccess.Ok ⟨op, econ1, data, selected, cached⟩ where
  inBank := .inl (show eie.toNat ≤ (econ1 &&& addrMask).toNat by decide)
  cached := fun h ↦ absurd ⟨rfl, hdata⟩ h

/-- Clearing the select bits and setting those of a bank selects the bank. -/
theorem select_bits (e address : BitVec 8) :
    ((e &&& ~~~econ1Bsel ||| (address &&& bankMask) >>> 5) &&& econ1Bsel) <<< 5 =
      address &&& bankMask := by
  have hclear : (e &&& ~~~econ1Bsel ||| (address &&& bankMask) >>> 5) &&& econ1Bsel =
      (address &&& bankMask) >>> 5 &&& econ1Bsel := by
    refine BitVec.eq_of_getLsbD_eq fun i hi ↦ ?_
    interval_cases i <;> simp [econ1Bsel]
  have hplace : ∀ a : BitVec 8, ((a &&& bankMask) >>> 5 &&& econ1Bsel) <<< 5 = a &&& bankMask := by
    decide
  rw [hclear, hplace]

/-- The driver selects the bank whatever the chip had selected before. -/
theorem selected_setBank {address : BitVec 8} (h : address &&& bankMask ≠ s.bank) :
    (s.setBank address).selected = address &&& bankMask := by
  rw [setBank, if_pos h]
  refine Eq.trans ?_ (select_bits s.chipEcon1 address)
  rw [Enc28j60.selected, chipEcon1_writeReg, chipEcon1_writeReg]
  rfl

/-- Switching: the bank in the chip is the one of `address` already, or the cache is right. -/
theorem setBank_synced {address : BitVec 8} (haccesses : ∀ a ∈ s.accesses, a.Ok)
    (h : s.selected = address &&& bankMask ∨ s.bank = s.selected) :
    (s.setBank address).Synced (address &&& bankMask) := by
  rw [setBank]
  by_cases hbank : address &&& bankMask = s.bank
  · rw [if_neg (not_not.mpr hbank)]
    exact ⟨hbank.symm, h.elim id fun hcached ↦ hcached.symm.trans hbank.symm, haccesses⟩
  · rw [if_pos hbank]
    have hdata : ∀ a : BitVec 8, (a &&& bankMask) >>> 5 &&& ~~~econ1Bsel = 0 := by decide
    refine ⟨rfl, ?_, ?_⟩
    · have hselected := selected_setBank hbank
      rwa [setBank, if_pos hbank] at hselected
    · exact ok_record (ok_record haccesses fun _ ↦ ok_switch (by decide))
        fun _ ↦ ok_switch (hdata address)

/-! ## The operations of the driver -/

theorem Synced.setBank (h : s.Synced b) (address : BitVec 8) :
    (s.setBank address).Synced (address &&& bankMask) :=
  setBank_synced h.accesses (.inr (h.bank.trans h.selected.symm))

theorem Synced.ctrlWrite {address : BitVec 8} (h : s.Synced (address &&& bankMask))
    (data : BitVec 8) (haddress : address &&& addrMask ≠ econ1) :
    (s.writeReg writeCtrlReg address data).Synced (address &&& bankMask) :=
  h.writeReg _ _ _ (fun _ ↦ .inr rfl)
    (keepsBank_of_not_mem (command_not_mem (by decide) haddress) _)

theorem Synced.writeTo (h : s.Synced b) (address data : BitVec 8)
    (haddress : address &&& addrMask ≠ econ1) :
    (s.writeTo address data).Synced (address &&& bankMask) :=
  (h.setBank address).ctrlWrite data haddress

theorem Synced.readFrom (h : s.Synced b) (address : BitVec 8)
    (haddress : address &&& addrMask ≠ econ1) :
    (s.readFrom address).1.Synced (address &&& bankMask) :=
  (h.setBank address).readReg _ _ (fun _ ↦ .inr rfl) (command_not_mem (by decide) haddress)

theorem Synced.setMacAddr (h : s.Synced b) (macaddr : MacAddr) :
    (s.setMacAddr macaddr).Synced (maadr0 &&& bankMask) := by
  have h5 := h.writeTo maadr5 (macaddr.toList.getD 0 0) (by decide)
  have h4 := h5.writeTo maadr4 (macaddr.toList.getD 1 0) (by decide)
  have h3 := h4.writeTo maadr3 (macaddr.toList.getD 2 0) (by decide)
  have h2 := h3.writeTo maadr2 (macaddr.toList.getD 3 0) (by decide)
  have h1 := h2.writeTo maadr1 (macaddr.toList.getD 4 0) (by decide)
  exact h1.writeTo maadr0 (macaddr.toList.getD 5 0) (by decide)

theorem Synced.phyWait (fuel : ℕ) : ∀ {s : Enc28j60} {b : BitVec 8}, s.Synced b →
    (phyWait fuel s).Sat (fun s ↦ ∃ b, s.Synced b) fun _ s ↦ ∃ b, s.Synced b := by
  induction fuel with
  | zero => exact fun h ↦ Outcome.sat_stuck ⟨_, h⟩
  | succ fuel ih =>
    intro s b h
    rw [Enc28j60.phyWait]
    have hread := h.readFrom mistat (by decide)
    split
    · exact ih hread
    · exact Outcome.sat_done ⟨_, hread⟩

theorem Synced.phyWrite (h : s.Synced b) (fuel : ℕ) (address : BitVec 8) (data : BitVec 16) :
    (phyWrite fuel s address data).Sat (fun s ↦ ∃ b, s.Synced b) fun _ s ↦ ∃ b, s.Synced b := by
  have haddress := h.writeTo miregadr address (by decide)
  have hlow := haddress.writeTo miwrl (lowByte data.toNat) (by decide)
  have hhigh := hlow.writeTo miwrh (highByte data.toNat) (by decide)
  exact hhigh.phyWait fuel

/-- The first access after the reset. -/
theorem reset_synced (haccesses : ∀ a ∈ s.accesses, a.Ok) (next : BitVec 16) (data : BitVec 8) :
    ({ s.writeReg softReset 0 softReset with nextPacketPtr := next }.writeTo erxstl data).Synced
      (erxstl &&& bankMask) := by
  refine (setBank_synced ?_ (.inl ?_)).ctrlWrite data (by decide)
  · exact ok_record haccesses fun hop ↦ absurd hop (by decide)
  · change ((s.writeReg softReset 0 softReset).chipEcon1 &&& econ1Bsel) <<< 5 = _
    rw [chipEcon1_writeReg, show softReset ||| (0 &&& addrMask) = softReset by decide, execute,
      if_pos rfl]
    decide

theorem initRegs_synced (haccesses : ∀ a ∈ s.accesses, a.Ok) : ∃ b, s.initRegs.Synced b := by
  have hreset := reset_synced haccesses (BitVec.ofNat 16 rxStartInit) (lowByte rxStartInit)
  have hrxst := hreset.writeTo erxsth (highByte rxStartInit) (by decide)
  have hrxrdl := hrxst.writeTo erxrdptl (lowByte rxStartInit) (by decide)
  have hrxrdh := hrxrdl.writeTo erxrdpth (highByte rxStartInit) (by decide)
  have hrxndl := hrxrdh.writeTo erxndl (lowByte rxStopInit) (by decide)
  have hrxndh := hrxndl.writeTo erxndh (highByte rxStopInit) (by decide)
  have htxstl := hrxndh.writeTo etxstl (lowByte txStartInit) (by decide)
  have htxsth := htxstl.writeTo etxsth (highByte txStartInit) (by decide)
  have htxndl := htxsth.writeTo etxndl (lowByte txStopInit) (by decide)
  have htxndh := htxndl.writeTo etxndh (highByte txStopInit) (by decide)
  have hfilter := htxndh.writeTo erxfcon erxfconInit (by decide)
  have hpmm0 := hfilter.writeTo epmm0 0x3F (by decide)
  have hpmm1 := hpmm0.writeTo epmm1 0x30 (by decide)
  have hpmcsl := hpmm1.writeTo epmcsl 0xF9 (by decide)
  have hpmcsh := hpmcsl.writeTo epmcsh 0xF7 (by decide)
  have hmac1 := hpmcsh.writeTo macon1 macon1Init (by decide)
  have hmac2 := hmac1.writeTo macon2 0x00 (by decide)
  have hmac3 := hmac2.writeReg bitFieldSet macon3 macon3Init
    (fun _ ↦ .inr (by decide)) (by rw [KeepsBank]; decide)
  have hgapl := hmac3.writeTo maipgl 0x12 (by decide)
  have hgaph := hgapl.writeTo maipgh 0x0C (by decide)
  have hback := hgaph.writeTo mabbipg 0x12 (by decide)
  have hmaxl := hback.writeTo mamxfll (lowByte maxFrameLen) (by decide)
  have hmaxh := hmaxl.writeTo mamxflh (highByte maxFrameLen) (by decide)
  exact ⟨_, hmaxh.setMacAddr defaultMac⟩

theorem Synced.initEnable (h : s.Synced b) : ∃ b, s.initEnable.Synced b := by
  have hbank := h.setBank econ1
  have heie := hbank.writeReg bitFieldSet eie eieInit
    (fun _ ↦ .inl (by decide)) (by rw [KeepsBank]; decide)
  have hrxen := heie.writeReg bitFieldSet econ1 econ1Rxen
    (fun _ ↦ .inl (by decide)) (by rw [KeepsBank]; decide)
  exact ⟨_, hrxen⟩

theorem init_synced (haccesses : ∀ a ∈ s.accesses, a.Ok) (fuel : ℕ) :
    (s.init fuel).Sat (fun s ↦ ∃ b, s.Synced b) fun _ s ↦ ∃ b, s.Synced b := by
  obtain ⟨b, hregs⟩ := initRegs_synced haccesses
  refine (hregs.phyWrite fuel phcon2 phcon2Hdldis).andThen fun s h ↦ ?_
  obtain ⟨b, hphy⟩ := h
  exact Outcome.sat_done hphy.initEnable

/-- An operation on the buffer memory. -/
theorem Synced.bufWrite (h : s.Synced b) (data : BitVec 8) :
    (s.writeReg writeBufMem 0 data).Synced b :=
  h.writeReg _ _ _ (fun hop ↦ absurd hop (by decide)) (keepsBank_of_not_mem (by decide) _)

theorem Synced.bufTransfer (h : s.Synced b) (command : BitVec 8) (data : List (BitVec 8))
    (hcommand : command ∉ econ1Commands) : (s.transfer (command :: data)).1.Synced b where
  bank := h.bank
  selected := by
    rw [← h.selected, Enc28j60.selected, Enc28j60.selected, Enc28j60.transfer]
    rw [execute_of_not_mem _ hcommand]
  accesses := h.accesses

theorem Synced.readBufWord (h : s.Synced b) : s.readBufWord.1.Synced b :=
  (h.readReg readBufMem _ (fun hop ↦ absurd hop (by decide)) (by decide)).readReg _ _
    (fun hop ↦ absurd hop (by decide)) (by decide)

theorem Synced.setNext (h : s.Synced b) (next : BitVec 16) :
    { s with nextPacketPtr := next }.Synced b := ⟨h.bank, h.selected, h.accesses⟩

/-- The reset of the transmit logic at the start of `enc28j60_send`. -/
theorem Synced.resetTx {r : Enc28j60 × BitVec 8} (h : r.1.Synced b) :
    (if r.2 &&& eirTxerif ≠ 0 then
      ((r.1.writeReg bitFieldSet econ1 econ1Txrst).writeReg bitFieldClr econ1 econ1Txrst).writeReg
        bitFieldClr eir eirTxerif
    else r.1).Synced b := by
  split
  · have hset := h.writeReg bitFieldSet econ1 econ1Txrst
      (fun _ ↦ .inl (by decide)) (by rw [KeepsBank]; decide)
    have hclr := hset.writeReg bitFieldClr econ1 econ1Txrst
      (fun _ ↦ .inl (by decide)) (by rw [KeepsBank]; decide)
    exact hclr.writeReg _ _ _ (fun _ ↦ .inl (by decide)) (by rw [KeepsBank]; decide)
  · exact h

theorem Synced.send (h : s.Synced b) (packet : List (BitVec 8)) : ∃ b,
    (s.send packet).Synced b := by
  have hreset := (h.readFrom eir (by decide)).resetTx
  have hwrptl := hreset.writeTo ewrptl (lowByte txStartInit) (by decide)
  have hwrpth := hwrptl.writeTo ewrpth (highByte txStartInit) (by decide)
  have hndl := hwrpth.writeTo etxndl (lowByte (txStartInit + packet.length)) (by decide)
  have hndh := hndl.writeTo etxndh (highByte (txStartInit + packet.length)) (by decide)
  have hpacket := (hndh.bufWrite 0x00).bufTransfer writeBufMem packet (by decide)
  have hrts := hpacket.writeReg bitFieldSet econ1 econ1Txrts
    (fun _ ↦ .inl (by decide)) (by rw [KeepsBank]; decide)
  exact ⟨_, hrts⟩

theorem Synced.recvHeader (h : s.Synced b) : s.recvHeader.1.Synced (erdpth &&& bankMask) := by
  have hlow := h.writeTo erdptl (lowByte s.nextPacketPtr.toNat) (by decide)
  have hhigh := hlow.writeTo erdpth
    (highByte (s.writeTo erdptl (lowByte s.nextPacketPtr.toNat)).nextPacketPtr.toNat) (by decide)
  exact (hhigh.readBufWord.setNext _).readBufWord.readBufWord

theorem Synced.recvRelease (h : s.Synced b) : ∃ b, s.recvRelease.Synced b := by
  have hlow := h.writeTo erxrdptl (lowByte s.nextPacketPtr.toNat) (by decide)
  have hhigh := hlow.writeTo erxrdpth
    (highByte (s.writeTo erxrdptl (lowByte s.nextPacketPtr.toNat)).nextPacketPtr.toNat) (by decide)
  have hdec := hhigh.writeReg bitFieldSet econ2 econ2Pktdec
    (fun _ ↦ .inl (by decide)) (by rw [KeepsBank]; decide)
  exact ⟨_, hdec⟩

theorem Synced.recv (h : s.Synced b) (maxlen : BitVec 16) : ∃ b, (s.recv maxlen).1.Synced b := by
  have hcount := h.readFrom epktcnt (by decide)
  rw [Enc28j60.recv]
  dsimp only
  split
  · exact ⟨_, hcount⟩
  · split
    · exact hcount.recvHeader.recvRelease
    · exact (hcount.recvHeader.bufTransfer _ _ (by decide)).recvRelease

/-! ## Runs -/

theorem call_synced (fuel : ℕ) (c : EncCall) (h : s.Synced b) :
    (s.call fuel c).Sat (fun s ↦ ∃ b, s.Synced b) fun _ s ↦ ∃ b, s.Synced b := by
  cases c with
  | init => exact init_synced h.accesses fuel
  | setMacAddr macaddr => exact Outcome.sat_done ⟨_, h.setMacAddr macaddr⟩
  | readVersion => exact Outcome.sat_done ⟨_, h.readFrom _ (by decide)⟩
  | send packet => exact Outcome.sat_done (h.send packet)
  | recv maxlen => exact Outcome.sat_done (h.recv maxlen)

theorem runCalls_synced (fuel : ℕ) (calls : List EncCall) : ∀ {s : Enc28j60},
    (∃ b, s.Synced b) →
      (runCalls fuel calls s).Sat (fun s ↦ ∃ b, s.Synced b) fun _ s ↦ ∃ b, s.Synced b := by
  induction calls with
  | nil => exact fun h ↦ Outcome.sat_done h
  | cons c calls ih =>
    rintro s ⟨b, h⟩
    exact (call_synced fuel c h).andThen fun s' h' ↦ ih h'

/-- The driver and the chip before the first call, with no access recorded. -/
def start (nextPacketPtr : BitVec 16) (bank chipEcon1 : BitVec 8) (miso : ℕ → BitVec 8) :
    Enc28j60 where
  nextPacketPtr := nextPacketPtr
  bank := bank
  chipEcon1 := chipEcon1
  miso := miso
  shifted := 0
  accesses := []

/-- **Banks.** Whatever the driver structure holds and the chip answers, after an initialization and
any calls, finished or waiting for the PHY, the cached bank is the one selected in the chip. Every
access on the way went to a register of every bank or was made in its own, and except for the
accesses that switch the bank, it found the cache right. -/
theorem enc28j60_banks (nextPacketPtr : BitVec 16) (bank chipEcon1 : BitVec 8)
    (miso : ℕ → BitVec 8) (fuel : ℕ) (calls : List EncCall) :
    let s := (((start nextPacketPtr bank chipEcon1 miso).init fuel).andThen
      (runCalls fuel calls)).state
    s.bank = s.selected ∧
      ∀ a ∈ s.accesses, (a.AllBank ∨ a.selected = a.address &&& bankMask) ∧
        (¬a.Switches → a.cached = a.selected) := by
  have hinit := init_synced (s := start nextPacketPtr bank chipEcon1 miso) (by simp [start]) fuel
  obtain ⟨b, hsynced⟩ := (hinit.andThen fun s h ↦ runCalls_synced fuel calls h).state_of
  exact ⟨hsynced.bank.trans hsynced.selected.symm,
    fun a ha ↦ ⟨(hsynced.accesses a ha).inBank, (hsynced.accesses a ha).cached⟩⟩

end Enc28j60

end Martink
