import Martink.Net.Enc28j60Bank

/-!
# Receiving a packet

The chip answers `enc28j60_recv` with the number of packets that are pending, and then, for the next
of them, with the pointer to the one after it, the number of its bytes, its status and the bytes.
`recvReply` says where these are in the stream of answers.

The driver takes four off the number of bytes, for the checksum, in sixteen bits. A number below
four is not excluded; it comes out as more than 65531, and is then limited by the size of the buffer
only.
-/

namespace Martink

open Enc28

/-- What the chip answers. -/
structure RecvReply where
  /-- The number of packets that wait. -/
  pktcnt : BitVec 8
  /-- Where the next one begins. -/
  next : BitVec 16
  /-- The length of this one, with its checksum. -/
  count : BitVec 16
  /-- Its status. -/
  status : BitVec 16
  /-- Its bytes. -/
  data : ℕ → BitVec 8

namespace Enc28j60

variable {s u : Enc28j60}

/-! ## Positions in the stream of answers -/

@[simp] theorem shifted_record (op address data : BitVec 8) :
    (s.record op address data).shifted = s.shifted := by
  rw [record]
  split <;> rfl

@[simp] theorem miso_record (op address data : BitVec 8) :
    (s.record op address data).miso = s.miso := by
  rw [record]
  split <;> rfl

@[simp] theorem nextPacketPtr_record (op address data : BitVec 8) :
    (s.record op address data).nextPacketPtr = s.nextPacketPtr := by
  rw [record]
  split <;> rfl

@[simp] theorem shifted_writeReg (op address data : BitVec 8) :
    (s.writeReg op address data).shifted = s.shifted + 2 := by
  simp [writeReg, transfer]

@[simp] theorem miso_writeReg (op address data : BitVec 8) :
    (s.writeReg op address data).miso = s.miso := by
  simp [writeReg, transfer]

@[simp] theorem nextPacketPtr_writeReg (op address data : BitVec 8) :
    (s.writeReg op address data).nextPacketPtr = s.nextPacketPtr := by
  simp [writeReg, transfer]

@[simp] theorem bank_writeReg (op address data : BitVec 8) :
    (s.writeReg op address data).bank = s.bank := bank_record op address data

/-- A register that answers at once. -/
theorem readReg_eq (op address : BitVec 8) (haddress : address &&& 0x80 = 0) :
    s.readReg op address = (((s.record op address 0).transfer
      [op ||| (address &&& addrMask), 0x00]).1, s.miso (s.shifted + 1)) := by
  have hdummy : ¬(address &&& 0x80 ≠ 0) := not_not.mpr haddress
  simp only [readReg, if_neg hdummy, List.append_nil]
  refine Prod.ext rfl ?_
  simp [transfer, List.range'_succ]

/-- How many bytes go out when the driver selects the bank of a register. -/
def switchBytes (s : Enc28j60) (address : BitVec 8) : ℕ :=
  if address &&& bankMask ≠ s.bank then 4 else 0

theorem setBank_fields (address : BitVec 8) :
    (s.setBank address).shifted = s.shifted + s.switchBytes address ∧
      (s.setBank address).miso = s.miso ∧ (s.setBank address).nextPacketPtr = s.nextPacketPtr ∧
      (s.setBank address).bank = address &&& bankMask := by
  rw [setBank, switchBytes]
  split_ifs with h
  · simp
  · exact ⟨rfl, rfl, rfl, (not_not.mp h).symm⟩

theorem writeTo_fields (address data : BitVec 8) :
    (s.writeTo address data).shifted = s.shifted + s.switchBytes address + 2 ∧
      (s.writeTo address data).miso = s.miso ∧
      (s.writeTo address data).nextPacketPtr = s.nextPacketPtr ∧
      (s.writeTo address data).bank = address &&& bankMask := by
  obtain ⟨hshifted, hmiso, hnext, hbank⟩ := setBank_fields (s := s) address
  simp [writeTo, hshifted, hmiso, hnext, hbank]

/-- Two answers to reads of the buffer memory, as a word. -/
def answerWord (miso : ℕ → BitVec 8) (n : ℕ) : BitVec 16 :=
  (miso (n + 1)).setWidth 16 ||| (miso (n + 3)).setWidth 16 <<< 8

/-- Reading the buffer memory changes nothing but the position. -/
theorem readBufWord_eq (s : Enc28j60) :
    s.readBufWord = ({ s with shifted := s.shifted + 4 }, answerWord s.miso s.shifted) := by
  have hread (u : Enc28j60) :
      u.readReg readBufMem 0 = ({ u with shifted := u.shifted + 2 }, u.miso (u.shifted + 1)) := by
    rw [readReg_eq _ _ rfl]
    rfl
  simp only [readBufWord, hread]
  rfl

/-- The reply to a call, by its place in the stream of answers. -/
def recvReply (s : Enc28j60) : RecvReply :=
  let start := s.shifted + s.switchBytes epktcnt
  { pktcnt := s.miso (start + 1)
    next := answerWord s.miso (start + 10)
    count := answerWord s.miso (start + 14)
    status := answerWord s.miso (start + 18)
    data := fun i ↦ s.miso (start + 23 + i) }

theorem readFrom_epktcnt (s : Enc28j60) :
    (s.readFrom epktcnt).2 = s.recvReply.pktcnt ∧
      (s.readFrom epktcnt).1.shifted = s.shifted + s.switchBytes epktcnt + 2 ∧
      (s.readFrom epktcnt).1.miso = s.miso ∧
      (s.readFrom epktcnt).1.bank = epktcnt &&& bankMask := by
  obtain ⟨hshifted, hmiso, -, hbank⟩ := setBank_fields (s := s) epktcnt
  rw [readFrom, readReg_eq _ _ (by decide)]
  refine ⟨?_, ?_, ?_, ?_⟩
  · rw [hmiso, hshifted, recvReply]
  · simp [transfer, hshifted]
  · simp [transfer, hmiso]
  · exact (bank_record _ _ _).trans hbank

/-- The state after the read pointer was set. -/
def setReadPointer (u : Enc28j60) : Enc28j60 :=
  (u.writeTo erdptl (lowByte u.nextPacketPtr.toNat)).writeTo erdpth
    (highByte u.nextPacketPtr.toNat)

theorem setReadPointer_fields (h : u.bank = epktcnt &&& bankMask) :
    u.setReadPointer.shifted = u.shifted + 8 ∧ u.setReadPointer.miso = u.miso ∧
      u.setReadPointer.bank = 0 := by
  obtain ⟨hshifted, hmiso, -, hbank⟩ :=
    writeTo_fields (s := u) erdptl (lowByte u.nextPacketPtr.toNat)
  obtain ⟨hshifted', hmiso', -, hbank'⟩ :=
    writeTo_fields (s := u.writeTo erdptl (lowByte u.nextPacketPtr.toNat)) erdpth
      (highByte u.nextPacketPtr.toNat)
  have hswitch : u.switchBytes erdptl = 4 := by
    rw [switchBytes, h]
    rfl
  have hsame : (u.writeTo erdptl (lowByte u.nextPacketPtr.toNat)).switchBytes erdpth = 0 := by
    rw [switchBytes, hbank]
    rfl
  refine ⟨?_, ?_, hbank'⟩
  · rw [setReadPointer, hshifted', hsame, hshifted, hswitch]
  · rw [setReadPointer, hmiso', hmiso]

/-- The header is read from behind the read pointer. -/
theorem recvHeader_eq (h : u.bank = epktcnt &&& bankMask) :
    u.recvHeader = ({ u.setReadPointer with
        shifted := u.shifted + 20, nextPacketPtr := answerWord u.miso (u.shifted + 8) },
      answerWord u.miso (u.shifted + 12), answerWord u.miso (u.shifted + 16)) := by
  obtain ⟨hshifted, hmiso, -⟩ := setReadPointer_fields h
  obtain ⟨-, -, hnext, -⟩ := writeTo_fields (s := u) erdptl (lowByte u.nextPacketPtr.toNat)
  have hset : (u.writeTo erdptl (lowByte u.nextPacketPtr.toNat)).writeTo erdpth
      (highByte u.nextPacketPtr.toNat) = u.setReadPointer := rfl
  simp only [recvHeader, hnext, hset, readBufWord_eq, hshifted, hmiso]

/-! ## Accesses -/

/-- The registers by which a packet is freed. -/
def releaseRegisters : List (BitVec 8) := [erxrdptl, erxrdpth, econ2]

/-- From one state to the other nothing is done to these registers. -/
def NothingFreed (s u : Enc28j60) : Prop :=
  ∃ l : List EncAccess, u.accesses = s.accesses ++ l ∧ ∀ a ∈ l, a.address ∉ releaseRegisters

theorem NothingFreed.refl (s : Enc28j60) : NothingFreed s s := ⟨[], by simp, by simp⟩

theorem NothingFreed.trans {v : Enc28j60} (h : NothingFreed s u) (h' : NothingFreed u v) :
    NothingFreed s v := by
  obtain ⟨l, hl, hfree⟩ := h
  obtain ⟨l', hl', hfree'⟩ := h'
  refine ⟨l ++ l', by rw [hl', hl, List.append_assoc], fun a ha ↦ ?_⟩
  exact (List.mem_append.mp ha).elim (hfree a) (hfree' a)

theorem nothingFreed_record (op data : BitVec 8) {address : BitVec 8}
    (h : address ∉ releaseRegisters)
    (bytes : List (BitVec 8)) : NothingFreed s ((s.record op address data).transfer bytes).1 := by
  rw [NothingFreed, accesses_transfer, record]
  split_ifs
  · refine ⟨_, rfl, fun a ha ↦ ?_⟩
    rw [List.mem_singleton.mp ha]
    exact h
  · exact NothingFreed.refl s

theorem nothingFreed_setBank (address : BitVec 8) : NothingFreed s (s.setBank address) := by
  rw [setBank]
  split_ifs
  · have hswitch (op data : BitVec 8) (u : Enc28j60) : NothingFreed u (u.writeReg op econ1 data) :=
      nothingFreed_record op data (by decide) _
    exact (hswitch _ _ s).trans (hswitch _ _ _)
  · exact NothingFreed.refl s

theorem nothingFreed_writeTo (data : BitVec 8) {address : BitVec 8}
    (h : address ∉ releaseRegisters) :
    NothingFreed s (s.writeTo address data) :=
  (nothingFreed_setBank address).trans (nothingFreed_record _ _ h _)

/-- Bank 0 is in the cache and in the chip. -/
structure InBank0 (s : Enc28j60) : Prop where
  /-- The cache has it. -/
  bank : s.bank = 0
  /-- The chip has it. -/
  selected : s.selected = 0

theorem InBank0.setBank (h : s.InBank0) (address : BitVec 8) (haddress : address &&& bankMask = 0) :
    s.setBank address = s := by
  rw [Enc28j60.setBank, if_neg]
  rw [haddress, h.bank]
  exact not_not.mpr rfl

theorem InBank0.writeReg (h : s.InBank0) (op address data : BitVec 8)
    (hop : op ∈ controlOps) (haddress : address &&& addrMask ≠ econ1) :
    (s.writeReg op address data).InBank0 ∧ (s.writeReg op address data).accesses
      = s.accesses ++ [⟨op, address, data, 0, 0⟩] := by
  refine ⟨⟨(bank_writeReg _ _ _).trans h.bank, ?_⟩, ?_⟩
  · rw [Enc28j60.selected, chipEcon1_writeReg, execute_of_not_mem _ (command_not_mem hop haddress)]
    exact h.selected
  · rw [Enc28j60.writeReg, accesses_transfer, record, if_pos hop, h.selected, h.bank]

/-- What is done to free a packet. -/
def releaseAccesses (next : BitVec 16) : List EncAccess :=
  [⟨writeCtrlReg, erxrdptl, lowByte next.toNat, 0, 0⟩,
    ⟨writeCtrlReg, erxrdpth, highByte next.toNat, 0, 0⟩, ⟨bitFieldSet, econ2, econ2Pktdec, 0, 0⟩]

theorem accesses_recvRelease (h : s.InBank0) :
    s.recvRelease.accesses = s.accesses ++ releaseAccesses s.nextPacketPtr := by
  have hlow := h.writeReg writeCtrlReg erxrdptl (lowByte s.nextPacketPtr.toNat)
      (by decide) (by decide)
  have hhigh := hlow.1.writeReg writeCtrlReg erxrdpth (highByte s.nextPacketPtr.toNat) (by decide)
    (by decide)
  have hcount := hhigh.1.writeReg bitFieldSet econ2 econ2Pktdec (by decide) (by decide)
  rw [recvRelease]
  simp only [writeTo, h.setBank erxrdptl rfl, nextPacketPtr_writeReg, hlow.1.setBank erxrdpth rfl]
  rw [hcount.2, hhigh.2, hlow.2]
  simp [releaseAccesses]

theorem inBank0_setReadPointer (h : u.bank = epktcnt &&& bankMask) : u.setReadPointer.InBank0 := by
  refine ⟨(setReadPointer_fields h).2.2, ?_⟩
  have hswitch : erdptl &&& bankMask ≠ u.bank := by
    rw [h]
    decide
  have hlow : (u.setBank erdptl).InBank0 :=
    ⟨(setBank_fields erdptl).2.2.2, selected_setBank hswitch⟩
  have hfirst := (hlow.writeReg writeCtrlReg erdptl (lowByte u.nextPacketPtr.toNat) (by decide)
    (by decide)).1
  rw [setReadPointer, writeTo, writeTo, hfirst.setBank erdpth rfl]
  exact (hfirst.writeReg _ _ _ (by decide) (by decide)).1.selected

/-! ## The call -/

theorem toNat_recvLength (len : BitVec 16) {maxlen : BitVec 16} (hmax : 1 ≤ maxlen.toNat) :
    (recvLength len maxlen).toNat = min (len - 4).toNat (maxlen.toNat - 1) := by
  have hone : (maxlen - 1).toNat = maxlen.toNat - 1 := by
    rw [BitVec.toNat_sub_of_le]
    · rfl
    · exact hmax
  simp only [recvLength]
  split_ifs with h
  · rw [hone]
    omega
  · omega

theorem readBuffer_snd (s : Enc28j60) (len : ℕ) :
    (s.readBuffer len).2 = (List.range len).map (fun i ↦ s.miso (s.shifted + 1 + i)) ++ [0x00] := by
  rw [readBuffer, transfer]
  simp only [List.length_cons, List.length_replicate, List.range'_succ, List.map_cons,
    List.drop_succ_cons, List.drop_zero]
  rw [List.range'_eq_map_range, List.map_map]
  rfl

/-- The packet is freed last, and once. -/
def Frees (s s' : Enc28j60) (next : BitVec 16) : Prop :=
  ∃ l : List EncAccess, s'.accesses = s.accesses ++ l ++ releaseAccesses next ∧
    ∀ a ∈ l, a.address ∉ releaseRegisters

theorem NothingFreed.frees (h : NothingFreed s u) (hbank : u.InBank0) :
    Frees s u.recvRelease u.nextPacketPtr := by
  obtain ⟨l, hl, hfree⟩ := h
  exact ⟨l, by rw [accesses_recvRelease hbank, hl], hfree⟩

/-- The state in which the header of a pending packet has been read. -/
theorem header_state (s : Enc28j60) : ∃ u : Enc28j60,
    (s.readFrom epktcnt).1.recvHeader = (u, s.recvReply.count, s.recvReply.status) ∧
      NothingFreed s u ∧ u.InBank0 ∧ u.nextPacketPtr = s.recvReply.next ∧
      ∀ i, u.miso (u.shifted + 1 + i) = s.recvReply.data i := by
  obtain ⟨-, hshifted, hmiso, hbank⟩ := readFrom_epktcnt s
  have hread : NothingFreed s (s.readFrom epktcnt).1 := by
    refine (nothingFreed_setBank epktcnt).trans ?_
    rw [readFrom, readReg_eq _ _ (by decide)]
    exact nothingFreed_record _ _ (by decide) _
  have hset : NothingFreed s (s.readFrom epktcnt).1.setReadPointer :=
    hread.trans ((nothingFreed_writeTo _ (by decide)).trans (nothingFreed_writeTo _ (by decide)))
  obtain ⟨-, hmiso', -⟩ := setReadPointer_fields hbank
  have hzero := inBank0_setReadPointer hbank
  rw [recvHeader_eq hbank, hmiso, hshifted]
  generalize (s.readFrom epktcnt).1.setReadPointer = v at hset hmiso' hzero
  refine ⟨_, rfl, hset, ⟨hzero.bank, hzero.selected⟩, rfl, fun i ↦ ?_⟩
  have hplace : s.shifted + s.switchBytes epktcnt + 2 + 20 + 1 + i
      = s.shifted + s.switchBytes epktcnt + 23 + i := by omega
  exact (congrFun (hmiso'.trans hmiso) _).trans (congrArg s.miso hplace)

/-- **The call**, whatever the chip answers. -/
theorem recv_spec (s : Enc28j60) (maxlen : BitVec 16) :
    (s.recvReply.pktcnt = 0 → (s.recv maxlen).2 = ([], 0)) ∧
    (s.recvReply.pktcnt ≠ 0 → Frees s (s.recv maxlen).1 s.recvReply.next) ∧
    (s.recvReply.pktcnt ≠ 0 → s.recvReply.status &&& 0x80 = 0 → (s.recv maxlen).2 = ([], 0)) ∧
    (s.recvReply.pktcnt ≠ 0 → s.recvReply.status &&& 0x80 ≠ 0 → (s.recv maxlen).2
      = ((List.range (recvLength s.recvReply.count maxlen).toNat).map s.recvReply.data ++ [0x00],
        recvLength s.recvReply.count maxlen)) := by
  obtain ⟨u, hheader, hfree, hbank, hnext, hdata⟩ := header_state s
  have hpktcnt := (readFrom_epktcnt s).1
  simp only [recv, hpktcnt, hheader]
  by_cases hpending : s.recvReply.pktcnt = 0
  · simp only [if_pos hpending]
    exact ⟨fun _ ↦ trivial, fun h ↦ absurd hpending h, fun h ↦ absurd hpending h,
      fun h ↦ absurd hpending h⟩
  simp only [if_neg hpending]
  by_cases hok : s.recvReply.status &&& 0x80 = 0
  · simp only [if_pos hok]
    exact ⟨fun h ↦ absurd h hpending, fun _ ↦ hnext ▸ hfree.frees hbank, fun _ _ ↦ trivial,
      fun _ h ↦ absurd hok h⟩
  · simp only [if_neg hok]
    refine ⟨fun h ↦ absurd h hpending, fun _ ↦ ?_, fun _ h ↦ absurd h hok, fun _ _ ↦ ?_⟩
    · have hselected :
          (u.readBuffer (recvLength s.recvReply.count maxlen).toNat).1.selected = 0 := by
        rw [← hbank.selected, Enc28j60.selected, Enc28j60.selected, readBuffer, transfer]
        rw [execute_of_not_mem _ (by decide)]
      rw [← hnext]
      exact NothingFreed.frees (u := (u.readBuffer _).1) hfree ⟨hbank.bank, hselected⟩
    · simp only [readBuffer_snd, hdata]

/-- What is asked of the call. -/
structure RightRecv (s : Enc28j60) (maxlen : BitVec 16) : Prop where
  /-- Without a packet nothing is stored and 0 is returned. -/
  none_pending : s.recvReply.pktcnt = 0 → (s.recv maxlen).2 = ([], 0)
  /-- The room of a packet is given back. -/
  freed : s.recvReply.pktcnt ≠ 0 → Frees s (s.recv maxlen).1 s.recvReply.next
  /-- So it is for one that was not received well. -/
  not_ok : s.recvReply.pktcnt ≠ 0 → s.recvReply.status &&& 0x80 = 0 → (s.recv maxlen).2 = ([], 0)
  /-- The length is returned without the checksum, and at most as much as there is room for. -/
  length : s.recvReply.pktcnt ≠ 0 → s.recvReply.status &&& 0x80 ≠ 0 → (s.recv maxlen).2.2.toNat
    = if s.recvReply.count.toNat < 4 then 0
      else min (s.recvReply.count.toNat - 4) (maxlen.toNat - 1)
  /-- The bytes are stored, and a zero behind them. -/
  packet : s.recvReply.pktcnt ≠ 0 → s.recvReply.status &&& 0x80 ≠ 0 → (s.recv maxlen).2.1
    = (List.range (s.recv maxlen).2.2.toNat).map s.recvReply.data ++ [0x00]
  /-- Nothing is stored behind the buffer. -/
  bound : (s.recv maxlen).2.1.length ≤ maxlen.toNat

/-- The number of bytes is one that the driver is right about. -/
def CountFits (r : RecvReply) (maxlen : BitVec 16) : Prop :=
  r.pktcnt = 0 ∨ r.status &&& 0x80 = 0 ∨ 4 ≤ r.count.toNat ∨ maxlen.toNat = 1

theorem length_recv_le (s : Enc28j60) {maxlen : BitVec 16} (hmax : 1 ≤ maxlen.toNat) :
    (s.recv maxlen).2.1.length ≤ maxlen.toNat := by
  obtain ⟨hnone, -, hbad, hgood⟩ := recv_spec s maxlen
  by_cases hpending : s.recvReply.pktcnt = 0
  · rw [hnone hpending]
    exact Nat.zero_le _
  by_cases hok : s.recvReply.status &&& 0x80 = 0
  · rw [hbad hpending hok]
    exact Nat.zero_le _
  · rw [hgood hpending hok, List.length_append, List.length_map, List.length_range,
      toNat_recvLength _ hmax, List.length_singleton]
    omega

/-- **Receiving.** The call does what is asked of it unless the chip counts less than four bytes. -/
theorem rightRecv_iff (s : Enc28j60) {maxlen : BitVec 16} (hmax : 1 ≤ maxlen.toNat) :
    RightRecv s maxlen ↔ CountFits s.recvReply maxlen := by
  obtain ⟨hnone, hfreed, hbad, hgood⟩ := recv_spec s maxlen
  have hlength := toNat_recvLength s.recvReply.count hmax
  have hcut : (s.recvReply.count - 4).toNat = (s.recvReply.count.toNat + 65532) % 65536 := by
    rw [BitVec.toNat_sub, add_comm]
    rfl
  have hlt := s.recvReply.count.isLt
  constructor
  · intro h
    by_contra hfits
    rw [CountFits, not_or, not_or, not_or] at hfits
    obtain ⟨hpending, hok, hcount, hsize⟩ := hfits
    have hreturned := h.length hpending hok
    rw [hgood hpending hok, hlength, hcut, if_pos (by omega)] at hreturned
    omega
  · intro hfits
    refine ⟨hnone, hfreed, hbad, fun hpending hok ↦ ?_, fun hpending hok ↦ ?_,
      length_recv_le s hmax⟩
    · rw [hgood hpending hok, hlength, hcut]
      rcases hfits with h | h | h | h
      · exact absurd h hpending
      · exact absurd h hok
      · rw [if_neg (by omega)]
        omega
      · split_ifs <;> omega
    · rw [hgood hpending hok]

/-- A chip that has one packet, with bytes of zero, to a driver that has bank 0 selected. -/
def onePacket (count : BitVec 8) : ℕ → BitVec 8 :=
  fun n ↦ if n = 5 then 1 else if n = 19 then count else if n = 23 then 0x80 else 0

theorem rightRecv_minimal : RightRecv (start 0 0 0 (onePacket 64)) 100 :=
  (rightRecv_iff _ (by decide)).mpr (.inr (.inr (.inl (by decide))))

/-- A packet of no bytes is returned as one of 99. -/
theorem not_rightRecv_empty : ¬RightRecv (start 0 0 0 (onePacket 0)) 100 := by
  intro h
  have hlength := h.length (by decide) (by decide)
  have hreturned : ((start 0 0 0 (onePacket 0)).recv 100).2.2.toNat = 99 := by decide +kernel
  have hcount : (start 0 0 0 (onePacket 0)).recvReply.count.toNat = 0 := by decide
  rw [hreturned, hcount] at hlength
  exact absurd hlength (by decide)

end Enc28j60

end Martink
