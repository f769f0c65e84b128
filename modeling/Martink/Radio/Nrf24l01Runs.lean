import Martink.Radio.Nrf24l01Calls

/-!
# Runs of the radio driver

Between calls the chip is in receive mode, whatever was called. Where it listens is another matter:
`nrf24l01_settxaddr` overwrites the receive address of pipe 0, which nothing restores, and
`nrf24l01_scan` leaves the chip on the last channel until the next transmission.
-/

namespace Martink

open Nrf24

/-! ## Receive mode -/

/-- The bits of `CONFIG` that the driver keeps set between calls. -/
def listenBits : BitVec 8 := bv bitPrimRx ||| bv bitPwrUp ||| bv bitEnCrc ||| bv bitCrco

/-- The mode between calls. -/
def Nrf24Mode.Listens (m : Nrf24Mode) : Prop := m.ce = true ∧ m.config &&& listenBits = listenBits

namespace Nrf24Chip

theorem listenBits_init (config : BitVec 8) :
    rxConfig (crcConfig config) &&& listenBits = listenBits := by
  revert config
  decide

theorem listenBits_rxConfig (config : BitVec 8) :
    config &&& listenBits = listenBits → rxConfig config &&& listenBits = listenBits := by
  revert config
  decide

theorem listenBits_write (config : BitVec 8) : config &&& listenBits = listenBits →
    rxConfig (txConfig config) &&& listenBits = listenBits := by
  revert config
  decide

theorem testBit_of_listenBits (config : BitVec 8) : config &&& listenBits = listenBits →
    ∀ bit ∈ [bitPrimRx, bitPwrUp, bitEnCrc, bitCrco], config.getLsbD bit = true := by
  revert config
  decide

end Nrf24Chip

theorem Nrf24Mode.Listens.call {m : Nrf24Mode} (h : m.Listens) (c : Nrf24Call) :
    (m.call c).Listens := by
  cases c with
  | setRxAddr pipe addr =>
    rw [Nrf24Mode.call]
    split
    · exact h
    · exact h
  | setTxAddr addr => exact h
  | write data => exact ⟨rfl, Nrf24Chip.listenBits_write _ h.2⟩
  | read => exact h
  | readReady => exact h
  | getStatus => exact h
  | scan iterations =>
    rw [Nrf24Mode.call]
    split
    · exact h
    · exact ⟨rfl, Nrf24Chip.listenBits_rxConfig _ h.2⟩

namespace Nrf24Chip

/-- The chip is in receive mode, and no transaction is under way. -/
structure Listening (s : Nrf24Chip) : Prop where
  /-- The bits of a receiver are set. -/
  config : ∀ bit ∈ [bitPrimRx, bitPwrUp, bitEnCrc, bitCrco],
    (s.regs regConfig.toNat 0).getLsbD bit = true
  /-- The chip is started. -/
  ce : s.ce = true
  /-- No transaction is under way. -/
  csn : s.csn = true

theorem Shows.listening {s : Nrf24Chip} {v : Nrf24View} (h : s.Shows v)
    (hv : v.toNrf24Mode.Listens) : s.Listening where
  config := testBit_of_listenBits _ (by
    have hconfig := hv.2
    rw [← h.view] at hconfig
    exact hconfig)
  ce := by
    have hce := hv.1
    rw [← h.view] at hce
    exact hce
  csn := h.csn

theorem writeResult_eq (status : BitVec 8) :
    writeResult status =
      if status.getLsbD bitMaxRt then 2 else if status.getLsbD bitTxDs then 1 else 0 := by
  simp only [writeResult, and_bv_ne_zero_iff]

/-- **Receive mode.** After the initialization and any calls, the chip is in receive mode. A
transmission from there sends 32 bytes, polls the status at most 1500 times, and its result is read
off the last answer. -/
theorem nrf24l01_listening (s : Nrf24Chip) (calls : List Nrf24Call) :
    (s.runCalls calls).Listening ∧
      ∀ data, ∃ polls status, polls.length + 1 ≤ 1500 ∧
        ((s.runCalls calls).write data).1.payload =
          (s.runCalls calls).payload ++ (List.range 32).map data ∧
        ((s.runCalls calls).write data).1.polled =
          (s.runCalls calls).polled ++ (polls ++ [status]) ∧
        ((s.runCalls calls).write data).2 =
          if status.getLsbD bitMaxRt then 2 else if status.getLsbD bitTxDs then 1 else 0 := by
  obtain ⟨v, hv, hmode⟩ := runCalls_shows s calls
  have hlistens : v.toNrf24Mode.Listens := by
    rw [hmode]
    exact List.foldlRecOn calls _ ⟨rfl, listenBits_init _⟩ fun m hm c _ ↦ hm.call c
  refine ⟨hv.listening hlistens, fun data ↦ ?_⟩
  obtain ⟨polls, status, hlen, hresult, hwrite⟩ := hv.write data
  refine ⟨polls, status, hlen, ?_, ?_, hresult.trans (writeResult_eq status)⟩
  · have hsent := congrArg Nrf24View.payload hwrite.view
    rw [← hv.view] at hsent
    exact hsent
  · have hpolled := congrArg Nrf24View.polled hwrite.view
    rw [← hv.view] at hpolled
    exact hpolled

end Nrf24Chip

/-! ## Where the chip listens -/

namespace Nrf24Call

/-- The address that the chip was last told to listen to, with `nrf24l01_setrxaddr(0, ·)`. -/
def listenAddr (a : Option Addr) : Nrf24Call → Option Addr
  | setRxAddr pipe addr => if pipe = 0 then some addr else a
  | _ => a

/-- The address that was last written to pipe 0, to listen or to wait for acknowledgements. -/
def pipe0Addr (a : Option Addr) : Nrf24Call → Option Addr
  | setRxAddr pipe addr => if pipe = 0 then some addr else a
  | setTxAddr addr => some addr
  | _ => a

/-- There was no scan since the initialization or the last transmission. -/
def tuned (t : Bool) : Nrf24Call → Bool
  | write _ => true
  | scan iterations => t && iterations = 0
  | _ => t

end Nrf24Call

namespace Nrf24Chip

/-- The chip listens to `addr` on the configured channel. -/
def ListensTo (s : Nrf24Chip) (addr : Addr) : Prop :=
  (∀ i < 5, s.regs regRxAddrP0.toNat i = addr.toList.reverse.getD i 0) ∧
    s.regs regRfCh.toNat 0 = channel

theorem addrBytes_of_lt (addr : Addr) (old : ℕ → BitVec 8) {i : ℕ} (hi : i < 5) :
    addrBytes addr old i = addr.toList.reverse.getD i 0 := by
  have hlen : i < addr.toList.reverse.length := by simpa using hi
  simp [addrBytes, revAddress, List.getElem?_eq_getElem hlen]

theorem eq_of_reverse_bytes {addr addr' : Addr}
    (h : ∀ i < 5, addr.toList.reverse.getD i 0 = addr'.toList.reverse.getD i 0) : addr = addr' := by
  have hlen : ∀ a : Addr, a.toList.reverse.length = 5 := fun a ↦ by simp
  have hreverse : addr.toList.reverse = addr'.toList.reverse := by
    refine List.ext_getElem (by rw [hlen, hlen]) fun i hi hi' ↦ ?_
    have hbyte := h i (by rwa [hlen] at hi)
    rwa [List.getD_eq_getElem?_getD, List.getD_eq_getElem?_getD, List.getElem?_eq_getElem hi,
      List.getElem?_eq_getElem hi'] at hbyte
  exact Vector.toList_inj.mp (List.reverse_injective hreverse)

/-- The registers hold what the calls wrote. -/
structure Holds (m : Nrf24Mode) (pipe0 : Option Addr) (tuned : Bool) : Prop where
  /-- Pipe 0 has the address that was last written to it. -/
  rxAddrP0 : ∀ addr, pipe0 = some addr → ∀ i < 5, m.rxAddrP0 i = addr.toList.reverse.getD i 0
  /-- The channel is the configured one, or the last of a scan. -/
  rfCh : m.rfCh = if tuned then channel else lastChannel

theorem Holds.call {m : Nrf24Mode} {pipe0 : Option Addr} {tuned : Bool} (h : Holds m pipe0 tuned)
    (c : Nrf24Call) : Holds (m.call c) (c.pipe0Addr pipe0) (c.tuned tuned) := by
  have hwrites : ∀ addr,
      Holds { m with rxAddrP0 := addrBytes addr m.rxAddrP0 } (some addr) tuned := by
    refine fun addr ↦ ⟨fun addr' haddr i hi ↦ ?_, h.rfCh⟩
    cases haddr
    exact addrBytes_of_lt addr _ hi
  cases c with
  | setRxAddr pipe addr =>
    rw [Nrf24Mode.call, Nrf24Call.pipe0Addr]
    split
    · exact hwrites addr
    · exact h
  | setTxAddr addr => exact hwrites addr
  | write data => exact ⟨h.rxAddrP0, rfl⟩
  | read => exact h
  | readReady => exact h
  | getStatus => exact h
  | scan iterations =>
    change Holds (m.call (.scan iterations)) pipe0 (tuned && decide (iterations = 0))
    rw [Nrf24Mode.call]
    by_cases hzero : iterations = 0
    · rwa [if_pos hzero, decide_eq_true hzero, Bool.and_true]
    · rw [if_neg hzero, decide_eq_false hzero, Bool.and_false]
      exact ⟨h.rxAddrP0, rfl⟩

theorem holds_foldl (calls : List Nrf24Call) :
    ∀ {m : Nrf24Mode} {pipe0 : Option Addr} {tuned : Bool},
    Holds m pipe0 tuned → Holds (calls.foldl Nrf24Mode.call m)
      (calls.foldl Nrf24Call.pipe0Addr pipe0) (calls.foldl Nrf24Call.tuned tuned) := by
  induction calls with
  | nil => exact id
  | cons c calls ih => exact fun h ↦ ih (h.call c)

/-- Who was told to listen to an address has written one to pipe 0. -/
theorem pipe0Addr_isSome (calls : List Nrf24Call) : ∀ a a' : Option Addr,
    (a.isSome → a'.isSome) → (calls.foldl Nrf24Call.listenAddr a).isSome →
      (calls.foldl Nrf24Call.pipe0Addr a').isSome := by
  induction calls with
  | nil => exact fun a a' h ↦ h
  | cons c calls ih =>
    intro a a' h
    refine ih _ _ ?_
    cases c with
    | setRxAddr pipe addr =>
      rw [Nrf24Call.listenAddr, Nrf24Call.pipe0Addr]
      split
      · exact id
      · exact h
    | setTxAddr addr => exact fun _ ↦ rfl
    | write data => exact h
    | read => exact h
    | readReady => exact h
    | getStatus => exact h
    | scan iterations => exact h

/-- **Where the chip listens.** After any calls the chip listens where it was last told to if and
only if that is the address last written to pipe 0, and there was no scan since the last
transmission. -/
theorem nrf24l01_listensTo_iff (s : Nrf24Chip) (calls : List Nrf24Call) {addr : Addr}
    (h : calls.foldl Nrf24Call.listenAddr none = some addr) :
    (s.runCalls calls).ListensTo addr ↔
      calls.foldl Nrf24Call.pipe0Addr none = some addr ∧
        calls.foldl Nrf24Call.tuned true = true := by
  obtain ⟨v, hv, hmode⟩ := runCalls_shows s calls
  have hstart : Holds (initMode s.view.toNrf24Mode) none true := ⟨nofun, rfl⟩
  have hholds := holds_foldl calls hstart
  rw [← hmode, ← hv.view] at hholds
  have hsome := pipe0Addr_isSome calls none none id (by rw [h]; rfl)
  obtain ⟨written, hwritten⟩ := Option.isSome_iff_exists.mp hsome
  have hbytes := hholds.rxAddrP0 written hwritten
  have hrfCh := hholds.rfCh
  refine and_congr ?_ ?_
  · rw [hwritten, Option.some.injEq]
    constructor
    · exact fun hlistens ↦ eq_of_reverse_bytes fun i hi ↦ (hbytes i hi).symm.trans (hlistens i hi)
    · rintro rfl
      exact hbytes
  · rw [show (s.runCalls calls).regs regRfCh.toNat 0 = _ from hrfCh]
    cases calls.foldl Nrf24Call.tuned true <;> decide

/-- A chip after power up, with the reset values of the registers that are read. -/
def powerOn : Nrf24Chip where
  regs r _ := if r = 0 then 0x08 else if r = 1 then 0x3F else if r = 6 then 0x0F else 0
  miso _ := 0x0E
  shifted := 0
  ce := false
  csn := true
  command := none
  pos := 0
  payload := []
  polled := []

def addr1 : Addr := #v[0xE8, 0xE8, 0xF0, 0xF0, 0xE2]

def addr2 : Addr := #v[0xC1, 0xC2, 0xC2, 0xC2, 0xC2]

theorem nrf24l01_listensTo_after_write :
    (powerOn.runCalls [.setRxAddr 0 addr1, .scan 1, .write fun _ ↦ 0]).ListensTo addr1 :=
  (nrf24l01_listensTo_iff powerOn _ (by decide)).mpr ⟨by decide, by decide⟩

/-- After the transmit address was set, the chip no longer listens to its own. -/
theorem settxaddr_deafens :
    [Nrf24Call.setRxAddr 0 addr1, .setTxAddr addr2].foldl Nrf24Call.listenAddr none = some addr1 ∧
      (powerOn.runCalls [.setRxAddr 0 addr1, .setTxAddr addr2]).regs regRxAddrP0.toNat 0 = 0xC2 ∧
      ¬(powerOn.runCalls [.setRxAddr 0 addr1, .setTxAddr addr2]).ListensTo addr1 := by
  obtain ⟨v, hv, hmode⟩ := runCalls_shows powerOn [.setRxAddr 0 addr1, .setTxAddr addr2]
  have hbyte : (powerOn.runCalls [.setRxAddr 0 addr1, .setTxAddr addr2]).regs regRxAddrP0.toNat 0 =
      0xC2 := by
    have hview := congrArg (fun w : Nrf24View ↦ w.rxAddrP0 0) hv.view
    refine hview.trans ((congrArg (fun m : Nrf24Mode ↦ m.rxAddrP0 0) hmode).trans ?_)
    decide
  refine ⟨by decide, hbyte, fun h ↦ ?_⟩
  have hfirst := hbyte.symm.trans (h.1 0 (by decide))
  revert hfirst
  decide

end Nrf24Chip

end Martink
