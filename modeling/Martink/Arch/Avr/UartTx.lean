import Martink.Arch.UartRx
import Martink.Base.Outcome

/-!
# Sending on the AVR

`avr/mega/uart.c` with `CONFIG_BUFFERED_UART`, and the serial interface of `arch/uart.c` above it.
`uart0_putc` tries to put its byte into the transmit buffer, with the data-register interrupt
switched off around each attempt, and gives up after 2001 attempts. The interrupt may come in
whenever it is on, or not at all while the transmitter stalls.

`uart_putc` throws the status of `uart0_putc` away and answers `0`, so a byte that was given up is
reported as sent.
-/

namespace Martink

/-- Which function called `uart_putc`, and what `_uart_putn` has left to send. -/
inductive TxCaller where
  | direct
  | put
  | putn (rest : List (BitVec 8)) (size : ℕ)

/-- Where the main program is. -/
inductive Uart0TxMain where
  | idle
  | dreOff (caller : TxCaller) (data : BitVec 8) (timeout : ℕ)
  | put (caller : TxCaller) (data : BitVec 8) (timeout : ℕ)
  | dreOn (caller : TxCaller) (data : BitVec 8) (timeout : ℕ) (ret : ℤ)
  | test (caller : TxCaller) (data : BitVec 8) (timeout : ℕ) (ret : ℤ)

structure Uart0Tx where
  /-- `uart0_tx_buf`. -/
  txBuf : Cbuf
  /-- The bit `UDRIE0` of `UCSR0B`. -/
  udrie0 : Bool
  /-- The bytes written to `UDR0`, in order. -/
  udr0 : List (BitVec 8)
  /-- Where the program is in `uart0_putc`. -/
  main : Uart0TxMain
  /-- The calls of `uart_putc` that returned, with what they returned. -/
  calls : List (BitVec 8 × ℤ)
  /-- What `_uart_putc` and `_uart_putn` returned. -/
  serialReturns : List ℕ
  /-- The bytes whose last attempt failed. -/
  lost : List (BitVec 8)

def uart0TxStart : Uart0Tx where
  txBuf := declareCbuf 32
  udrie0 := false
  udr0 := []
  main := .idle
  calls := []
  serialReturns := []
  lost := []

/-- What `uart_putc(dev_id, ch)` returns, given what `uart0_putc` does. -/
def uartPutcResult (devId : BitVec 8) (_status : BitVec 16) : ℤ := if devId = 0 then 0 else -1

/-- The body of the loop in `uart0_putc` after the interrupt is on again: `none` to try again. -/
def uart0PutcTest (timeout : ℕ) (ret : ℤ) : Option (BitVec 16) :=
  if ret = -1 then if timeout ≠ 0 then none else some serialBufferFull else some 0

namespace Uart0Tx

/-- `uart0_putc` starts for a byte. -/
def startPutc (s : Uart0Tx) (caller : TxCaller) (data : BitVec 8) : Uart0Tx :=
  { s with main := .dreOff caller data 2000 }

/-- `uart_putc(0, data)` returns to its caller, which returns or goes on to the next byte. -/
def putcReturned (s : Uart0Tx) (caller : TxCaller) (data : BitVec 8) (status : BitVec 16) :
    Uart0Tx :=
  let s := { s with calls := s.calls ++ [(data, uartPutcResult 0 status)] }
  match caller with
  | .direct => { s with main := .idle }
  | .put => { s with main := .idle, serialReturns := s.serialReturns ++ [serialNoData.toNat] }
  | .putn [] size => { s with main := .idle, serialReturns := s.serialReturns ++ [size] }
  | .putn (b :: rest) size => startPutc s (.putn rest size) b

/-- `ISR(USART_UDRE_vect)`. -/
def usartUdreVect (s : Uart0Tx) : Uart0Tx :=
  if s.txBuf.getDataCount ≠ 0 then
    { s with txBuf := s.txBuf.get.1, udr0 := s.udr0 ++ [BitVec.ofInt 8 s.txBuf.get.2] }
  else { s with udrie0 := false }

inductive Event where
  | putc (devId : BitVec 8) (ch : BitVec 8)
  | put (ch : BitVec 8)
  | putn (data : List (BitVec 8))
  /-- The data register is empty and its interrupt is on. -/
  | udre
  /-- The main program goes on. -/
  | main

/-- One event, if it can happen. -/
def next (s : Uart0Tx) : Event → Option Uart0Tx
  | .putc devId ch =>
    match s.main with
    | .idle =>
      if devId = 0 then some (startPutc s .direct ch)
      else some { s with calls := s.calls ++ [(ch, uartPutcResult devId 0)] }
    | _ => none
  | .put ch =>
    match s.main with
    | .idle => some (startPutc s .put ch)
    | _ => none
  | .putn data =>
    match s.main, data with
    | .idle, [] => some { s with serialReturns := s.serialReturns ++ [0] }
    | .idle, b :: rest => some (startPutc s (.putn rest (rest.length + 1)) b)
    | _, _ => none
  | .udre => if s.udrie0 then some (usartUdreVect s) else none
  | .main =>
    match s.main with
    | .idle => none
    | .dreOff caller data timeout =>
      some { s with udrie0 := false, main := .put caller data timeout }
    | .put caller data timeout =>
      some { s with
        txBuf := (s.txBuf.put data).1
        main := .dreOn caller data timeout (s.txBuf.put data).2
        lost := if (s.txBuf.put data).2 = -1 ∧ timeout = 0 then s.lost ++ [data] else s.lost }
    | .dreOn caller data timeout ret =>
      some { s with udrie0 := true, main := .test caller data timeout ret }
    | .test caller data timeout ret =>
      match uart0PutcTest timeout ret with
      | none => some { s with main := .dreOff caller data (timeout - 1) }
      | some status => some (putcReturned s caller data status)

def run (s : Uart0Tx) (events : List Event) : Option Uart0Tx := events.foldlM next s

/-- The bytes whose `uart_putc` reported success. -/
def reported (s : Uart0Tx) : List (BitVec 8) := (s.calls.filter (·.2 = 0)).map (·.1)

/-- The bytes written to the transmitter and those that still wait in the buffer. -/
def sent (s : Uart0Tx) : List (BitVec 8) := s.udr0 ++ s.txBuf.contents 5

/-- The last attempt of a call is about to find the buffer full. -/
def GivesUp (s : Uart0Tx) : Prop :=
  ∃ caller data, s.main = .put caller data 0 ∧ (s.txBuf.contents 5).length = 31

end Uart0Tx

/-! ## The invariant -/

namespace Uart0TxMain

/-- The byte that was put and whose call has not returned. -/
def inFlight : Uart0TxMain → List (BitVec 8)
  | .dreOn _ data _ ret | .test _ data _ ret => if ret = -1 then [] else [data]
  | _ => []

/-- The byte that was given up and whose call has not returned. -/
def doomed : Uart0TxMain → List (BitVec 8)
  | .dreOn _ data timeout ret | .test _ data timeout ret =>
    if ret = -1 ∧ timeout = 0 then [data] else []
  | _ => []

/-- The interrupt is off. -/
def masked : Uart0TxMain → Bool
  | .put .. | .dreOn .. => true
  | _ => false

end Uart0TxMain

namespace Uart0Tx

/-- The steps by what they do to the buffer and the calls. -/
inductive Step (s : Uart0Tx) : Event → Uart0Tx → Prop
  | udre : s.udrie0 = true → Step s .udre (usartUdreVect s)
  | rejected {devId : BitVec 8} (ch : BitVec 8) : devId ≠ 0 → s.main = .idle →
      Step s (.putc devId ch) { s with calls := s.calls ++ [(ch, uartPutcResult devId 0)] }
  | moved {e : Event} (main : Uart0TxMain) (udrie0 : Bool) (serialReturns : List ℕ) :
      (∀ caller data timeout, s.main ≠ .put caller data timeout) →
      main.inFlight = s.main.inFlight → main.doomed = s.main.doomed →
      (main.masked = true → udrie0 = false) →
        Step s e { s with main := main, udrie0 := udrie0, serialReturns := serialReturns }
  | attempted {caller : TxCaller} {data : BitVec 8} {timeout : ℕ} :
      s.main = .put caller data timeout →
        Step s .main { s with
          txBuf := (s.txBuf.put data).1
          main := .dreOn caller data timeout (s.txBuf.put data).2
          lost := if (s.txBuf.put data).2 = -1 ∧ timeout = 0 then s.lost ++ [data] else s.lost }
  | returned {caller : TxCaller} {data : BitVec 8} {timeout : ℕ} {ret : ℤ} {status : BitVec 16} :
      s.main = .test caller data timeout ret → uart0PutcTest timeout ret = some status →
        Step s .main (putcReturned s caller data status)

theorem uart0PutcTest_eq_none {timeout : ℕ} {ret : ℤ} (h : uart0PutcTest timeout ret = none) :
    ret = -1 ∧ timeout ≠ 0 := by
  rw [uart0PutcTest] at h
  split at h
  · rename_i hret
    split at h
    · rename_i htimeout
      exact ⟨hret, htimeout⟩
    · cases h
  · cases h

theorem step_of_next {s s' : Uart0Tx} {e : Event} (hnext : s.next e = some s') : Step s e s' := by
  cases e with
  | putc devId ch =>
    cases hmain : s.main with
    | idle =>
      simp only [Uart0Tx.next, hmain] at hnext
      split at hnext
      · cases hnext
        exact .moved _ s.udrie0 s.serialReturns (by simp [hmain]) (by rw [hmain]; rfl)
          (by rw [hmain]; rfl) fun hmasked ↦ nomatch hmasked
      · rename_i hdev
        cases hnext
        exact hmain ▸ .rejected ch hdev hmain
    | _ => simp [Uart0Tx.next, hmain] at hnext
  | put ch =>
    cases hmain : s.main with
    | idle =>
      simp only [Uart0Tx.next, hmain] at hnext
      cases hnext
      exact .moved _ s.udrie0 s.serialReturns (by simp [hmain]) (by rw [hmain]; rfl)
        (by rw [hmain]; rfl) fun hmasked ↦ nomatch hmasked
    | _ => simp [Uart0Tx.next, hmain] at hnext
  | putn data =>
    cases hmain : s.main with
    | idle =>
      cases data with
      | nil =>
        simp only [Uart0Tx.next, hmain] at hnext
        cases hnext
        exact .moved .idle s.udrie0 _ (by simp [hmain]) (by rw [hmain]) (by rw [hmain])
          fun hmasked ↦ nomatch hmasked
      | cons b rest =>
        simp only [Uart0Tx.next, hmain] at hnext
        cases hnext
        exact .moved _ s.udrie0 s.serialReturns (by simp [hmain]) (by rw [hmain]; rfl)
          (by rw [hmain]; rfl) fun hmasked ↦ nomatch hmasked
    | _ => simp [Uart0Tx.next, hmain] at hnext
  | udre =>
    rw [Uart0Tx.next] at hnext
    split at hnext <;> cases hnext
    rename_i hon
    exact .udre hon
  | main =>
    cases hmain : s.main with
    | idle => simp [Uart0Tx.next, hmain] at hnext
    | dreOff caller data timeout =>
      simp only [Uart0Tx.next, hmain] at hnext
      cases hnext
      exact .moved _ false s.serialReturns (by simp [hmain]) (by rw [hmain]; rfl)
        (by rw [hmain]; rfl) fun _ ↦ rfl
    | put caller data timeout =>
      simp only [Uart0Tx.next, hmain] at hnext
      cases hnext
      exact .attempted hmain
    | dreOn caller data timeout ret =>
      simp only [Uart0Tx.next, hmain] at hnext
      cases hnext
      exact .moved _ true s.serialReturns (by simp [hmain]) (by rw [hmain]; rfl)
        (by rw [hmain]; rfl) fun hmasked ↦ nomatch hmasked
    | test caller data timeout ret =>
      simp only [Uart0Tx.next, hmain] at hnext
      cases htest : uart0PutcTest timeout ret with
      | none =>
        rw [htest] at hnext
        cases hnext
        obtain ⟨hret, htimeout⟩ := uart0PutcTest_eq_none htest
        exact .moved _ s.udrie0 s.serialReturns (by simp [hmain])
          (by rw [hmain]; simp [Uart0TxMain.inFlight, hret])
          (by rw [hmain]; simp [Uart0TxMain.doomed, htimeout]) fun hmasked ↦ nomatch hmasked
      | some status =>
        rw [htest] at hnext
        cases hnext
        exact .returned hmain htest

/-! ### What it keeps -/

structure Inv (s : Uart0Tx) : Prop where
  /-- The buffer has 32 slots, with its indices inside. -/
  sized : s.txBuf.Sized 5
  /-- Every byte of a call, finished or under way, was sent or lost. -/
  length : s.reported.length + s.main.inFlight.length + s.main.doomed.length
    = s.sent.length + s.lost.length
  /-- Without a loss they were sent in order. -/
  sent : s.lost = [] → s.reported ++ s.main.inFlight = s.sent
  /-- A byte that is doomed has been lost. -/
  lost : s.main.doomed ≠ [] → s.lost ≠ []
  /-- While the program has masked the interrupt, it is off. -/
  udrie0 : s.main.masked = true → s.udrie0 = false

theorem inv_start : Inv uart0TxStart where
  sized := Cbuf.sized_declareCbuf (k := 5) (by decide) (by decide)
  length := by decide
  sent _ := by decide
  lost h := absurd rfl h
  udrie0 _ := rfl

variable {s s' : Uart0Tx} {e : Event}

/-- The interrupt moves a byte from the buffer to the data register. -/
theorem sent_usartUdreVect (h : s.txBuf.Sized 5) : (usartUdreVect s).sent = s.sent := by
  rw [usartUdreVect, Cbuf.getDataCount_eq h]
  by_cases hempty : s.txBuf.unread 5 = 0
  · rw [if_neg (by simp [hempty])]
    rfl
  · rw [if_pos (by exact_mod_cast hempty)]
    obtain ⟨b, hcons, hget⟩ := Cbuf.contents_get h hempty
    have hb : BitVec.ofInt 8 s.txBuf.get.2 = b := by
      rw [hget]
      simp
    simp [sent, hcons, hb]

theorem Inv.udre (h : Inv s) : Inv (usartUdreVect s) := by
  have hsent := sent_usartUdreVect h.sized
  have hrest : (usartUdreVect s).reported = s.reported ∧ (usartUdreVect s).main = s.main ∧
      (usartUdreVect s).lost = s.lost ∧ (usartUdreVect s).txBuf.Sized 5 ∧
      (s.udrie0 = false → (usartUdreVect s).udrie0 = false) := by
    rw [usartUdreVect]
    split
    · exact ⟨rfl, rfl, rfl, Cbuf.sized_get h.sized, id⟩
    · exact ⟨rfl, rfl, rfl, h.sized, fun _ ↦ rfl⟩
  obtain ⟨hreported, hmain, hlost, hsized, hudrie⟩ := hrest
  refine ⟨hsized, ?_, ?_, ?_, ?_⟩
  · rw [hreported, hmain, hsent, hlost]
    exact h.length
  · rw [hreported, hmain, hsent, hlost]
    exact h.sent
  · rw [hmain, hlost]
    exact h.lost
  · rw [hmain]
    exact fun hmasked ↦ hudrie (h.udrie0 hmasked)

/-- The main program goes on without touching the buffer. -/
theorem Inv.move (h : Inv s) {main : Uart0TxMain} (udrie0 : Bool) (serialReturns : List ℕ)
    (hflight : main.inFlight = s.main.inFlight) (hdoomed : main.doomed = s.main.doomed)
    (hmasked : main.masked = true → udrie0 = false) :
    Inv { s with main := main, udrie0 := udrie0, serialReturns := serialReturns } :=
  ⟨h.sized, by rw [hflight, hdoomed]; exact h.length, by rw [hflight]; exact h.sent,
    by rw [hdoomed]; exact h.lost, hmasked⟩

/-- A call for a device that does not exist. -/
theorem Inv.rejected (h : Inv s) (ch : BitVec 8) {devId : BitVec 8} (hdev : devId ≠ 0) :
    Inv { s with calls := s.calls ++ [(ch, uartPutcResult devId 0)] } := by
  have hreported : ({ s with calls := s.calls ++ [(ch, uartPutcResult devId 0)] } :
      Uart0Tx).reported = s.reported := by
    have hcode (status : BitVec 16) : uartPutcResult devId status = -1 := if_neg hdev
    simp [Uart0Tx.reported, hcode]
  exact ⟨h.sized, by rw [hreported]; exact h.length, by rw [hreported]; exact h.sent, h.lost,
    h.udrie0⟩

/-- An attempt. -/
theorem Inv.put (h : Inv s) {caller : TxCaller} {data : BitVec 8} {timeout : ℕ}
    (hmain : s.main = .put caller data timeout) :
    Inv { s with
      txBuf := (s.txBuf.put data).1
      main := .dreOn caller data timeout (s.txBuf.put data).2
      lost := if (s.txBuf.put data).2 = -1 ∧ timeout = 0 then s.lost ++ [data] else s.lost } := by
  have hlength := h.length
  have hsent := h.sent
  have hudrie := h.udrie0
  rw [hmain] at hlength hsent hudrie
  by_cases hfull : s.txBuf.unread 5 = 2 ^ 5 - 1
  · simp only [Cbuf.put_of_full h.sized hfull]
    -- The byte is lost now if there is no further attempt.
    by_cases hlast : timeout = 0
    · refine ⟨h.sized, ?_, fun hnil ↦ ?_, fun _ ↦ ?_, hudrie⟩
      · simp_all [Uart0TxMain.inFlight, Uart0TxMain.doomed, Uart0Tx.reported, Uart0Tx.sent]
        omega
      · simp [hlast] at hnil
      · simp [hlast]
    · refine ⟨h.sized, ?_, fun hnil ↦ ?_, fun hdoomed ↦ ?_, hudrie⟩
      · simpa [Uart0TxMain.inFlight, Uart0TxMain.doomed, hlast, Uart0Tx.reported, Uart0Tx.sent]
          using hlength
      · simp only [hlast, and_false, if_false] at hnil
        simpa [Uart0TxMain.inFlight, Uart0Tx.reported, Uart0Tx.sent] using hsent hnil
      · simp [Uart0TxMain.doomed, hlast] at hdoomed
  · obtain ⟨hcontents, hcode⟩ := Cbuf.contents_put h.sized hfull data
    simp only [hcode]
    refine ⟨Cbuf.sized_put h.sized data, ?_, fun hnil ↦ ?_, fun hdoomed ↦ ?_, hudrie⟩
    · simp_all [Uart0TxMain.inFlight, Uart0TxMain.doomed, Uart0Tx.reported, Uart0Tx.sent]
      omega
    · have hnil' : s.lost = [] := by simpa using hnil
      have heq := hsent hnil'
      simp_all [Uart0TxMain.inFlight, Uart0Tx.reported, Uart0Tx.sent]
    · simp [Uart0TxMain.doomed] at hdoomed

/-- `uart_putc` returns, with success or after the last attempt. -/
theorem Inv.returned (h : Inv s) {caller : TxCaller} {data : BitVec 8} {timeout : ℕ} {ret : ℤ}
    (hmain : s.main = .test caller data timeout ret) {status : BitVec 16}
    (htest : uart0PutcTest timeout ret = some status) :
    Inv (putcReturned s caller data status) := by
  have hlength := h.length
  have hsent := h.sent
  have hlost := h.lost
  rw [hmain] at hlength hsent hlost
  have hend : ret ≠ -1 ∨ timeout = 0 := by
    rw [uart0PutcTest] at htest
    by_contra hcon
    rw [not_or, not_not] at hcon
    simp [hcon] at htest
  have hcalls : Inv { s with
      calls := s.calls ++ [(data, uartPutcResult 0 status)], main := .idle } := by
    refine ⟨h.sized, ?_, fun hnil ↦ ?_, fun hdoomed ↦ absurd rfl hdoomed,
      fun hmasked ↦ nomatch hmasked⟩
    · by_cases hret : ret = -1
      · have htimeout := hend.resolve_left (not_not.mpr hret)
        simp_all [Uart0TxMain.inFlight, Uart0TxMain.doomed, Uart0Tx.reported, Uart0Tx.sent,
          uartPutcResult]
      · simp_all [Uart0TxMain.inFlight, Uart0TxMain.doomed, Uart0Tx.reported, Uart0Tx.sent,
          uartPutcResult]
    · by_cases hret : ret = -1
      · -- The call has given up, so a byte is lost already.
        have htimeout := hend.resolve_left (not_not.mpr hret)
        exact absurd hnil (hlost (by simp [Uart0TxMain.doomed, hret, htimeout]))
      · have heq := hsent hnil
        simp_all [Uart0TxMain.inFlight, Uart0Tx.reported, Uart0Tx.sent, uartPutcResult]
  cases caller with
  | direct => exact hcalls
  | put => exact hcalls.move _ _ rfl rfl fun hmasked ↦ nomatch hmasked
  | putn rest size =>
    cases rest with
    | nil => exact hcalls.move _ _ rfl rfl fun hmasked ↦ nomatch hmasked
    | cons b rest => exact hcalls.move _ _ rfl rfl fun hmasked ↦ nomatch hmasked

/-- **One step.** -/
theorem Inv.step (h : Inv s) (hstep : Step s e s') : Inv s' := by
  cases hstep with
  | udre => exact h.udre
  | rejected ch hdev => exact h.rejected ch hdev
  | moved main udrie0 serialReturns _ hflight hdoomed hmasked =>
    exact h.move udrie0 serialReturns hflight hdoomed hmasked
  | attempted hmain => exact h.put hmain
  | returned hmain htest => exact h.returned hmain htest

theorem inv_of_run {events : List Event} (h : run uart0TxStart events = some s) : Inv s :=
  foldlM_invariant (fun _ _ _ hs hnext ↦ hs.step (step_of_next hnext)) inv_start h

/-! ## When a byte is lost -/

theorem lost_putcReturned (s : Uart0Tx) (caller : TxCaller) (data : BitVec 8) (status : BitVec 16) :
    (putcReturned s caller data status).lost = s.lost := by
  cases caller with
  | direct | put => rfl
  | putn rest size => cases rest <;> rfl

/-- A byte is lost in exactly the steps that give up. -/
theorem Step.lost_iff (hstep : Step s e s') (h : Inv s) :
    s'.lost = [] ↔ s.lost = [] ∧ ¬s.GivesUp := by
  -- Only an attempt can give up.
  have hquiet (hput : ∀ caller data timeout, s.main ≠ .put caller data timeout)
      (hlost : s'.lost = s.lost) : s'.lost = [] ↔ s.lost = [] ∧ ¬s.GivesUp := by
    rw [hlost, and_iff_left]
    exact fun ⟨caller, data, hmain, _⟩ ↦ hput caller data 0 hmain
  cases hstep with
  | udre hon =>
    refine hquiet (fun caller data timeout hmain ↦ ?_) ?_
    · have hoff := h.udrie0 (by rw [hmain]; rfl)
      cases hoff.symm.trans hon
    · rw [usartUdreVect]
      split <;> rfl
  | rejected _ _ hidle => exact hquiet (by simp [hidle]) rfl
  | moved _ _ _ hput => exact hquiet hput rfl
  | @attempted caller data timeout hmain =>
    have hfull := Cbuf.put_snd_eq_neg_one_iff h.sized data
    simp only [GivesUp, hmain, Uart0TxMain.put.injEq]
    by_cases hlast : (s.txBuf.put data).2 = -1 ∧ timeout = 0
    · rw [if_pos hlast]
      simp [hlast.2, hfull.mp hlast.1]
    · rw [if_neg hlast]
      rw [hfull] at hlast
      refine (and_iff_left ?_).symm
      rintro ⟨_, _, ⟨-, -, hzero⟩, hlen⟩
      exact hlast ⟨hlen, hzero⟩
  | returned hmain => exact hquiet (by simp [hmain]) (lost_putcReturned ..)

/-- **Losses.** -/
theorem lost_eq_nil_iff (events : List Event) : ∀ {s : Uart0Tx}, run uart0TxStart events = some s →
    (s.lost = [] ↔ ∀ before e after t, events = before ++ e :: after →
      run uart0TxStart before = some t → ¬t.GivesUp) := by
  induction events using List.reverseRecOn with
  | nil =>
    intro s h
    cases h
    simp [uart0TxStart]
  | append_singleton events e ih =>
    intro s h
    obtain ⟨u, hu, hnext⟩ := foldlM_concat_eq_some_iff.mp h
    rw [(step_of_next hnext).lost_iff (inv_of_run hu), ih hu]
    constructor
    · rintro ⟨hall, hnot⟩ before e' after t heq ht
      rcases List.eq_nil_or_concat after with rfl | ⟨after, b, rfl⟩
      · obtain ⟨rfl, -⟩ := List.append_inj' heq rfl
        rw [← Option.some.inj (hu.symm.trans ht)]
        exact hnot
      · rw [List.concat_eq_append, ← List.cons_append, ← List.append_assoc] at heq
        exact hall before e' after t (List.append_inj' heq rfl).1 ht
    · intro hall
      refine ⟨fun before e' after t heq ↦ ?_, hall events e [] u rfl hu⟩
      exact hall before e' (after ++ [e]) t (by rw [heq, List.append_assoc, List.cons_append])

/-- **What is sent is what is reported** in exactly the runs in which no call gives up. -/
theorem reported_eq_sent_iff (events : List Event) (h : run uart0TxStart events = some s)
    (hidle : s.main = .idle) :
    s.reported = s.sent ↔ ∀ before e after t, events = before ++ e :: after →
      run uart0TxStart before = some t → ¬t.GivesUp := by
  have hinv := inv_of_run h
  have hlength := hinv.length
  have hsent := hinv.sent
  rw [hidle] at hlength hsent
  rw [← lost_eq_nil_iff events h]
  constructor
  · intro heq
    refine List.eq_nil_of_length_eq_zero ?_
    simp only [Uart0TxMain.inFlight, Uart0TxMain.doomed, heq, List.length_nil] at hlength
    omega
  · intro hnil
    simpa only [Uart0TxMain.inFlight, List.append_nil] using hsent hnil

/-- A byte sent and drained, on an empty buffer. -/
theorem reported_eq_sent_one :
    ∃ s, run uart0TxStart [.putc 0 7, .main, .main, .main, .udre, .main] = some s ∧ s.udr0 = [7] ∧
      (s.reported = s.sent ↔ ∀ before e after t,
        [Event.putc 0 7, .main, .main, .main, .udre, .main] = before ++ e :: after →
          run uart0TxStart before = some t → ¬t.GivesUp) :=
  ⟨_, rfl, rfl, reported_eq_sent_iff [.putc 0 7, .main, .main, .main, .udre, .main] rfl rfl⟩

/-! ### A stalled transmitter -/

theorem run_append (s : Uart0Tx) (es es' : List Event) :
    run s (es ++ es') = (run s es).bind fun t ↦ run t es' :=
  List.foldlM_append

/-- A call that finds room at once. -/
theorem run_putc_of_room (hidle : s.main = .idle) (hsized : s.txBuf.Sized 5)
    (hroom : s.txBuf.unread 5 ≠ 2 ^ 5 - 1) (data : BitVec 8) :
    run s [.putc 0 data, .main, .main, .main, .main] = some { s with
      txBuf := (s.txBuf.put data).1, udrie0 := true, main := .idle
      calls := s.calls ++ [(data, 0)] } := by
  have hcode := (Cbuf.contents_put hsized hroom data).2
  simp [run, Uart0Tx.next, hidle, startPutc, hcode, uart0PutcTest, putcReturned, uartPutcResult]

/-- A call under way on a full buffer, with no interrupt until it gives up. -/
theorem run_attempts_of_full (hsized : s.txBuf.Sized 5) (hfull : s.txBuf.unread 5 = 2 ^ 5 - 1)
    (data : BitVec 8) (timeout : ℕ) : ∀ udrie0, ∃ s',
      run { s with main := .dreOff .direct data timeout, udrie0 := udrie0 }
        (List.replicate (4 * (timeout + 1)) .main) = some s' ∧ s'.main = .idle ∧
        s'.txBuf = s.txBuf ∧ s'.udr0 = s.udr0 ∧ s'.calls = s.calls ++ [(data, 0)] := by
  have hput := Cbuf.put_of_full hsized hfull data
  induction timeout with
  | zero =>
    exact fun udrie0 ↦ ⟨{ s with
      udrie0 := true, main := .idle, calls := s.calls ++ [(data, 0)], lost := s.lost ++ [data] },
      by simp [run, List.replicate, Uart0Tx.next, hput, uart0PutcTest, putcReturned,
        uartPutcResult], rfl, rfl, rfl, rfl⟩
  | succ timeout ih =>
    intro udrie0
    have hround : run { s with main := .dreOff .direct data (timeout + 1), udrie0 := udrie0 }
        [.main, .main, .main, .main]
          = some { s with main := .dreOff .direct data timeout, udrie0 := true } := by
      simp [run, Uart0Tx.next, hput, uart0PutcTest]
    obtain ⟨s', hrun, hrest⟩ := ih true
    refine ⟨s', ?_, hrest⟩
    rw [show 4 * (timeout + 1 + 1) = 4 + 4 * (timeout + 1) by ring, List.replicate_add, run_append,
      show List.replicate 4 Event.main = [.main, .main, .main, .main] from rfl, hround,
      Option.bind_some]
    exact hrun

/-- A call on a full buffer. -/
theorem run_putc_of_full (hidle : s.main = .idle) (hsized : s.txBuf.Sized 5)
    (hfull : s.txBuf.unread 5 = 2 ^ 5 - 1) (data : BitVec 8) :
    ∃ events s', run s events = some s' ∧ s'.main = .idle ∧ s'.txBuf = s.txBuf ∧
      s'.udr0 = s.udr0 ∧ s'.calls = s.calls ++ [(data, 0)] := by
  obtain ⟨s', hrun, hrest⟩ := run_attempts_of_full hsized hfull data 2000 s.udrie0
  have hfirst : s.next (.putc 0 data) = some { s with main := .dreOff .direct data 2000 } := by
    simp [Uart0Tx.next, hidle, startPutc]
  refine ⟨.putc 0 data :: List.replicate (4 * (2000 + 1)) .main, s', ?_, hrest⟩
  exact foldlM_cons_eq_some_iff.mpr ⟨_, hfirst, hrun⟩

/-- Up to 31 calls find room without a single interrupt. -/
theorem run_of_stall (n : ℕ) (hn : n ≤ 31) : ∃ events s, run uart0TxStart events = some s ∧
    s.main = .idle ∧ s.txBuf.Sized 5 ∧ s.txBuf.unread 5 = n ∧ s.udr0 = [] ∧
      s.reported.length = n := by
  induction n with
  | zero =>
    exact ⟨[], uart0TxStart, rfl, rfl, inv_start.sized, by decide, rfl, rfl⟩
  | succ n ih =>
    obtain ⟨events, s, hrun, hidle, hsized, hunread, hudr, hreported⟩ := ih (by omega)
    have hroom : s.txBuf.unread 5 ≠ 2 ^ 5 - 1 := by omega
    have hcontents := (Cbuf.contents_put hsized hroom 7).1
    refine ⟨events ++ [.putc 0 7, .main, .main, .main, .main], { s with
      txBuf := (s.txBuf.put 7).1, udrie0 := true, main := .idle
      calls := s.calls ++ [(7, 0)] }, ?_, rfl, Cbuf.sized_put hsized 7, ?_, hudr, ?_⟩
    · rw [run_append, hrun]
      exact run_putc_of_room hidle hsized hroom 7
    · rw [← Cbuf.length_contents, hcontents, List.length_append, Cbuf.length_contents, hunread]
      rfl
    · simp_all [Uart0Tx.reported]

/-- The thirty-second byte of a stalled transmitter is reported as sent and lost. -/
theorem uart_putc_loses : ∃ events s, run uart0TxStart events = some s ∧ s.main = .idle ∧
    s.reported.length = 32 ∧ s.sent.length = 31 := by
  obtain ⟨events, s, hrun, hidle, hsized, hunread, hudr, hreported⟩ := run_of_stall 31 le_rfl
  obtain ⟨events', s', hrun', hidle', hbuf, hudr', hcalls⟩ :=
    run_putc_of_full hidle hsized hunread 7
  -- 31 bytes fill the buffer, and the last call runs out of attempts.
  refine ⟨events ++ events', s', ?_, hidle', ?_, ?_⟩
  · rw [run_append, hrun]
    exact hrun'
  · rw [Uart0Tx.reported, hcalls]
    simpa [Uart0Tx.reported] using hreported
  · rw [Uart0Tx.sent, hbuf, hudr', hudr, List.nil_append, Cbuf.length_contents, hunread]

end Uart0Tx

end Martink
