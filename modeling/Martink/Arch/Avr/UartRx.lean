import Martink.Arch.UartRx
import Martink.Base.Bits
import Martink.Base.Outcome

/-!
# Receiving on the AVR

`avr/mega/uart.c` with `CONFIG_BUFFERED_UART`. The main program takes steps at which the receive
interrupt may come in: `uart0_getc` and `uart0_waiting` switch the interrupt off, look at the
buffer, switch it on again and return. A byte that arrives while the interrupt is off waits in the
data register and interrupts as soon as it is switched on; the register holds one such byte.
-/

namespace Martink

/-- Where the main program is. -/
inductive Uart0Main where
  | idle
  | getc
  | getcOn (ret : BitVec 16)
  | getcRet (ret : BitVec 16)
  | waiting
  | waitingOn (wait : BitVec 16)
  | waitingRet (wait : BitVec 16)

/-- What the `getc` under way will return. -/
def Uart0Main.result : Uart0Main → Option (BitVec 16)
  | .getcOn ret | .getcRet ret => some ret
  | _ => none

/-- The call under way has the receive interrupt off. -/
def Uart0Main.masked : Uart0Main → Bool
  | .getc | .getcOn _ | .waiting | .waitingOn _ => true
  | _ => false

/-- A received byte, with `UCSR0A` as it was for it. -/
structure Uart0Frame where
  /-- The error flags of the byte. -/
  status : BitVec 8
  /-- The byte. -/
  data : BitVec 8

structure Uart0Rx where
  /-- `uart0_rx_buf`. -/
  rxBuf : RxQueue
  /-- `uart0.error`. -/
  error : BitVec 8
  /-- The bit `RXCIE0` of `UCSR0B`. -/
  rxcie0 : Bool
  /-- A byte in the data register whose interrupt has not run. -/
  udr0 : Option Uart0Frame
  /-- Where the program is in `uart0_getc`. -/
  main : Uart0Main
  /-- What `uart0_getc` returned, in order. -/
  returns : List (BitVec 16)

/-- After `uart_init(0, baud)`. -/
def uart0RxStart : Uart0Rx where
  rxBuf := .declare 32
  error := 0
  rxcie0 := true
  udr0 := none
  main := .idle
  returns := []

namespace Uart0Rx

/-- `ISR(USART_RX_vect)`. -/
def usartRxVect (s : Uart0Rx) (f : Uart0Frame) : Uart0Rx :=
  { s with
    error := if s.rxBuf.buf.isFull then (serialBufferFull >>> 8).setWidth 8
             else f.status &&& (bv 4 ||| bv 3)
    rxBuf := s.rxBuf.receive f.data }

/-- `uart0_interrupt_rx_on`, and the interrupt of a waiting byte. -/
def interruptRxOn (s : Uart0Rx) : Uart0Rx :=
  match s.udr0 with
  | none => { s with rxcie0 := true }
  | some f => usartRxVect { s with rxcie0 := true, udr0 := none } f

inductive Event where
  | receive (f : Uart0Frame)
  | getc (devId : BitVec 8)
  | waiting (devId : BitVec 8)
  /-- The main program goes on. -/
  | main

/-- One event, if it can happen. A call for another device returns at once. -/
def next (s : Uart0Rx) : Event → Option Uart0Rx
  | .receive f =>
    if s.rxcie0 then some (usartRxVect s f)
    -- The register holds one byte; no second one comes while it waits.
    else match s.udr0 with
      | none => some { s with udr0 := some f }
      | some _ => none
  | .getc devId =>
    match s.main with
    | .idle => if devId = 0 then some { s with rxcie0 := false, main := .getc } else some s
    | _ => none
  | .waiting devId =>
    match s.main with
    | .idle => if devId = 0 then some { s with rxcie0 := false, main := .waiting } else some s
    | _ => none
  | .main =>
    match s.main with
    | .idle => none
    | .getc => some { s with rxBuf := s.rxBuf.getc.1, main := .getcOn s.rxBuf.getc.2 }
    | .getcOn ret => some { interruptRxOn s with main := .getcRet ret }
    | .getcRet ret => some { s with main := .idle, returns := s.returns ++ [ret] }
    | .waiting => some { s with main := .waitingOn (BitVec.ofInt 16 s.rxBuf.buf.getDataCount) }
    | .waitingOn wait => some { interruptRxOn s with main := .waitingRet wait }
    | .waitingRet _ => some { s with main := .idle }

def run (s : Uart0Rx) (events : List Event) : Option Uart0Rx := events.foldlM next s

/-- The byte that comes in with an event. -/
def Event.data : Event → List (BitVec 8)
  | .receive f => [f.data]
  | _ => []

def port (s : Uart0Rx) : RxPort where
  queue := s.rxBuf
  returns := s.returns
  result := s.main.result
  idle := match s.main with
    | .idle => true
    | _ => false
  enabled := s.rxcie0
  pending := s.udr0.map Uart0Frame.data

/-- The bytes that came in: those handled and the one that waits. -/
def handled (s : Uart0Rx) : List (BitVec 8) :=
  s.rxBuf.arrived.map Prod.fst ++ (s.udr0.map Uart0Frame.data).toList

/-! ## What a step does -/

/-- The steps by what they do to the receiver. -/
inductive Step (s : Uart0Rx) : Event → Uart0Rx → Prop
  | received (f : Uart0Frame) : s.rxcie0 = true → Step s (.receive f) (usartRxVect s f)
  | held (f : Uart0Frame) : s.rxcie0 ≠ true → s.udr0 = none →
      Step s (.receive f) { s with udr0 := some f }
  | stays {e : Event} : e.data = [] → Step s e s
  | called {e : Event} (main : Uart0Main) : e.data = [] → s.main = .idle → main.masked = true →
      main.result = none → Step s e { s with rxcie0 := false, main := main }
  | decided : s.main = .getc →
      Step s .main { s with rxBuf := s.rxBuf.getc.1, main := .getcOn s.rxBuf.getc.2 }
  | switchedOn (main : Uart0Main) : main.masked = false → main.result = s.main.result →
      Step s .main { interruptRxOn s with main := main }
  | wentOn (main : Uart0Main) (returns : List (BitVec 16)) : main.masked = s.main.masked →
      main.result = none → returns = s.returns ++ s.main.result.toList →
        Step s .main { s with main := main, returns := returns }

variable {s s' : Uart0Rx} {e : Event}

theorem step_of_next (hnext : s.next e = some s') : Step s e s' := by
  cases e with
  | receive f =>
    rw [Uart0Rx.next] at hnext
    split at hnext
    · rename_i hon
      cases hnext
      exact .received f hon
    · rename_i hoff
      split at hnext
      · rename_i hnone
        cases hnext
        exact .held f hoff hnone
      · cases hnext
  | getc devId | waiting devId =>
    rw [Uart0Rx.next] at hnext
    split at hnext
    · rename_i hmain
      split at hnext <;> cases hnext
      · exact .called _ rfl hmain rfl rfl
      · exact .stays rfl
    · cases hnext
  | main =>
    cases hmain : s.main with
    | idle => simp [Uart0Rx.next, hmain] at hnext
    | getc =>
      simp only [Uart0Rx.next, hmain, Option.some.injEq] at hnext
      exact hnext ▸ .decided hmain
    | getcOn ret | waitingOn ret =>
      simp only [Uart0Rx.next, hmain, Option.some.injEq] at hnext
      exact hnext ▸ .switchedOn _ rfl (by rw [hmain]; rfl)
    | getcRet ret =>
      simp only [Uart0Rx.next, hmain, Option.some.injEq] at hnext
      exact hnext ▸ .wentOn _ _ (by rw [hmain]; rfl) rfl (by rw [hmain]; rfl)
    | waiting =>
      simp only [Uart0Rx.next, hmain, Option.some.injEq] at hnext
      exact hnext ▸ .wentOn _ s.returns (by rw [hmain]; rfl) rfl (by simp [hmain, Uart0Main.result])
    | waitingRet wait =>
      simp only [Uart0Rx.next, hmain, Option.some.injEq] at hnext
      exact hnext ▸ .wentOn _ s.returns (by rw [hmain]; rfl) rfl (by simp [hmain, Uart0Main.result])

/-- Switching the interrupt on leaves the queue as an interrupt leaves it, or as it was. -/
theorem interruptRxOn_cases (s : Uart0Rx) :
    (interruptRxOn s).rxcie0 = true ∧ (interruptRxOn s).udr0 = none ∧
      (interruptRxOn s).returns = s.returns ∧
      ((interruptRxOn s).rxBuf = s.rxBuf ∨
        ∃ data, (interruptRxOn s).rxBuf = s.rxBuf.receive data) := by
  rw [interruptRxOn]
  split
  · rename_i hnone
    exact ⟨rfl, hnone, rfl, .inl rfl⟩
  · rename_i f _
    exact ⟨rfl, rfl, rfl, .inr ⟨f.data, rfl⟩⟩

/-- What a step does to the queue: an interrupt, a `getc`, or nothing. -/
theorem Step.queue_cases (h : Step s e s') :
    (∃ data, s'.rxBuf = s.rxBuf.receive data) ∨ s'.rxBuf = s.rxBuf.getc.1 ∨
      s'.rxBuf = s.rxBuf := by
  cases h with
  | received f => exact .inl ⟨f.data, rfl⟩
  | decided => exact .inr (.inl rfl)
  | switchedOn main =>
    rcases (interruptRxOn_cases s).2.2.2 with heq | hdata
    · exact .inr (.inr heq)
    · exact .inl hdata
  | _ => exact .inr (.inr rfl)

/-- A call decides in one step. -/
theorem Step.result_cases (h : Step s e s') (hnone : s.main.result = none) {ret : BitVec 16}
    (hret : s'.main.result = some ret) : ret = s.rxBuf.getc.2 := by
  cases h with
  | decided => exact (Option.some.inj hret).symm
  | called _ _ _ _ hresult => cases hresult.symm.trans hret
  | switchedOn _ _ hresult => cases (hresult.trans hnone).symm.trans hret
  | wentOn _ _ _ hresult => cases hresult.symm.trans hret
  | _ => cases hnone.symm.trans hret

/-! ## The invariant -/

structure Inv (s : Uart0Rx) : Prop where
  /-- The queue has 32 slots and is in order. -/
  ok : s.rxBuf.Ok 5
  /-- What was taken from the queue is what the calls have returned, or will. -/
  returned : s.rxBuf.taken.map (·.setWidth 16)
    = (s.returns ++ s.main.result.toList).filter (· ≠ serialNoData)
  /-- The interrupt is masked exactly while the program reads. -/
  rxcie0 : s.rxcie0 = !s.main.masked
  /-- While it is not, no byte waits. -/
  udr0 : s.rxcie0 = true → s.udr0 = none

theorem inv_start : Inv uart0RxStart where
  ok := RxQueue.ok_declare (k := 5) (by decide) (by decide)
  returned := rfl
  rxcie0 := rfl
  udr0 _ := rfl

theorem Inv.interruptRxOn (h : Inv s) {main : Uart0Main} (hmain : main.masked = false)
    (hresult : main.result = s.main.result) : Inv { s.interruptRxOn with main := main } := by
  obtain ⟨hon, hudr, hreturns, hbuf⟩ := interruptRxOn_cases s
  refine ⟨?_, ?_, ?_, fun _ ↦ hudr⟩
  · rcases hbuf with heq | ⟨data, heq⟩
    · simpa only [heq] using h.ok
    · simpa only [heq] using h.ok.receive data
  · have htaken : s.interruptRxOn.rxBuf.taken = s.rxBuf.taken := by
      rcases hbuf with heq | ⟨data, heq⟩ <;> simp [heq]
    simp only [htaken, hreturns, hresult, h.returned]
  · simp only [hon, hmain, Bool.not_false]

/-- **One step.** -/
theorem Inv.step (h : Inv s) (hstep : Step s e s') : Inv s' := by
  cases hstep with
  | received f =>
    refine ⟨h.ok.receive f.data, ?_, h.rxcie0, h.udr0⟩
    simpa only [usartRxVect, RxQueue.taken_receive] using h.returned
  | held f hoff => exact ⟨h.ok, h.returned, h.rxcie0, fun hon ↦ absurd hon hoff⟩
  | stays => exact h
  | called main _ hidle hmasked hresult =>
    -- With the interrupt off nothing is asked of the data register.
    refine ⟨h.ok, ?_, by simp only [hmasked, Bool.not_true], fun hon ↦ nomatch hon⟩
    rw [h.returned, hidle, hresult]
    rfl
  | decided hmain =>
    have hret := h.returned
    have hon := h.rxcie0
    rw [hmain] at hret hon
    refine ⟨h.ok.getc, ?_, hon, h.udr0⟩
    exact RxQueue.returns_getc h.ok (by simpa [Uart0Main.result] using hret)
  | switchedOn main hmasked hresult => exact h.interruptRxOn hmasked hresult
  | wentOn main returns hmasked hresult hreturns =>
    refine ⟨h.ok, ?_, by simp only [h.rxcie0, hmasked], h.udr0⟩
    simp only [hresult, hreturns, Option.toList_none, List.append_nil, h.returned]

theorem handled_interruptRxOn (s : Uart0Rx) (main : Uart0Main) :
    handled { s.interruptRxOn with main := main } = s.handled := by
  rw [interruptRxOn, handled, handled]
  split
  · rfl
  · rename_i f hf
    simp only [Uart0Rx.usartRxVect, RxQueue.arrived_receive, hf]
    simp

theorem Step.handled (h : Inv s) (hstep : Step s e s') : s'.handled = s.handled ++ e.data := by
  cases hstep with
  | received f hon =>
    simp only [Uart0Rx.handled, usartRxVect, RxQueue.arrived_receive, h.udr0 hon]
    simp [Event.data]
  | held f _ hnone => simp [Uart0Rx.handled, hnone, Event.data]
  | stays hdata => rw [hdata, List.append_nil]
  | called _ hdata =>
    rw [hdata, List.append_nil]
    rfl
  | decided =>
    simp only [Uart0Rx.handled, RxQueue.arrived_getc]
    exact (List.append_nil _).symm
  | switchedOn main =>
    rw [handled_interruptRxOn]
    exact (List.append_nil _).symm
  | wentOn => exact (List.append_nil _).symm

/-- **Runs.** -/
theorem inv_of_run {events : List Event} (h : run uart0RxStart events = some s) :
    Inv s ∧ s.handled = events.flatMap Event.data := by
  rw [List.flatMap_eq_foldl]
  refine foldlM_rel (R := fun s received ↦ Inv s ∧ handled s = received) ?_ events
    ⟨inv_start, rfl⟩ h
  rintro s received e s' ⟨hinv, hhandled⟩ hnext
  have hstep := step_of_next hnext
  exact ⟨hinv.step hstep, by rw [hstep.handled hinv, hhandled]⟩

/-! ## The law -/

theorem Inv.law (h : Inv s) : RxLaw 5 Uart0Rx.next port s.handled s where
  handled := rfl
  in_order := by
    simp only [port, h.ok.kept_eq, List.map_append, h.returned]
  dropped_full e s' hnext hdrop := by
    rcases (step_of_next hnext).queue_cases with ⟨data, heq⟩ | heq | heq
    · exact RxQueue.length_of_dropped h.ok data (by simpa only [port, heq] using hdrop)
    · exact absurd (by simp only [port, heq, RxQueue.dropped_getc]) hdrop
    · exact absurd (by simp only [port, heq]) hdrop
  noData_empty e s' hnext hnone hret := by
    have hget : serialNoData = s.rxBuf.getc.2 := (step_of_next hnext).result_cases hnone hret
    rcases RxQueue.getc_cases h.ok with ⟨hnil, -⟩ | ⟨data, -, hdata, -⟩
    · exact hnil
    · exact absurd (hdata.symm.trans hget.symm) (RxQueue.setWidth_ne_serialNoData data)
  enabled_of_idle hidle := by
    have hon := h.rxcie0
    simp only [port] at hidle ⊢
    split at hidle
    · rename_i hmain
      rw [hmain] at hon
      exact ⟨hon, by rw [h.udr0 hon]; rfl⟩
    · cases hidle

end Uart0Rx

end Martink
