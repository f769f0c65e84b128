import Martink.Arch.UartRx
import Martink.Base.Outcome

/-!
# Receiving on the STM32

`arm/stm32/uart.c`. Device `i` is the USART that the table `_devices` names, and a call switches off
the interrupt of that USART; which of the six buffers it reads is decided by a `switch` on `i`, and
which buffer an interrupt fills is written out in its handler. `irqBuf_device` says that the two
agree on the three devices there are.
-/

namespace Martink

inductive Usart where
  | usart1
  | usart2
  | usart3
  deriving DecidableEq

/-- The member `dev` of the entries of `_devices`. -/
def stm32Devices : List Usart := [.usart1, .usart2, .usart3]

/-- The buffers `uart0_rx_buf`, …, `uart5_rx_buf`. -/
inductive UartBuf where
  | uart0
  | uart1
  | uart2
  | uart3
  | uart4
  | uart5
  deriving DecidableEq

/-- The `switch` of `uart_getc` and `uart_waiting`. -/
def deviceBuf (devId : ℕ) : Option UartBuf :=
  match devId with
  | 0 => some .uart0
  | 1 => some .uart1
  | 2 => some .uart2
  | 3 => some .uart3
  | 4 => some .uart4
  | 5 => some .uart5
  | _ => none

/-- Where the main program is, with the device of the call. -/
inductive Stm32Main where
  | idle
  | getc (devId : Fin 3)
  | getcOn (devId : Fin 3) (ret : BitVec 16)
  | getcRet (devId : Fin 3) (ret : BitVec 16)
  | waiting (devId : Fin 3)
  | waitingOn (devId : Fin 3) (cn : BitVec 16)
  | waitingRet (devId : Fin 3) (cn : BitVec 16)

structure Stm32Rx where
  /-- The receive buffers. -/
  rxBuf : UartBuf → RxQueue
  /-- The interrupt `USART_IT_RXNE` of each USART. -/
  rxne : Usart → Bool
  /-- A byte in the data register whose interrupt has not run. -/
  dr : Usart → Option (BitVec 8)
  /-- Where the program is in `uart_getc`. -/
  main : Stm32Main
  /-- What `uart_getc` returned for each device, in order. -/
  returns : Fin 3 → List (BitVec 16)

/-- After `uart_init` of the three devices. -/
def stm32RxStart : Stm32Rx where
  rxBuf _ := .declare 64
  rxne _ := true
  dr _ := none
  main := .idle
  returns _ := []

namespace Stm32Rx

/-- `_devices[dev_id].dev`. -/
def device (devId : Fin 3) : Usart := stm32Devices.get devId

/-- A handler, for its USART and its buffer. -/
def usartIrqHandler (u : Usart) (n : UartBuf) (s : Stm32Rx) : Stm32Rx :=
  match s.dr u with
  | some ch =>
    { s with
      dr := Function.update s.dr u none
      rxBuf := Function.update s.rxBuf n ((s.rxBuf n).receive ch) }
  | none => s

def usart1IrqHandler : Stm32Rx → Stm32Rx := usartIrqHandler .usart1 .uart0

def usart2IrqHandler : Stm32Rx → Stm32Rx := usartIrqHandler .usart2 .uart1

def usart3IrqHandler : Stm32Rx → Stm32Rx := usartIrqHandler .usart3 .uart2

def irqHandler : Usart → Stm32Rx → Stm32Rx
  | .usart1 => usart1IrqHandler
  | .usart2 => usart2IrqHandler
  | .usart3 => usart3IrqHandler

/-- `USART_ITConfig(dev, USART_IT_RXNE, DISABLE)`. -/
def rxneOff (u : Usart) (s : Stm32Rx) : Stm32Rx :=
  { s with rxne := Function.update s.rxne u false }

/-- `USART_ITConfig(dev, USART_IT_RXNE, ENABLE)`, and the interrupt of a waiting byte. -/
def rxneOn (u : Usart) (s : Stm32Rx) : Stm32Rx :=
  irqHandler u { s with rxne := Function.update s.rxne u true }

/-- The body of `uart_getc`: the new state and `ret`. -/
def getcBody (devId : Fin 3) (s : Stm32Rx) : Stm32Rx × BitVec 16 :=
  match deviceBuf devId with
  | some n => ({ s with rxBuf := Function.update s.rxBuf n (s.rxBuf n).getc.1 }, (s.rxBuf n).getc.2)
  | none => (s, serialNoData)

/-- The body of `uart_waiting`. -/
def waitingBody (devId : Fin 3) (s : Stm32Rx) : BitVec 16 :=
  match deviceBuf devId with
  | some n => BitVec.ofInt 16 (s.rxBuf n).buf.getDataCount
  | none => 0

inductive Event where
  | receive (u : Usart) (data : BitVec 8)
  | getc (devId : BitVec 8)
  | waiting (devId : BitVec 8)
  /-- The main program goes on. -/
  | main

/-- One event, if it can happen. A call for a device that is not in the table returns at once. -/
def next (s : Stm32Rx) : Event → Option Stm32Rx
  | .receive u data =>
    if s.dr u = none then
      let s := { s with dr := Function.update s.dr u (some data) }
      if s.rxne u then some (irqHandler u s) else some s
    else none
  | .getc devId =>
    match s.main with
    | .idle =>
      if h : devId.toNat < stm32Devices.length then
        some { rxneOff (device ⟨devId.toNat, h⟩) s with main := .getc ⟨devId.toNat, h⟩ }
      else some s
    | _ => none
  | .waiting devId =>
    match s.main with
    | .idle =>
      if h : devId.toNat < stm32Devices.length then
        some { rxneOff (device ⟨devId.toNat, h⟩) s with main := .waiting ⟨devId.toNat, h⟩ }
      else some s
    | _ => none
  | .main =>
    match s.main with
    | .idle => none
    | .getc devId => some { (getcBody devId s).1 with main := .getcOn devId (getcBody devId s).2 }
    | .getcOn devId ret => some { rxneOn (device devId) s with main := .getcRet devId ret }
    | .getcRet devId ret =>
      some { s with
        main := .idle
        returns := Function.update s.returns devId (s.returns devId ++ [ret]) }
    | .waiting devId => some { s with main := .waitingOn devId (waitingBody devId s) }
    | .waitingOn devId cn => some { rxneOn (device devId) s with main := .waitingRet devId cn }
    | .waitingRet _ _ => some { s with main := .idle }

def run (s : Stm32Rx) (events : List Event) : Option Stm32Rx := events.foldlM next s

/-- The byte that comes in at a USART with an event. -/
def Event.data (u : Usart) : Event → List (BitVec 8)
  | .receive v data => if v = u then [data] else []
  | _ => []

/-! ## The two mappings -/

/-- The buffer that the interrupt of a USART fills. -/
def irqBuf : Usart → UartBuf
  | .usart1 => .uart0
  | .usart2 => .uart1
  | .usart3 => .uart2

theorem irqHandler_eq (u : Usart) : irqHandler u = usartIrqHandler u (irqBuf u) := by
  cases u <;> rfl

/-- **The mappings agree.** The calls for a device read the buffer its interrupt fills. -/
theorem deviceBuf_eq (devId : Fin 3) : deviceBuf devId = some (irqBuf (device devId)) := by
  revert devId
  decide

theorem irqBuf_injective : Function.Injective irqBuf := by
  rintro (_ | _ | _) (_ | _ | _) h <;> first | rfl | exact absurd h (by decide)

theorem device_injective : Function.Injective device := by decide

end Stm32Rx

namespace Stm32Main

/-- What the `uart_getc` under way for a device will return. -/
def result (devId : Fin 3) : Stm32Main → Option (BitVec 16)
  | .getcOn d ret | .getcRet d ret => if d = devId then some ret else none
  | _ => none

/-- The device of the call under way. -/
def devId : Stm32Main → Option (Fin 3)
  | .idle => none
  | .getc d | .getcOn d _ | .getcRet d _ | .waiting d | .waitingOn d _ | .waitingRet d _ => some d

/-- The call under way has the interrupt of this USART off. -/
def masks (u : Usart) : Stm32Main → Bool
  | .getc d | .getcOn d _ | .waiting d | .waitingOn d _ => decide (Stm32Rx.device d = u)
  | _ => false

end Stm32Main

namespace Stm32Rx

/-- The receiver of a device, with the buffer that its interrupt fills. -/
def port (devId : Fin 3) (s : Stm32Rx) : RxPort where
  queue := s.rxBuf (irqBuf (device devId))
  returns := s.returns devId
  result := s.main.result devId
  idle := decide (s.main.devId ≠ some devId)
  enabled := s.rxne (device devId)
  pending := s.dr (device devId)

/-- The bytes that came in at a USART: those handled and the one that waits. -/
def handled (u : Usart) (s : Stm32Rx) : List (BitVec 8) :=
  (s.rxBuf (irqBuf u)).arrived.map Prod.fst ++ (s.dr u).toList

/-! ## What a step does -/

/-- The steps by what they do to the receivers. -/
inductive Step (s : Stm32Rx) : Event → Stm32Rx → Prop
  | received (u : Usart) (data : BitVec 8) : s.dr u = none → s.rxne u = true →
      Step s (.receive u data) (irqHandler u { s with dr := Function.update s.dr u (some data) })
  | held (u : Usart) (data : BitVec 8) : s.dr u = none → s.rxne u ≠ true →
      Step s (.receive u data) { s with dr := Function.update s.dr u (some data) }
  | stays {e : Event} : (∀ u, e.data u = []) → Step s e s
  | called {e : Event} (devId : Fin 3) (main : Stm32Main) : (∀ u, e.data u = []) → s.main = .idle →
      (∀ u, main.masks u = decide (device devId = u)) → (∀ d, main.result d = none) →
        Step s e { rxneOff (device devId) s with main := main }
  | decided (devId : Fin 3) : s.main = .getc devId →
      Step s .main { (getcBody devId s).1 with main := .getcOn devId (getcBody devId s).2 }
  | switchedOn (devId : Fin 3) (main : Stm32Main) :
      (∀ u, s.main.masks u = decide (device devId = u)) → (∀ u, main.masks u = false) →
      (∀ d, main.result d = s.main.result d) →
        Step s .main { rxneOn (device devId) s with main := main }
  | wentOn (main : Stm32Main) (returns : Fin 3 → List (BitVec 16)) :
      (∀ u, main.masks u = s.main.masks u) → (∀ d, main.result d = none) →
      (∀ d, returns d = s.returns d ++ (s.main.result d).toList) →
        Step s .main { s with main := main, returns := returns }

variable {s s' : Stm32Rx} {e : Event}

theorem step_of_next (hnext : s.next e = some s') : Step s e s' := by
  cases e with
  | receive u data =>
    rw [Stm32Rx.next] at hnext
    split at hnext
    · rename_i hnone
      dsimp only at hnext
      split at hnext
      · rename_i hon
        exact Option.some.inj hnext ▸ .received u data hnone hon
      · rename_i hoff
        exact Option.some.inj hnext ▸ .held u data hnone hoff
    · cases hnext
  | getc devId | waiting devId =>
    rw [Stm32Rx.next] at hnext
    split at hnext
    · rename_i hmain
      split at hnext
      · exact Option.some.inj hnext ▸
          .called _ _ (fun _ ↦ rfl) hmain (fun _ ↦ rfl) fun _ ↦ rfl
      · exact Option.some.inj hnext ▸ .stays fun _ ↦ rfl
    · cases hnext
  | main =>
    cases hmain : s.main with
    | idle => simp [Stm32Rx.next, hmain] at hnext
    | getc devId =>
      simp only [Stm32Rx.next, hmain, Option.some.injEq] at hnext
      exact hnext ▸ .decided devId hmain
    | getcOn devId ret | waitingOn devId ret =>
      simp only [Stm32Rx.next, hmain, Option.some.injEq] at hnext
      exact hnext ▸ .switchedOn devId _ (fun _ ↦ by rw [hmain]; rfl) (fun _ ↦ rfl)
        fun _ ↦ by rw [hmain]; rfl
    | getcRet devId ret =>
      simp only [Stm32Rx.next, hmain, Option.some.injEq] at hnext
      refine hnext ▸ .wentOn _ _ (fun _ ↦ by rw [hmain]; rfl) (fun _ ↦ rfl) fun d ↦ ?_
      rw [hmain]
      by_cases hd : devId = d
      · subst hd
        simp [Stm32Main.result]
      · simp [Stm32Main.result, hd, Function.update_of_ne (Ne.symm hd)]
    | waiting devId | waitingRet devId =>
      simp only [Stm32Rx.next, hmain, Option.some.injEq] at hnext
      exact hnext ▸ .wentOn _ s.returns (fun _ ↦ by rw [hmain]; rfl) (fun _ ↦ rfl)
        fun d ↦ by simp [hmain, Stm32Main.result]

/-- What a handler does, on every buffer. -/
theorem irqHandler_spec (u : Usart) (s : Stm32Rx) :
    (irqHandler u s).main = s.main ∧ (irqHandler u s).returns = s.returns ∧
      (irqHandler u s).rxne = s.rxne ∧ (irqHandler u s).dr = Function.update s.dr u none ∧
      ∀ n, (irqHandler u s).rxBuf n = s.rxBuf n ∨
        ∃ ch, (irqHandler u s).rxBuf n = (s.rxBuf n).receive ch := by
  rw [irqHandler_eq, usartIrqHandler]
  split
  · rename_i ch _
    refine ⟨rfl, rfl, rfl, rfl, fun n ↦ ?_⟩
    by_cases hn : n = irqBuf u
    · subst hn
      exact .inr ⟨ch, Function.update_self ..⟩
    · exact .inl (Function.update_of_ne hn ..)
  · rename_i hnone
    exact ⟨rfl, rfl, rfl, (Function.update_eq_self_iff.mpr hnone.symm).symm, fun n ↦ .inl rfl⟩

theorem rxBuf_getcBody (s : Stm32Rx) (devId : Fin 3) (n : UartBuf) :
    (getcBody devId s).1.rxBuf n
      = if n = irqBuf (device devId) then (s.rxBuf n).getc.1 else s.rxBuf n := by
  simp only [getcBody, deviceBuf_eq]
  split
  · rename_i hn
    rw [hn, Function.update_self]
  · rename_i hn
    rw [Function.update_of_ne hn]

/-- What a step does to a buffer: an interrupt, a `getc`, or nothing. -/
theorem Step.queue_cases (h : Step s e s') (n : UartBuf) :
    (∃ ch, s'.rxBuf n = (s.rxBuf n).receive ch) ∨ s'.rxBuf n = (s.rxBuf n).getc.1 ∨
      s'.rxBuf n = s.rxBuf n := by
  have hirq (t : Stm32Rx) (u : Usart) (ht : t.rxBuf = s.rxBuf) :
      (∃ ch, (irqHandler u t).rxBuf n = (s.rxBuf n).receive ch) ∨
        (irqHandler u t).rxBuf n = (s.rxBuf n).getc.1 ∨
        (irqHandler u t).rxBuf n = s.rxBuf n := by
    rcases (irqHandler_spec u t).2.2.2.2 n with heq | ⟨ch, heq⟩
    · exact .inr (.inr (by rw [heq, ht]))
    · exact .inl ⟨ch, by rw [heq, ht]⟩
  cases h with
  | received => exact hirq _ _ rfl
  | decided devId =>
    simp only [rxBuf_getcBody]
    split
    · exact .inr (.inl rfl)
    · exact .inr (.inr rfl)
  | switchedOn => exact hirq _ _ rfl
  | _ => exact .inr (.inr rfl)

/-- A call decides in one step. -/
theorem Step.result_cases (h : Step s e s') {devId : Fin 3} (hnone : s.main.result devId = none)
    {ret : BitVec 16} (hret : s'.main.result devId = some ret) :
    ret = (s.rxBuf (irqBuf (device devId))).getc.2 := by
  cases h with
  | received u data =>
    rw [(irqHandler_spec _ _).1] at hret
    cases hnone.symm.trans hret
  | called _ _ _ _ _ hresult => cases (hresult devId).symm.trans hret
  | decided d =>
    simp only [Stm32Main.result] at hret
    split at hret
    · rename_i hd
      subst hd
      simp only [getcBody, deviceBuf_eq] at hret
      exact (Option.some.inj hret).symm
    · cases hret
  | switchedOn _ _ _ _ hresult => cases ((hresult devId).trans hnone).symm.trans hret
  | wentOn _ _ _ hresult => cases (hresult devId).symm.trans hret
  | _ => cases hnone.symm.trans hret

/-! ## The invariant -/

structure Inv (s : Stm32Rx) : Prop where
  /-- The queues have 64 slots and are in order. -/
  ok : ∀ n, (s.rxBuf n).Ok 6
  /-- What was taken from a queue is what the calls for its device have returned, or will. -/
  returned : ∀ devId, (s.rxBuf (irqBuf (device devId))).taken.map (·.setWidth 16)
    = (s.returns devId ++ (s.main.result devId).toList).filter (· ≠ serialNoData)
  /-- An interrupt is masked exactly while the program reads. -/
  rxne : ∀ u, s.rxne u = !s.main.masks u
  /-- While it is not, no byte waits. -/
  dr : ∀ u, s.rxne u = true → s.dr u = none

theorem inv_start : Inv stm32RxStart where
  ok _ := RxQueue.ok_declare (k := 6) (by decide) (by decide)
  returned _ := rfl
  rxne _ := rfl
  dr _ _ := rfl

theorem irqHandler_main (u : Usart) (s : Stm32Rx) :
    { irqHandler u s with main := s.main } = irqHandler u s := by
  rw [irqHandler_eq, usartIrqHandler]
  split <;> rfl

theorem taken_irqHandler (u : Usart) (s : Stm32Rx) (n : UartBuf) :
    ((irqHandler u s).rxBuf n).taken = (s.rxBuf n).taken := by
  rcases (irqHandler_spec u s).2.2.2.2 n with heq | ⟨ch, heq⟩ <;> simp [heq]

theorem ok_irqHandler (h : ∀ n, (s.rxBuf n).Ok 6) (u : Usart) (n : UartBuf) :
    ((irqHandler u s).rxBuf n).Ok 6 := by
  rcases (irqHandler_spec u s).2.2.2.2 n with heq | ⟨ch, heq⟩
  · rw [heq]
    exact h n
  · rw [heq]
    exact (h n).receive ch

/-- A state with no byte waiting at an enabled USART other than `u`, after the interrupt of `u`. -/
theorem inv_irqHandler {u : Usart} {main : Stm32Main} (hok : ∀ n, (s.rxBuf n).Ok 6)
    (hret : ∀ devId, (s.rxBuf (irqBuf (device devId))).taken.map (·.setWidth 16)
      = (s.returns devId ++ (main.result devId).toList).filter (· ≠ serialNoData))
    (hrxne : ∀ v, s.rxne v = !main.masks v) (hdr : ∀ v ≠ u, s.rxne v = true → s.dr v = none) :
    Inv { irqHandler u s with main := main } := by
  obtain ⟨-, hreturns, hrxne', hdr', -⟩ := irqHandler_spec u s
  refine ⟨ok_irqHandler hok u, fun devId ↦ ?_, fun v ↦ ?_, fun v hv ↦ ?_⟩
  · simp only [taken_irqHandler, hreturns, hret]
  · simp only [hrxne', hrxne]
  · simp only [hrxne', hdr'] at hv ⊢
    by_cases hvu : v = u
    · rw [hvu, Function.update_self]
    · rw [Function.update_of_ne hvu]
      exact hdr v hvu hv

/-- A call starts. -/
theorem Inv.rxneOff (h : Inv s) (hmain : s.main = .idle) {devId : Fin 3} {main : Stm32Main}
    (hmasks : ∀ u, main.masks u = decide (device devId = u))
    (hresult : ∀ d, main.result d = none) :
    Inv { rxneOff (device devId) s with main := main } := by
  refine ⟨h.ok, fun d ↦ ?_, fun u ↦ ?_, fun u hu ↦ ?_⟩
  · have hret := h.returned d
    rw [hmain] at hret
    simp only [Stm32Rx.rxneOff, hresult]
    exact hret
  · have hu := h.rxne u
    rw [hmain] at hu
    simp only [Stm32Rx.rxneOff, hmasks]
    by_cases hdev : device devId = u
    · subst hdev
      simp
    · rw [Function.update_of_ne (Ne.symm hdev), hu]
      simp [hdev, Stm32Main.masks]
  · simp only [Stm32Rx.rxneOff] at hu ⊢
    by_cases hdev : u = device devId
    · rw [hdev, Function.update_self] at hu
      cases hu
    · rw [Function.update_of_ne hdev] at hu
      exact h.dr u hu

/-- A call switches its interrupt on again. -/
theorem Inv.rxneOn (h : Inv s) {devId : Fin 3} {main : Stm32Main}
    (hmain : ∀ u, s.main.masks u = decide (device devId = u)) (hmasks : ∀ u, main.masks u = false)
    (hresult : ∀ d, main.result d = s.main.result d) :
    Inv { rxneOn (device devId) s with main := main } := by
  refine inv_irqHandler h.ok (fun d ↦ ?_) (fun v ↦ ?_) fun v hv hon ↦ ?_
  · rw [hresult]
    exact h.returned d
  · simp only [hmasks]
    by_cases hdev : v = device devId
    · rw [hdev, Function.update_self]
      rfl
    · rw [Function.update_of_ne hdev, h.rxne, hmain, decide_eq_false (Ne.symm hdev)]
  · simp only [Function.update_of_ne hv] at hon
    exact h.dr v hon

theorem inv_getcBody (h : Inv s) {devId : Fin 3} (hmain : s.main = .getc devId) :
    Inv { (getcBody devId s).1 with main := .getcOn devId (getcBody devId s).2 } := by
  simp only [getcBody, deviceBuf_eq]
  refine ⟨fun n ↦ ?_, fun d ↦ ?_, fun u ↦ ?_, h.dr⟩
  · by_cases hn : n = irqBuf (device devId)
    · subst hn
      simpa only [Function.update_self] using (h.ok _).getc
    · simpa only [Function.update_of_ne hn] using h.ok n
  · have hret := h.returned d
    rw [hmain] at hret
    simp only [Stm32Main.result, Option.toList_none, List.append_nil] at hret ⊢
    by_cases hd : devId = d
    · subst hd
      rw [Function.update_self, if_pos rfl]
      exact RxQueue.returns_getc (h.ok _) hret
    · -- Another device has another buffer.
      have hbuf := irqBuf_injective.ne (device_injective.ne (Ne.symm hd))
      rw [Function.update_of_ne hbuf, if_neg hd, Option.toList_none, List.append_nil]
      exact hret
  · have hu := h.rxne u
    rw [hmain] at hu
    exact hu

/-- **One step.** -/
theorem Inv.step (h : Inv s) (hstep : Step s e s') : Inv s' := by
  have hother {u : Usart} {data : BitVec 8} (v : Usart) (hv : v ≠ u) (hon : s.rxne v = true) :
      Function.update s.dr u (some data) v = none := by
    rw [Function.update_of_ne hv]
    exact h.dr v hon
  cases hstep with
  | received u data =>
    -- Between the arrival and the handler only the data register of `u` is filled.
    rw [← irqHandler_main]
    exact inv_irqHandler (s := { s with dr := Function.update s.dr u (some data) })
      h.ok h.returned h.rxne hother
  | held u data _ hoff =>
    refine ⟨h.ok, h.returned, h.rxne, fun v hon ↦ hother v ?_ hon⟩
    rintro rfl
    exact hoff hon
  | stays => exact h
  | called devId main _ hidle hmasks hresult => exact h.rxneOff hidle hmasks hresult
  | decided devId hmain => exact inv_getcBody h hmain
  | switchedOn devId main hmain hmasks hresult => exact h.rxneOn hmain hmasks hresult
  | wentOn main returns hmasks hresult hreturns =>
    refine ⟨h.ok, fun d ↦ ?_, fun u ↦ by simp only [h.rxne, hmasks], h.dr⟩
    simp only [hresult, hreturns, Option.toList_none, List.append_nil, h.returned]

/-- A handler only moves a byte from the data register to its buffer. -/
theorem handled_irqHandler (u v : Usart) (s : Stm32Rx) :
    handled v (irqHandler u s) = handled v s := by
  rw [irqHandler_eq, usartIrqHandler]
  split
  · rename_i ch hch
    by_cases hv : v = u
    · subst hv
      simp [handled, RxQueue.arrived_receive, hch]
    · simp [handled, Function.update_of_ne hv, Function.update_of_ne (irqBuf_injective.ne hv)]
  · rfl

theorem Step.handled (hstep : Step s e s') (u : Usart) :
    Stm32Rx.handled u s' = Stm32Rx.handled u s ++ e.data u := by
  have hdr {v : Usart} {data : BitVec 8} (hnone : s.dr v = none) :
      Stm32Rx.handled u { s with dr := Function.update s.dr v (some data) }
        = Stm32Rx.handled u s ++ Event.data u (.receive v data) := by
    by_cases hv : v = u
    · subst hv
      simp [Stm32Rx.handled, hnone, Event.data]
    · simp [Stm32Rx.handled, Function.update_of_ne (Ne.symm hv), Event.data, hv]
  cases hstep with
  | received v data hnone =>
    rw [handled_irqHandler]
    exact hdr hnone
  | held v data hnone => exact hdr hnone
  | stays hdata => rw [hdata, List.append_nil]
  | called _ _ hdata =>
    rw [hdata, List.append_nil]
    rfl
  | decided devId =>
    have hdr' : (getcBody devId s).1.dr = s.dr := by rw [getcBody, deviceBuf_eq]
    simp only [Stm32Rx.handled, rxBuf_getcBody, hdr', Event.data, List.append_nil]
    split
    · rw [RxQueue.arrived_getc]
    · rfl
  | switchedOn devId main =>
    refine Eq.trans ?_ (List.append_nil _).symm
    exact handled_irqHandler _ u _
  | wentOn => exact (List.append_nil _).symm

/-- **Runs.** -/
theorem inv_of_run {events : List Event} (h : run stm32RxStart events = some s) :
    Inv s ∧ ∀ u, handled u s = events.flatMap (Event.data u) := by
  have hinv : Inv s :=
    foldlM_invariant (fun _ _ _ hs hnext ↦ hs.step (step_of_next hnext)) inv_start h
  refine ⟨hinv, fun u ↦ ?_⟩
  rw [List.flatMap_eq_foldl]
  exact foldlM_rel (R := fun s received ↦ handled u s = received)
    (fun s received e s' hs hnext ↦ by rw [(step_of_next hnext).handled, hs]) events rfl h

/-! ## The law -/

theorem Inv.law (h : Inv s) (devId : Fin 3) :
    RxLaw 6 Stm32Rx.next (port devId) (handled (device devId) s) s where
  handled := rfl
  in_order := by
    simp only [port, (h.ok _).kept_eq, List.map_append, h.returned]
  dropped_full e s' hnext hdrop := by
    rcases (step_of_next hnext).queue_cases (irqBuf (device devId)) with ⟨ch, heq⟩ | heq | heq
    · exact RxQueue.length_of_dropped (h.ok _) ch (by simpa only [port, heq] using hdrop)
    · exact absurd (by simp only [port, heq, RxQueue.dropped_getc]) hdrop
    · exact absurd (by simp only [port, heq]) hdrop
  noData_empty e s' hnext hnone hret := by
    have hget := (step_of_next hnext).result_cases hnone hret
    rcases RxQueue.getc_cases (h.ok (irqBuf (device devId))) with ⟨hnil, -⟩ | ⟨data, -, hdata, -⟩
    · exact hnil
    · exact absurd (hdata.symm.trans hget.symm) (RxQueue.setWidth_ne_serialNoData data)
  enabled_of_idle hidle := by
    have hon := h.rxne (device devId)
    have hmask : s.main.masks (device devId) = false := by
      simp only [port, decide_eq_true_eq] at hidle
      cases hmain : s.main <;>
        simp_all [Stm32Main.masks, Stm32Main.devId, device_injective.eq_iff]
    rw [hmask, Bool.not_false] at hon
    exact ⟨hon, h.dr _ hon⟩

end Stm32Rx

end Martink
