import Martink.Arch.Time
import Martink.Base.Outcome

/-!
# Pulse capture and pulse trains on the STM32

`arm/stm32/pwm.c`. A timer has four channels. A channel set up by `pwm_configure_capture` measures
pulses: its interrupt takes the value of the capture register at a rising edge, turns the polarity
of the channel around, and takes the value at the falling edge. The update interrupt of the timer
resets a channel that has seen no edge for 100 ms. A channel in PPM mode instead sends a train of
pulses.

A row of `Inputs` and of `Outputs` is kept together with the registers of its timer, and each
channel has a history of what happened to it. Reading past a pulse buffer is undefined and ends in
`none`.

The handlers have one priority and do not interrupt each other. A call of a handler is given the
contents of the status register and the capture registers on its entry and the readings of the clock
that it makes; flags that are raised later belong to the next call.
-/

namespace Martink

/-! ## Interrupt flags -/

def itUpdate : BitVec 16 := 0x0001

def itCc1 : BitVec 16 := 0x0002

def itCc2 : BitVec 16 := 0x0004

def itCc3 : BitVec 16 := 0x0008

def itCc4 : BitVec 16 := 0x0010

/-- The flags of the four capture registers. -/
def itCc : Fin 4 → BitVec 16 := ![itCc1, itCc2, itCc3, itCc4]

/-- The table `_int_ids`. -/
def intIds : Fin 4 → BitVec 16 := ![itCc1, itCc2, itCc2, itCc3]

/-! ## State -/

inductive IcPolarity where
  | rising
  | falling
  deriving DecidableEq

/-- The fields of `TIM_ICInitTypeDef` besides the channel. -/
structure IcConfig where
  /-- The edge that is captured. -/
  polarity : IcPolarity
  /-- The input that is captured. -/
  selection : BitVec 16
  /-- How many edges make a capture. -/
  prescaler : BitVec 16
  /-- The filter of the input. -/
  filter : BitVec 16

/-- `TIM_ICStructInit`. -/
def icStructInit : IcConfig where
  polarity := .rising
  selection := 0x0001
  prescaler := 0x0000
  filter := 0x00

inductive IcState where
  | disabled
  | rise
  | fall
  deriving DecidableEq

/-- `struct PWM_State`. -/
structure PwmInput where
  /-- The edge that is waited for. -/
  state : IcState
  /-- The capture of the rising edge. -/
  rise : BitVec 32
  /-- The capture of the falling edge. -/
  fall : BitVec 32
  /-- The width last measured. -/
  capture : BitVec 32
  /-- When the width expires. -/
  us : ℤ
  /-- The width without a signal. -/
  defValue : BitVec 32

inductive ChannelMode where
  | disabled
  | pwmOutput
  | pwmInput
  | ppmOutput
  deriving DecidableEq

/-- `struct channel_state`, with the array that `ppm_buffer` points to. -/
structure ChannelState where
  /-- What the channel is used for. -/
  mode : ChannelMode
  /-- The entries of the train, if there is a buffer. -/
  ppmBuffer : Option (List (BitVec 16))
  /-- The spacing of the train. -/
  ppmSpacing : BitVec 16
  /-- How many entries it has. -/
  ppmCount : BitVec 8
  /-- The entry whose turn it is. -/
  ppmCurrent : BitVec 8

/-- A capture that was serviced, under the polarity programmed for the channel. -/
structure IcEdge where
  /-- The polarity that was programmed. -/
  polarity : IcPolarity
  /-- The value of the capture register. -/
  value : BitVec 16
  /-- The period at the time. -/
  arr : BitVec 16
  /-- The time of the call. -/
  now : ℤ

inductive IcEvent where
  | configured (defValue : BitVec 32)
  | edge (e : IcEdge)
  | expired (now : ℤ)

structure PwmChan where
  /-- The entry of `Inputs`. -/
  input : PwmInput
  /-- The entry of `Outputs`. -/
  output : ChannelState
  /-- The capture or compare register. -/
  ccr : BitVec 16
  /-- The configuration of the capture. -/
  ic : IcConfig
  /-- The history, the latest event first. -/
  log : List IcEvent

structure PwmTimer where
  /-- The flags. -/
  sr : BitVec 16
  /-- The interrupts that are enabled. -/
  dier : BitVec 16
  /-- The period. -/
  arr : BitVec 16
  /-- The four channels. -/
  chan : Fin 4 → PwmChan

/-- `TIM_GetITStatus`. -/
def PwmTimer.itStatus (t : PwmTimer) (it : BitVec 16) : Bool :=
  t.sr &&& it ≠ 0 ∧ t.dier &&& it ≠ 0

/-- `TIM_ClearITPendingBit`. -/
def PwmTimer.clearPending (t : PwmTimer) (it : BitVec 16) : PwmTimer :=
  { t with sr := t.sr &&& ~~~it }

/-- What a call of a handler finds. -/
structure TimIrq where
  /-- The flags that are pending. -/
  sr : BitVec 16
  /-- The capture registers. -/
  ccr : Fin 4 → BitVec 16
  /-- The time when the first loop looks at a channel. -/
  captureNow : Fin 4 → ℤ
  /-- The time when the second loop does. -/
  updateNow : Fin 4 → ℤ

/-! ## The handler -/

/-- The width of a pulse between two values of a counter that runs up to `arr`. -/
def captureWidth (arr : BitVec 16) (rise fall : BitVec 32) : BitVec 32 :=
  if rise < fall then fall - rise else (arr.setWidth 32 - rise) + fall

/-- A capture is serviced. -/
def PwmChan.captured (now : ℤ) (arr : BitVec 16) (ch : PwmChan) : PwmChan :=
  let current : BitVec 32 := ch.ccr.setWidth 32
  let input := { ch.input with us := now }
  let ch := { ch with log := .edge ⟨ch.ic.polarity, ch.ccr, arr, now⟩ :: ch.log }
  match input.state with
  | .rise =>
    { ch with
      input := { input with rise := current, state := .fall }
      ic := { icStructInit with polarity := .falling } }
  | .fall =>
    { ch with
      input := { input with
        fall := current
        capture := captureWidth arr input.rise current
        state := .rise }
      ic := { icStructInit with polarity := .rising } }
  | .disabled => { ch with input := input }

/-- The first loop of `TIM_IRQHandler`. -/
def PwmTimer.captureStep (now : ℤ) (t : PwmTimer) (c : Fin 4) : PwmTimer :=
  if t.itStatus (intIds c) then
    let t := t.clearPending (intIds c)
    -- A channel that sends pulses has its flag cleared and nothing else.
    if (t.chan c).output.mode = .ppmOutput then t
    else { t with chan := Function.update t.chan c ((t.chan c).captured now t.arr) }
  else t

/-- A channel is reset after a silence. -/
def PwmChan.timedOut (now : ℤ) (ch : PwmChan) : PwmChan :=
  { ch with
    input := { ch.input with rise := 0, fall := 0, capture := ch.input.defValue, state := .rise }
    ic := { icStructInit with polarity := .rising }
    log := .expired now :: ch.log }

/-- The second loop. -/
def PwmTimer.updateStep (now : ℤ) (t : PwmTimer) (c : Fin 4) : Option PwmTimer :=
  let ch := t.chan c
  if ch.output.mode = .ppmOutput then do
    let current := if ch.output.ppmCurrent = ch.output.ppmCount then 0 else ch.output.ppmCurrent
    -- The count is not checked against the length of the buffer.
    let width ← ch.output.ppmBuffer.bind fun buffer ↦ buffer[current.toNat]?
    return { t with
      arr := width
      chan := Function.update t.chan c { ch with
        ccr := width - ch.output.ppmSpacing
        output := { ch.output with ppmCurrent := current + 1 } } }
  else if ch.input.state = .disabled then some t
  else if timestampExpired now (ch.input.us + 100000) then
    some { t with chan := Function.update t.chan c (ch.timedOut now) }
  else some t

/-- The registers on entry. -/
def PwmTimer.load (t : PwmTimer) (i : TimIrq) : PwmTimer :=
  { t with sr := i.sr, chan := fun c ↦ { t.chan c with ccr := i.ccr c } }

def PwmTimer.captureEvents (i : TimIrq) (t : PwmTimer) : PwmTimer :=
  (List.finRange 4).foldl (fun t c ↦ t.captureStep (i.captureNow c) c) t

def PwmTimer.updateEvent (i : TimIrq) (t : PwmTimer) : Option PwmTimer :=
  if t.itStatus itUpdate then
    (List.finRange 4).foldlM (fun t c ↦ t.updateStep (i.updateNow c) c) (t.clearPending itUpdate)
  else some t

/-- `TIM_IRQHandler` on the row of a timer. -/
def PwmTimer.timIrqHandler (i : TimIrq) (t : PwmTimer) : Option PwmTimer :=
  ((t.load i).captureEvents i).updateEvent i

/-! ## Setting up a channel -/

/-- The members `tim`, whether it is there, and `irq` of the table `_timers`. -/
def pwmTimers : Fin 8 → Bool × ℕ
  | 0 => (true, 27)
  | 1 => (true, 28)
  | 2 => (true, 29)
  | 3 => (true, 30)
  | 4 => (true, 0)
  | 5 => (false, 0)
  | 6 => (false, 0)
  | 7 => (true, 0)

def timId (chan : BitVec 8) : Fin 8 :=
  ⟨((chan >>> 2) &&& 0x7).toNat, Nat.and_lt_two_pow (n := 3) _ (by decide)⟩

def chanId (chan : BitVec 8) : Fin 4 :=
  ⟨(chan &&& 0x3).toNat, Nat.and_lt_two_pow (n := 2) _ (by decide)⟩

/-- `pwm_configure_capture` on its channel. -/
def PwmChan.configured (defValue : BitVec 32) (ch : PwmChan) : PwmChan :=
  { ch with
    input := { ch.input with
      rise := 0, fall := 0, capture := 0, defValue := defValue, state := .rise }
    ic := ⟨.rising, 0x0001, 0x0000, 0x7⟩
    log := .configured defValue :: ch.log }

/-- Setting the time base raises the update flag. -/
def PwmTimer.configureCapture (t : PwmTimer) (c : Fin 4) (defValue : BitVec 32) : PwmTimer where
  sr := t.sr ||| itUpdate
  dier := t.dier ||| intIds c ||| itUpdate
  arr := 4000
  chan := Function.update t.chan c ((t.chan c).configured defValue)

/-- The rows of `Inputs` and `Outputs`, with their timers. -/
abbrev Stm32Pwm : Type := Fin 8 → PwmTimer

def pwmConfigureCapture (s : Stm32Pwm) (chan : BitVec 8) (defValue : BitVec 32) : Stm32Pwm :=
  if (pwmTimers (timId chan)).1 = false ∨ (pwmTimers (timId chan)).2 = 0 then s
  else Function.update s (timId chan) ((s (timId chan)).configureCapture (chanId chan) defValue)

/-- The interrupt vectors that call `TIM_IRQHandler`. -/
inductive TimVector where
  | tim1Up
  | tim1Cc
  | tim2
  | tim3
  | tim4

def TimVector.timer : TimVector → Fin 8
  | .tim1Up => 0
  | .tim1Cc => 0
  | .tim2 => 1
  | .tim3 => 2
  | .tim4 => 3

inductive PwmEvent where
  | configureCapture (chan : BitVec 8) (defValue : BitVec 32)
  | irq (v : TimVector) (i : TimIrq)

/-- A channel is set up, unless its timer is not there or has no interrupt. -/
def PwmEvent.Configures (t : Fin 8) (c : Fin 4) : PwmEvent → Prop
  | .configureCapture chan _ =>
    timId chan = t ∧ chanId chan = c ∧ (pwmTimers t).1 = true ∧ (pwmTimers t).2 ≠ 0
  | .irq _ _ => False

namespace Stm32Pwm

/-- The tables and the timers after reset. -/
def boot : Stm32Pwm := fun _ ↦
  { sr := 0
    dier := 0
    arr := 0xffff
    chan := fun _ ↦
      { input := ⟨.disabled, 0, 0, 0, 0, 0⟩
        output := ⟨.disabled, none, 0, 0, 0⟩
        ccr := 0
        ic := ⟨.rising, 0, 0, 0⟩
        log := [] } }

def next (s : Stm32Pwm) : PwmEvent → Option Stm32Pwm
  | .configureCapture chan defValue => some (pwmConfigureCapture s chan defValue)
  | .irq v i => ((s v.timer).timIrqHandler i).map (Function.update s v.timer)

def run (s : Stm32Pwm) (events : List PwmEvent) : Option Stm32Pwm := events.foldlM next s

end Stm32Pwm

end Martink
