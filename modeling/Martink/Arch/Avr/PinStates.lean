import Martink.Arch.Avr.Gpio

/-!
# Edges on the pins of the AVR

The three pin change interrupts share one handler. It reads the ports B, C and D, compares them with
what it read the time before, and records in `gPinState` which pins went high or low, and when.
`gpio_get_status` hands the record of a pin out and forgets the direction.

## The specification

A `History` is what has happened so far, the latest event first: samples of the three ports and
readings of pins. The edges of a pin are read off its levels in successive samples; before the first
one it is high. `get_status_spec` says that the record of a pin is the latest of its edges.
-/

namespace Martink

def gpChanged : BitVec 8 := 1 <<< 0
def gpWentHigh : BitVec 8 := gpChanged ||| (1 <<< 1)
def gpWentLow : BitVec 8 := gpChanged ||| (1 <<< 2)

/-- What a status can say. -/
inductive PinEdge
  | none | high | low
  deriving DecidableEq

def PinEdge.status : PinEdge → BitVec 8
  | .none => 0
  | .high => gpWentHigh
  | .low => gpWentLow

/-! ## The records -/

structure PinState where
  /-- The time of the last rising edge. -/
  tUp : ℤ
  /-- The time of the last falling edge. -/
  tDown : ℤ
  /-- The edges since the last call, as bits. -/
  status : BitVec 8

/-- `gPinState` and the `prev` of the handler. -/
structure PinStates where
  /-- The entries of the table, by their indices. -/
  gPinState : ℕ → PinState
  /-- The levels that the handler saw last, for each port. -/
  prev : Fin 3 → BitVec 8

/-- The records at the start: no edges, and ports of ones. -/
def bootPinStates : PinStates := ⟨fun _ ↦ ⟨0, 0, 0⟩, fun _ ↦ 0xff⟩

def PinState.clearStatus (st : PinState) : PinState := { st with status := 0 }

/-- The new records, the status, and the times `ch_up` and `ch_down`. -/
def gpioGetStatus (pin : ℕ) (s : PinStates) : PinStates × BitVec 8 × ℤ × ℤ :=
  let pin := if pin < gpioPb0 then gpioPb0 else if pin > gpioPd7 then gpioPd7 else pin
  let i := pin - gpioPb0
  let st := s.gPinState i
  ({ s with gPinState := Function.update s.gPinState i st.clearStatus }, st.status,
    st.tUp, st.tDown)

/-- The body of the loops of `PCINT_vect`, for one bit of one port. -/
def recordEdge (time : ℤ) (current changed : BitVec 8) (bit : ℕ) (st : PinState) : PinState :=
  if changed &&& bv bit ≠ 0 then
    if current &&& bv bit ≠ 0 then { st with tUp := time, status := gpWentHigh }
    else { st with tDown := time, status := gpWentLow }
  else st

/-- The inner loop, on the records and the running `pin_id`. -/
def scanPort (time : ℤ) (current changed : BitVec 8) (s : (ℕ → PinState) × ℕ) :
    (ℕ → PinState) × ℕ :=
  (List.range 8).foldl
    (fun s bit ↦
      (Function.update s.1 s.2 (recordEdge time current changed bit (s.1 s.2)), s.2 + 1)) s

/-- `PCINT_vect`, at the time and with the ports that it reads. -/
def pcintVect (time : ℤ) (current : Fin 3 → BitVec 8) (s : PinStates) : PinStates where
  gPinState := ((List.finRange 3).foldl
    (fun st reg ↦ scanPort time (current reg) (s.prev reg ^^^ current reg) st) (s.gPinState, 0)).1
  prev := current

/-! ### What one interrupt does -/

/-- Visiting `n` places from `base` on. -/
theorem foldl_update_range {α : Type*} (f : ℕ → α → α) (n : ℕ) (g : ℕ → α) (base : ℕ) :
    (List.range n).foldl (fun s i ↦ (Function.update s.1 s.2 (f i (s.1 s.2)), s.2 + 1)) (g, base)
      = (fun i ↦ if base ≤ i ∧ i < base + n then f (i - base) (g i) else g i, base + n) := by
  induction n with
  | zero =>
    refine Prod.ext (funext fun i ↦ ?_) rfl
    exact (if_neg (by omega)).symm
  | succ n ih =>
    rw [List.range_succ, List.foldl_append, ih, List.foldl_cons, List.foldl_nil]
    refine Prod.ext (funext fun i ↦ ?_) (add_assoc base n 1)
    dsimp only
    by_cases hi : i = base + n
    · subst hi
      simp
    · rw [Function.update_of_ne hi]
      exact if_congr (by omega) rfl rfl

theorem scanPort_eq (time : ℤ) (current changed : BitVec 8) (g : ℕ → PinState) (base : ℕ) :
    scanPort time current changed (g, base)
      = (fun i ↦ if base ≤ i ∧ i < base + 8 then recordEdge time current changed (i - base) (g i)
          else g i, base + 8) :=
  foldl_update_range (recordEdge time current changed) 8 g base

/-- A pin of the ports B, C and D. -/
structure Pin where
  /-- The port, from B on. -/
  port : Fin 3
  /-- The bit in the registers of the port. -/
  bit : Fin 8
  deriving DecidableEq

namespace Pin

def id (p : Pin) : ℕ := gpioPb0 + (8 * p.port + p.bit)

theorem id_range (p : Pin) : gpioPb0 ≤ p.id ∧ p.id ≤ gpioPd7 := by
  have := p.port.isLt
  have := p.bit.isLt
  simp only [id, gpioPb0, gpioPd7]
  omega

/-- The place of the pin in `gPinState`. -/
def index (p : Pin) : ℕ := 8 * p.port + p.bit

theorem index_inj {p q : Pin} : p.index = q.index ↔ p = q := by
  constructor
  · intro h
    have := p.bit.isLt
    have := q.bit.isLt
    simp only [index] at h
    have hport : p.port = q.port := Fin.ext (by omega)
    have hbit : p.bit = q.bit := Fin.ext (by omega)
    cases p
    cases q
    simp_all
  · rintro rfl
    rfl

end Pin

theorem gpioGetStatus_pin (p : Pin) (s : PinStates) :
    gpioGetStatus p.id s =
      let st := s.gPinState p.index
      ({ s with gPinState := Function.update s.gPinState p.index st.clearStatus },
        st.status, st.tUp, st.tDown) := by
  have h := p.id_range
  have hindex : p.id - gpioPb0 = p.index := by simp only [Pin.id, Pin.index]; omega
  simp only [gpioGetStatus, if_neg (not_lt.mpr h.1), if_neg (not_lt.mpr h.2), hindex]

/-- The interrupt records the edge of each pin, if it has one. -/
theorem pcintVect_pin (time : ℤ) (current : Fin 3 → BitVec 8) (s : PinStates) (p : Pin) :
    (pcintVect time current s).gPinState p.index
      = recordEdge time (current p.port) (s.prev p.port ^^^ current p.port) p.bit
          (s.gPinState p.index) := by
  obtain ⟨port, bit⟩ := p
  have hbit := bit.isLt
  rw [pcintVect, show List.finRange 3 = [0, 1, 2] from rfl]
  simp only [List.foldl_cons, List.foldl_nil, scanPort_eq, Pin.index]
  -- of the three scans, only that of the pin's own port visits its place
  fin_cases port
  · rw [if_neg, if_neg, if_pos] <;> simp
    omega
  · rw [if_neg, if_pos, if_neg] <;> simp <;> omega
  · rw [if_pos, if_neg, if_neg] <;> simp <;> omega

/-! ## Histories -/

namespace PinStates

inductive Event
  | sample (time : ℤ) (ports : Fin 3 → BitVec 8)
  | getStatus (p : Pin)

/-- What has happened, the latest event first. -/
abbrev History := List Event

def step (s : PinStates) : Event → PinStates
  | .sample time ports => pcintVect time ports s
  | .getStatus p => (gpioGetStatus p.id s).1

/-- The records after a history. -/
def after : History → PinStates
  | [] => bootPinStates
  | e :: h => step (after h) e

end PinStates

namespace Pin

open PinStates

/-- The level of the pin in a sample. -/
def levelIn (p : Pin) (ports : Fin 3 → BitVec 8) : Bool := (ports p.port).getLsbD p.bit

/-- The level of the pin in the latest sample. -/
def level (p : Pin) : History → Bool
  | [] => true
  | .sample _ ports :: _ => p.levelIn ports
  | .getStatus _ :: h => p.level h

/-- The edges of the pin: when it changed, and the level it changed to. -/
def edges (p : Pin) : History → List (ℤ × Bool)
  | [] => []
  | .sample time ports :: h =>
    if p.levelIn ports = p.level h then p.edges h else (time, p.levelIn ports) :: p.edges h
  | .getStatus _ :: h => p.edges h

/-- The edges since the pin was read. -/
def unreadEdges (p : Pin) : History → List (ℤ × Bool)
  | [] => []
  | .sample time ports :: h =>
    if p.levelIn ports = p.level h then p.unreadEdges h
    else (time, p.levelIn ports) :: p.unreadEdges h
  | .getStatus q :: h => if q = p then [] else p.unreadEdges h

/-- The time of the latest edge to the level, `0` if there is none. -/
def lastEdge (p : Pin) (toLevel : Bool) (h : History) : ℤ :=
  (((p.edges h).find? fun e ↦ e.2 == toLevel).map Prod.fst).getD 0

/-- The direction of the latest edge since the pin was read. -/
def unreadEdge (p : Pin) (h : History) : PinEdge :=
  match (p.unreadEdges h).head? with
  | none => .none
  | some e => if e.2 then .high else .low

end Pin

/-! ## The records are right -/

namespace PinStates

theorem prev_after (p : Pin) : ∀ h, ((after h).prev p.port).getLsbD p.bit = p.level h
  | [] => by
    have hbit := p.bit.isLt
    rw [after, Pin.level, bootPinStates, show (0xff : BitVec 8) = BitVec.allOnes 8 from rfl,
      BitVec.getLsbD_allOnes]
    simp
  | .sample _ ports :: _ => rfl
  | .getStatus q :: h => by
    rw [after, step, gpioGetStatus_pin]
    exact prev_after p h

/-- What a sample records of a pin, in terms of the levels of the pin. -/
theorem recordEdge_after (p : Pin) (h : History) (time : ℤ) (ports : Fin 3 → BitVec 8)
    (st : PinState) :
    recordEdge time (ports p.port) ((after h).prev p.port ^^^ ports p.port) p.bit st =
      if p.levelIn ports = p.level h then st
      else if p.levelIn ports then { st with tUp := time, status := gpWentHigh }
      else { st with tDown := time, status := gpWentLow } := by
  have hchanged : ((after h).prev p.port ^^^ ports p.port) &&& bv p.bit ≠ 0 ↔
      ¬p.levelIn ports = p.level h := by
    rw [and_bv_ne_zero_iff, BitVec.getLsbD_xor, prev_after, bne_iff_ne]
    exact ne_comm
  have hlevel : ports p.port &&& bv p.bit ≠ 0 ↔ p.levelIn ports = true := and_bv_ne_zero_iff
  rw [recordEdge, if_congr hchanged rfl rfl, if_congr hlevel rfl rfl, ite_not]

/-- **The record of a pin** is the latest of its edges, with the direction since it was read. -/
theorem gPinState_after (p : Pin) (h : History) :
    (after h).gPinState p.index =
      ⟨p.lastEdge true h, p.lastEdge false h, (p.unreadEdge h).status⟩ := by
  induction h with
  | nil => rfl
  | cons e h ih =>
    cases e with
    | sample time ports =>
      rw [after, step, pcintVect_pin, recordEdge_after, ih]
      simp only [Pin.lastEdge, Pin.unreadEdge, Pin.edges, Pin.unreadEdges]
      -- A sample at the old level adds no edge and changes no record.
      by_cases hsame : p.levelIn ports = p.level h
      · simp only [if_pos hsame]
      · simp only [if_neg hsame]
        cases p.levelIn ports <;> simp [PinEdge.status]
    | getStatus q =>
      rw [after, step, gpioGetStatus_pin]
      dsimp only
      by_cases hq : q = p
      · subst hq
        rw [Function.update_self, ih]
        simp [PinState.clearStatus, PinEdge.status, Pin.lastEdge, Pin.edges, Pin.unreadEdge,
          Pin.unreadEdges]
      · rw [Function.update_of_ne fun heq ↦ hq (Pin.index_inj.mp heq.symm), ih]
        simp [Pin.lastEdge, Pin.edges, Pin.unreadEdge, Pin.unreadEdges, hq]

end PinStates

open PinStates

/-- **Edge detection.** After any history, reading a pin gives the direction of its latest edge
since it was read before and the times of its latest rising and falling edges, and it clears the
direction of this pin and nothing else. -/
theorem gpioGetStatus_spec (h : History) (p : Pin) :
    (gpioGetStatus p.id (after h)).2 =
        ((p.unreadEdge h).status, p.lastEdge true h, p.lastEdge false h) ∧
      ∀ q : Pin, (gpioGetStatus p.id (after h)).1.gPinState q.index =
        if q = p then ((after h).gPinState q.index).clearStatus
        else (after h).gPinState q.index := by
  rw [gpioGetStatus_pin]
  refine ⟨by rw [gPinState_after], fun q ↦ ?_⟩
  dsimp only
  by_cases hq : q = p
  · rw [if_pos hq, hq, Function.update_self]
  · rw [if_neg hq, Function.update_of_ne fun heq ↦ hq (Pin.index_inj.mp heq)]

end Martink
