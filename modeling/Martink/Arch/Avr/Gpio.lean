import Martink.Base.Bits

/-!
# The pins of the AVR

Pins are numbered from 1 on, eight to a port, so the pins of ports B, C and D are 9 to 32.

## Pin change interrupts

A pin raises an interrupt when its bit is set in the mask register of its port and the enable bit of
that port is set in `PCICR`. `gpio_enable_pcint` sets the two bits. The numbers of the enable bits,
`PCINT0` to `PCINT2`, are those of the device's header: 0, 1 and 2.
-/

namespace Martink

/-! ## Pin numbers and flags -/

def gpioPb0 : ℕ := 9
def gpioPb7 : ℕ := 16
def gpioPc0 : ℕ := 17
def gpioPc7Nc : ℕ := 24
def gpioPd0 : ℕ := 25
def gpioPd7 : ℕ := 32

def gpOutput : BitVec 16 := 1 <<< 1
def gpPullup : BitVec 16 := 1 <<< 4
def gpPcint : BitVec 16 := 1 <<< 3

/-- `RIDX`, the index of a pin's port. -/
def ridx (pin : ℕ) : ℕ := if 0 < pin then ((pin - 1) &&& 0xf8) >>> 3 else 0

/-- `PIDX`, the bit of a pin in the registers of its port. -/
def pidx (pin : ℕ) : ℕ := if 0 < pin then (pin - 1) &&& 0x07 else 0

/-- The registers of the ports, by the index of the port, and those of the pin change
interrupts. -/
structure GpioRegs where
  /-- The output registers `PORTx`. -/
  outReg : ℕ → BitVec 8
  /-- The direction registers `DDRx`. -/
  ddrReg : ℕ → BitVec 8
  /-- The ports whose pin change interrupt is enabled. -/
  pcicr : BitVec 8
  /-- The pins of port B that raise it. -/
  pcmsk0 : BitVec 8
  /-- The pins of port C that raise it. -/
  pcmsk1 : BitVec 8
  /-- The pins of port D that raise it. -/
  pcmsk2 : BitVec 8

def gpioEnablePcint (pin : ℕ) (r : GpioRegs) : GpioRegs :=
  if gpioPb0 ≤ pin ∧ pin ≤ gpioPb7 then
    { r with pcicr := r.pcicr ||| bv 0, pcmsk0 := r.pcmsk0 ||| bv (pin - gpioPb0) }
  else if gpioPc0 ≤ pin ∧ pin ≤ gpioPc7Nc then
    { r with pcicr := r.pcicr ||| bv 1, pcmsk1 := r.pcmsk1 ||| bv (pin - gpioPb0) }
  else if gpioPd0 ≤ pin ∧ pin ≤ gpioPd7 then
    { r with pcicr := r.pcicr ||| bv 2, pcmsk2 := r.pcmsk2 ||| bv (pin - gpioPd0) }
  else r

/-- `RSET` and `RCLR`, by a condition. -/
def rput (on : Bool) (reg : BitVec 8) (bit : ℕ) : BitVec 8 :=
  if on then reg ||| bv bit else reg &&& ~~~bv bit

/-- The direction and the pull-up of a pin. -/
def configurePort (pin : ℕ) (fn : BitVec 16) (r : GpioRegs) : GpioRegs :=
  let p := ridx pin
  { r with
    ddrReg := Function.update r.ddrReg p (rput (fn &&& gpOutput != 0) (r.ddrReg p) (pidx pin))
    outReg := Function.update r.outReg p (rput (fn &&& gpPullup != 0) (r.outReg p) (pidx pin)) }

def gpioConfigure (pin : ℕ) (fn : BitVec 16) (r : GpioRegs) : GpioRegs :=
  let r := configurePort pin fn r
  if fn &&& gpPcint ≠ 0 then gpioEnablePcint pin r else r

/-! ## What can raise an interrupt -/

/-- The calls that may request an interrupt. -/
inductive GpioCall
  | enablePcint (pin : ℕ)
  | configure (pin : ℕ) (fn : BitVec 16)

namespace GpioCall

def pin : GpioCall → ℕ
  | enablePcint pin => pin
  | configure pin _ => pin

def run (r : GpioRegs) : GpioCall → GpioRegs
  | enablePcint pin => gpioEnablePcint pin r
  | configure pin fn => gpioConfigure pin fn r

/-- The call asks for pin change interrupts. -/
def Requests : GpioCall → Prop
  | enablePcint _ => True
  | configure _ fn => fn &&& gpPcint ≠ 0

end GpioCall

namespace GpioRegs

/-- Changes of the pin raise an interrupt. -/
def CanRaise (r : GpioRegs) (pin : ℕ) : Prop :=
  (gpioPb0 ≤ pin ∧ pin ≤ gpioPb7 ∧ r.pcicr.getLsbD 0 ∧ r.pcmsk0.getLsbD (pin - gpioPb0)) ∨
    (gpioPc0 ≤ pin ∧ pin ≤ gpioPc7Nc ∧ r.pcicr.getLsbD 1 ∧ r.pcmsk1.getLsbD (pin - gpioPc0)) ∨
    (gpioPd0 ≤ pin ∧ pin ≤ gpioPd7 ∧ r.pcicr.getLsbD 2 ∧ r.pcmsk2.getLsbD (pin - gpioPd0))

instance (r : GpioRegs) (pin : ℕ) : Decidable (r.CanRaise pin) :=
  inferInstanceAs (Decidable (_ ∨ _))

/-- The masks are those of the pins `S` of the ports B and D, and the ports of all bits of the masks
are enabled. -/
structure Masks (r : GpioRegs) (S : ℕ → Prop) : Prop where
  /-- The mask of port B has the pins of the set. -/
  mask0 : ∀ b < 8, r.pcmsk0.getLsbD b = true ↔ S (gpioPb0 + b)
  /-- The mask of port C is empty. -/
  mask1 : r.pcmsk1 = 0
  /-- The mask of port D has the pins of the set. -/
  mask2 : ∀ b < 8, r.pcmsk2.getLsbD b = true ↔ S (gpioPd0 + b)
  /-- Port B is enabled if it has such a pin. -/
  enable0 : (∃ b < 8, S (gpioPb0 + b)) → r.pcicr.getLsbD 0 = true
  /-- Port D is enabled if it has such a pin. -/
  enable2 : (∃ b < 8, S (gpioPd0 + b)) → r.pcicr.getLsbD 2 = true

/-- No pin change interrupt is enabled. -/
structure NoPcint (r : GpioRegs) : Prop where
  /-- No port is enabled. -/
  pcicr : r.pcicr = 0
  /-- No pin of port B is. -/
  pcmsk0 : r.pcmsk0 = 0
  /-- No pin of port C is. -/
  pcmsk1 : r.pcmsk1 = 0
  /-- No pin of port D is. -/
  pcmsk2 : r.pcmsk2 = 0

variable {r : GpioRegs} {S : ℕ → Prop}

theorem NoPcint.masks (h : r.NoPcint) : r.Masks fun _ ↦ False where
  mask0 b hb := by simp [h.pcmsk0]
  mask1 := h.pcmsk1
  mask2 b hb := by simp [h.pcmsk2]
  enable0 := by simp
  enable2 := by simp

theorem Masks.congr {S' : ℕ → Prop} (h : r.Masks S) (hS : ∀ p, S' p ↔ S p) : r.Masks S' := by
  rwa [show S' = S from funext fun p ↦ propext (hS p)]

/-- One more bit of a mask: the pins of its port are those before and the new one. -/
theorem or_bv_iff {mask : BitVec 8} {pin base : ℕ} (hpin : base ≤ pin)
    (h : ∀ b < 8, mask.getLsbD b = true ↔ S (base + b)) :
    ∀ b < 8, (mask ||| bv (pin - base)).getLsbD b = true ↔ base + b = pin ∨ S (base + b) := by
  intro b hb
  rw [BitVec.getLsbD_or, Bool.or_eq_true, h b hb, getLsbD_bv, or_comm]
  simp only [hb, decide_true, Bool.true_and, decide_eq_true_eq]
  exact or_congr_left (by omega)

/-- A pin of another port changes nothing in a mask. -/
theorem other_port_iff {pin base : ℕ} (hpin : pin < base ∨ base + 8 ≤ pin) {b : ℕ} (hb : b < 8) :
    base + b = pin ∨ S (base + b) ↔ S (base + b) := or_iff_right (by omega)

theorem exists_of_other_port {pin base : ℕ} (hpin : pin < base ∨ base + 8 ≤ pin)
    (h : ∃ b < 8, base + b = pin ∨ S (base + b)) : ∃ b < 8, S (base + b) := by
  obtain ⟨b, hb, hS⟩ := h
  exact ⟨b, hb, (other_port_iff hpin hb).mp hS⟩

/-- One request. The mask of port C is given a bit that it does not have. -/
theorem masks_gpioEnablePcint (h : r.Masks S) (pin : ℕ) :
    (gpioEnablePcint pin r).Masks fun p ↦ p = pin ∨ S p := by
  have houtB : ¬(gpioPb0 ≤ pin ∧ pin ≤ gpioPb7) → pin < gpioPb0 ∨ gpioPb0 + 8 ≤ pin := by
    simp only [gpioPb0, gpioPb7]
    omega
  have houtD : ¬(gpioPd0 ≤ pin ∧ pin ≤ gpioPd7) → pin < gpioPd0 ∨ gpioPd0 + 8 ≤ pin := by
    simp only [gpioPd0, gpioPd7]
    omega
  rw [gpioEnablePcint]
  split_ifs with hB hC hD
  · have hD : pin < gpioPd0 ∨ gpioPd0 + 8 ≤ pin := houtD (by
      simp only [gpioPb7, gpioPd0] at hB ⊢
      omega)
    exact ⟨or_bv_iff hB.1 h.mask0, h.mask1,
      fun b hb ↦ (h.mask2 b hb).trans (other_port_iff hD hb).symm, fun _ ↦ by simp,
      fun hex ↦ by simp [h.enable2 (exists_of_other_port hD hex)]⟩
  · have hD : pin < gpioPd0 ∨ gpioPd0 + 8 ≤ pin := houtD (by
      simp only [gpioPc7Nc, gpioPd0] at hC ⊢
      omega)
    -- The bit is counted from port B, so it is not one of the eight.
    have hbit : bv (pin - gpioPb0) = 0 := bv_of_le (by
      simp only [gpioPc0, gpioPb0] at hC ⊢
      omega)
    refine ⟨fun b hb ↦ (h.mask0 b hb).trans (other_port_iff (houtB hB) hb).symm, ?_,
      fun b hb ↦ (h.mask2 b hb).trans (other_port_iff hD hb).symm,
      fun hex ↦ by simp [h.enable0 (exists_of_other_port (houtB hB) hex)],
      fun hex ↦ by simp [h.enable2 (exists_of_other_port hD hex)]⟩
    simp [h.mask1, hbit]
  · exact ⟨fun b hb ↦ (h.mask0 b hb).trans (other_port_iff (houtB hB) hb).symm, h.mask1,
      or_bv_iff hD.1 h.mask2,
      fun hex ↦ by simp [h.enable0 (exists_of_other_port (houtB hB) hex)], fun _ ↦ by simp⟩
  · exact ⟨fun b hb ↦ (h.mask0 b hb).trans (other_port_iff (houtB hB) hb).symm, h.mask1,
      fun b hb ↦ (h.mask2 b hb).trans (other_port_iff (houtD hD) hb).symm,
      fun hex ↦ h.enable0 (exists_of_other_port (houtB hB) hex),
      fun hex ↦ h.enable2 (exists_of_other_port (houtD hD) hex)⟩

theorem masks_configurePort (h : r.Masks S) (pin : ℕ) (fn : BitVec 16) :
    (configurePort pin fn r).Masks S := ⟨h.mask0, h.mask1, h.mask2, h.enable0, h.enable2⟩

/-- One call, which may or may not be a request. -/
theorem masks_run (h : r.Masks S) (c : GpioCall) :
    (c.run r).Masks fun p ↦ (c.Requests ∧ p = c.pin) ∨ S p := by
  cases c with
  | enablePcint pin =>
    exact (masks_gpioEnablePcint h pin).congr fun p ↦ by simp [GpioCall.Requests, GpioCall.pin]
  | configure pin fn =>
    have hport := masks_configurePort h pin fn
    rw [GpioCall.run, gpioConfigure]
    by_cases hreq : fn &&& gpPcint ≠ 0
    · rw [if_pos hreq]
      exact (masks_gpioEnablePcint hport pin).congr fun p ↦ by
        rw [GpioCall.Requests, GpioCall.pin, and_iff_right hreq]
    · rw [if_neg hreq]
      exact hport.congr fun p ↦ or_iff_right fun h ↦ hreq h.1

/-- Any number of calls. -/
theorem masks_foldl (calls : List GpioCall) : ∀ {r : GpioRegs} {S : ℕ → Prop}, r.Masks S →
    (calls.foldl GpioCall.run r).Masks fun p ↦ (∃ c ∈ calls, c.Requests ∧ p = c.pin) ∨ S p := by
  induction calls with
  | nil =>
    intro r S h
    exact h.congr fun p ↦ by simp
  | cons c calls ih =>
    intro r S h
    exact (ih (masks_run h c)).congr fun p ↦ by
      simp only [List.mem_cons, exists_eq_or_imp]
      exact or_assoc.trans or_left_comm

/-- The pins that can raise an interrupt are the requested ones of the ports B and D. -/
theorem Masks.canRaise_iff (h : r.Masks S) {p : ℕ} (hp : gpioPb0 ≤ p) (hp' : p ≤ gpioPd7) :
    r.CanRaise p ↔ S p ∧ ¬(gpioPc0 ≤ p ∧ p ≤ gpioPc7Nc) := by
  have hB := h.mask0 (p - gpioPb0)
  have hD := h.mask2 (p - gpioPd0)
  have hen0 := h.enable0
  have hen2 := h.enable2
  simp only [CanRaise, h.mask1] at *
  simp only [gpioPb0, gpioPb7, gpioPc0, gpioPc7Nc, gpioPd0, gpioPd7] at *
  constructor
  · rintro (⟨-, hle, -, hbit⟩ | ⟨-, -, -, hbit⟩ | ⟨hle, -, -, hbit⟩)
    · rw [show p = 9 + (p - 9) by omega]
      exact ⟨(hB (by omega)).mp hbit, by omega⟩
    · simp at hbit
    · rw [show p = 25 + (p - 25) by omega]
      exact ⟨(hD (by omega)).mp hbit, by omega⟩
  · rintro ⟨hS, hC⟩
    by_cases hle : p ≤ 16
    · rw [show p = 9 + (p - 9) by omega] at hS
      exact .inl ⟨hp, hle, hen0 ⟨p - 9, by omega, hS⟩, (hB (by omega)).mpr hS⟩
    · rw [show p = 25 + (p - 25) by omega] at hS
      exact .inr (.inr ⟨by omega, hp', hen2 ⟨p - 25, by omega, hS⟩, (hD (by omega)).mpr hS⟩)

end GpioRegs

open GpioRegs

/-- **Pin change interrupts.** The pins that can raise one are exactly the requested pins when no
pin of port C is requested. -/
theorem gpioEnablePcint_exact_iff {r : GpioRegs} (hr : r.NoPcint) (calls : List GpioCall)
    (hpins : ∀ c ∈ calls, gpioPb0 ≤ c.pin ∧ c.pin ≤ gpioPd7) :
    (∀ p, gpioPb0 ≤ p → p ≤ gpioPd7 →
      ((calls.foldl GpioCall.run r).CanRaise p ↔ ∃ c ∈ calls, c.Requests ∧ p = c.pin)) ↔
    ∀ c ∈ calls, c.Requests → ¬(gpioPc0 ≤ c.pin ∧ c.pin ≤ gpioPc7Nc) := by
  have hmasks := masks_foldl calls hr.masks
  simp only [or_false] at hmasks
  constructor
  · intro hexact c hc hreq hC
    have hpin := hpins c hc
    have hraise := (hexact c.pin hpin.1 hpin.2).mpr ⟨c, hc, hreq, rfl⟩
    exact ((hmasks.canRaise_iff hpin.1 hpin.2).mp hraise).2 hC
  · intro hports p hp hp'
    rw [hmasks.canRaise_iff hp hp', and_iff_left_iff_imp]
    rintro ⟨c, hc, hreq, rfl⟩
    exact hports c hc hreq

def noPcintRegs : GpioRegs := ⟨fun _ ↦ 0, fun _ ↦ 0, 0, 0, 0, 0⟩

theorem noPcint_noPcintRegs : noPcintRegs.NoPcint := ⟨rfl, rfl, rfl, rfl⟩

/-- Requests for the first and the last pin. -/
theorem gpioEnablePcint_exact_two :
    ([.enablePcint gpioPb0, .configure gpioPd7 gpPcint].foldl GpioCall.run noPcintRegs).CanRaise
        gpioPd7 ↔
      ∃ c ∈ [GpioCall.enablePcint gpioPb0, .configure gpioPd7 gpPcint],
        c.Requests ∧ gpioPd7 = c.pin :=
  (gpioEnablePcint_exact_iff noPcint_noPcintRegs
    [.enablePcint gpioPb0, .configure gpioPd7 gpPcint]
    (by simp [GpioCall.pin, gpioPb0, gpioPd7])).mpr
    (by simp [GpioCall.pin, gpioPb0, gpioPd7, gpioPc0, gpioPc7Nc]) gpioPd7 (by decide) (by decide)

/-- A request for the first pin of port C, alone: the pin cannot raise an interrupt. -/
theorem not_canRaise_pc0 :
    ¬([.enablePcint gpioPc0].foldl GpioCall.run noPcintRegs).CanRaise gpioPc0 := by
  decide

end Martink
