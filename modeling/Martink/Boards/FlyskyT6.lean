import Martink.Arch.Stm32.Adc
import Martink.Arch.Stm32.PpmTrain
import Martink.Disp.Ks0713Calls

/-!
# The display, the inputs and the pulse train of the FlySky T6 transmitter

The twelve data and control lines of the LCD are on port C, and the backlight is on pin PD2, which
the callback of the display driver drives from bit 13 of the first word it is given. It tests the
bit with `|` instead of `&`, so the test holds of every word.

The sticks are the inputs of the converter from 0 on, and the battery is input 6, which the
converter is not programmed for.

The pulse train has a pulse for each of six channels and a last one that makes up a frame of 20 ms.
-/

namespace Martink

open Ks0713 (Call backlightRequest)

/-- The pins of the display. -/
structure Fst6Pins where
  /-- The level of `KS0713_BACKLIGHT_PIN`. -/
  backlightPin : Bool
  /-- The values stored to `GPIOC->ODR`, in order. -/
  odr : List (BitVec 16)

/-- `_fst6_write_ks0713`. -/
def fst6WriteKs0713 (pins : Fst6Pins) (data : List (BitVec 16)) : Fst6Pins where
  backlightPin := decide (data.length ≠ 0 ∧ data.headD 0 ||| Ks0713.backlight ≠ 0)
  odr := pins.odr ++ data.map (· &&& Ks0713.pinMask)

/-- The board from `ks0713_init` on. -/
def runFst6 (saveMemory : Bool) (font : List (BitVec 8)) (fuel : ℕ) (d : Ks0713 Fst6Pins)
    (calls : List Call) : Option (Ks0713 Fst6Pins) :=
  Ks0713.runCalls saveMemory fst6WriteKs0713 font fuel d calls

theorem backlightPin_fst6Write (pins : Fst6Pins) {data : List (BitVec 16)} (h : data ≠ []) :
    (fst6WriteKs0713 pins data).backlightPin = true := by
  have hword (w : BitVec 16) : w ||| Ks0713.backlight ≠ 0 := by
    intro hzero
    have hbit : (w ||| Ks0713.backlight).getLsbD 13 = true := by simp [Ks0713.backlight]
    rw [hzero] at hbit
    exact absurd hbit (by decide)
  exact decide_eq_true ⟨fun hlen ↦ h (List.eq_nil_of_length_eq_zero hlen), hword _⟩

theorem backlightPin_of_run {saveMemory : Bool} {font : List (BitVec 8)} {fuel : ℕ}
    {d d' : Ks0713 Fst6Pins} {calls : List Call}
    (h : runFst6 saveMemory font fuel d calls = some d') : d'.bus.backlightPin = true := by
  obtain ⟨d₀, hinit⟩ := Ks0713.init_eq saveMemory fst6WriteKs0713 d
  rw [runFst6, Ks0713.runCalls, hinit, Option.bind_eq_bind, Option.bind_some] at h
  have hstart : (Ks0713.setBacklight fst6WriteKs0713 d₀ 1).bus.backlightPin = true :=
    backlightPin_fst6Write _ (List.cons_ne_nil _ _)
  exact foldlM_invariant (P := fun s : Ks0713 Fst6Pins ↦ s.bus.backlightPin = true)
    (fun s c s' hs hcall ↦ Ks0713.bus_runCall (P := fun pins ↦ pins.backlightPin = true)
      saveMemory font fuel (fun pins _ ↦ backlightPin_fst6Write pins) hcall hs) hstart h

/-- **The backlight.** The pin follows the requests exactly as long as the last one is on. -/
theorem fst6_backlightPin_iff {saveMemory : Bool} {font : List (BitVec 8)} {fuel : ℕ}
    {d d' : Ks0713 Fst6Pins} {calls : List Call}
    (h : runFst6 saveMemory font fuel d calls = some d') :
    (d'.bus.backlightPin = true ↔ backlightRequest calls = true) ↔
      backlightRequest calls = true := by
  rw [backlightPin_of_run h]
  exact ⟨fun hiff ↦ hiff.mp rfl, fun hon ↦ ⟨fun _ ↦ hon, fun _ ↦ rfl⟩⟩

theorem runFst6_setBacklight (saveMemory : Bool) (font : List (BitVec 8)) (fuel : ℕ)
    (d : Ks0713 Fst6Pins) (on : BitVec 8) :
    ∃ d', runFst6 saveMemory font fuel d [.setBacklight on] = some d' := by
  obtain ⟨d₀, hinit⟩ := Ks0713.init_eq saveMemory fst6WriteKs0713 d
  exact ⟨Ks0713.setBacklight fst6WriteKs0713 (Ks0713.setBacklight fst6WriteKs0713 d₀ 1) on,
    by rw [runFst6, Ks0713.runCalls, hinit]; rfl⟩

/-- A display before its initialisation, with the pins low. -/
def rawDisplay : Ks0713 Fst6Pins where
  portState := 0
  contrast := 0
  lcdBuffer := Vector.replicate _ 0
  cursorX := 0
  cursorY := 0
  bus := ⟨false, []⟩

theorem fst6_backlightPin_iff_on :
    ∃ d', runFst6 false [] 0 rawDisplay [.setBacklight 1] = some d' ∧
      ((d'.bus.backlightPin = true ↔ backlightRequest [.setBacklight 1] = true) ↔
        backlightRequest [.setBacklight 1] = true) := by
  obtain ⟨d', h⟩ := runFst6_setBacklight false [] 0 rawDisplay 1
  exact ⟨d', h, fst6_backlightPin_iff h⟩

/-- The pin stays high when the backlight is turned off. -/
theorem fst6_backlightPin_off :
    ∃ d', runFst6 false [] 0 rawDisplay [.setBacklight 0] = some d' ∧
      d'.bus.backlightPin = true ∧ backlightRequest [.setBacklight 0] = false := by
  obtain ⟨d', h⟩ := runFst6_setBacklight false [] 0 rawDisplay 0
  exact ⟨d', h, backlightPin_of_run h, rfl⟩

/-! ## The sticks and the battery -/

/-- `FST6_STICKS_COUNT`. -/
def fst6SticksCount : ℕ := 6

/-- `FST6_ADC_BATTERY`. -/
def fst6AdcBattery : BitVec 8 := 6

/-- `fst6_read_stick`. -/
def fst6ReadStick (dma : Adc.AdcDma) (stick : BitVec 8) : Option (BitVec 16) :=
  if fst6SticksCount < stick.toNat then some 0 else Adc.adcRead dma stick

/-- `fst6_read_battery_voltage`. -/
def fst6ReadBatteryVoltage (dma : Adc.AdcDma) : Option (BitVec 16) :=
  Adc.adcRead dma fst6AdcBattery

/-- The battery voltage is made of conversions of input 5. -/
theorem fst6ReadBatteryVoltage_stored (values : Fin Adc.adcBufferSize → BitVec 16)
    (v : ℕ → BitVec 16) (g : ℕ) :
    ∃ i j k l r, (∀ m ∈ [i, j, k, l], Adc.adcInit.input m = 5)
      ∧ fst6ReadBatteryVoltage (Adc.stored values v (8 * (g + 4))) = some r
      ∧ r.toNat = Adc.mean (v i) (v j) (v k) (v l) := by
  obtain ⟨r, hread, hmean⟩ :=
    Adc.adcRead_stored values v g (show fst6AdcBattery.toNat < 8 by decide)
  refine ⟨_, _, _, _, r, fun m hm ↦ ?_, hread, hmean⟩
  have hrank : Adc.adcInit.input fst6AdcBattery.toNat = 5 := by decide
  obtain ⟨g', rfl⟩ : ∃ g', m = 8 * g' + fst6AdcBattery.toNat := by
    simp only [List.mem_cons, List.not_mem_nil, or_false] at hm
    rcases hm with rfl | rfl | rfl | rfl <;> exact ⟨_, rfl⟩
  rw [Adc.input_add_group, hrank]

/-- The first five sticks are read as the mean of their last four conversions. -/
theorem fst6ReadStick_mean {stick : BitVec 8} (h : stick.toNat < 5)
    (values : Fin Adc.adcBufferSize → BitVec 16) (v : ℕ → BitVec 16) (g : ℕ) :
    ∃ before a b c d r, Adc.conversionsOf v (8 * (g + 4)) stick.toNat = before ++ [a, b, c, d]
      ∧ fst6ReadStick (Adc.stored values v (8 * (g + 4))) stick = some r
      ∧ r.toNat = Adc.mean a b c d := by
  have hown : stick ∈ Adc.ownRank := by
    revert stick
    decide
  rw [fst6ReadStick, if_neg (by rw [fst6SticksCount]; omega)]
  exact Adc.readsMean_of_ownRank hown values v g

/-- The number past the last stick is not refused, and gives the battery. -/
theorem fst6ReadStick_count (dma : Adc.AdcDma) :
    fst6ReadStick dma (BitVec.ofNat 8 fst6SticksCount) = fst6ReadBatteryVoltage dma := rfl

/-! ## The pulse train -/

/-- The train that `fst6_init` sets up, on `PWM_CH14`. -/
def fst6Ppm : PpmCall where
  chan := 3
  pulses := List.replicate 7 1000
  spacing := 400
  pos := by decide
  le := by decide

/-- `fst6_write_ppm`. -/
def fst6WritePpm (ch1 ch2 ch3 ch4 ch5 ch6 : BitVec 16) : List PpmEvent :=
  [.storePulse (timId fst6Ppm.chan) (chanId fst6Ppm.chan) 0 ch1,
    .storePulse (timId fst6Ppm.chan) (chanId fst6Ppm.chan) 1 ch2,
    .storePulse (timId fst6Ppm.chan) (chanId fst6Ppm.chan) 2 ch3,
    .storePulse (timId fst6Ppm.chan) (chanId fst6Ppm.chan) 3 ch4,
    .storePulse (timId fst6Ppm.chan) (chanId fst6Ppm.chan) 4 ch5,
    .storePulse (timId fst6Ppm.chan) (chanId fst6Ppm.chan) 5 ch6,
    .storePulse (timId fst6Ppm.chan) (chanId fst6Ppm.chan) 6
      (20000 - ch1 - ch2 - ch3 - ch4 - ch5 - ch6)]

/-- What is written is the whole frame, whatever was there before. -/
theorem contents_fst6WritePpm (ch1 ch2 ch3 ch4 ch5 ch6 : BitVec 16) {pulses : List (BitVec 16)}
    (h : pulses.length = fst6Ppm.pulses.length) :
    contents (timId fst6Ppm.chan) (chanId fst6Ppm.chan) pulses
        (fst6WritePpm ch1 ch2 ch3 ch4 ch5 ch6) =
      [ch1, ch2, ch3, ch4, ch5, ch6, 20000 - ch1 - ch2 - ch3 - ch4 - ch5 - ch6] := by
  match pulses, h with
  | [_, _, _, _, _, _, _], _ => rfl

/-- **A frame.** After each `fst6_write_ppm` the pulses add up to 20 ms. -/
theorem sum_fst6WritePpm (ch1 ch2 ch3 ch4 ch5 ch6 : BitVec 16) (events : List PpmEvent) :
    (contents (timId fst6Ppm.chan) (chanId fst6Ppm.chan) fst6Ppm.pulses
      (events ++ fst6WritePpm ch1 ch2 ch3 ch4 ch5 ch6)).sum = 20000 := by
  have hsplit : contents (timId fst6Ppm.chan) (chanId fst6Ppm.chan) fst6Ppm.pulses
      (events ++ fst6WritePpm ch1 ch2 ch3 ch4 ch5 ch6) =
        contents (timId fst6Ppm.chan) (chanId fst6Ppm.chan)
          (contents (timId fst6Ppm.chan) (chanId fst6Ppm.chan) fst6Ppm.pulses events)
          (fst6WritePpm ch1 ch2 ch3 ch4 ch5 ch6) := List.foldl_append
  rw [hsplit, contents_fst6WritePpm _ _ _ _ _ _ (length_contents _ _ _ _)]
  simp only [List.sum_cons, List.sum_nil]
  ring

end Martink
