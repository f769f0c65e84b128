import Mathlib.Algebra.Field.Rat
import Martink.Base.Bits

/-!
# The thermometer on one wire

The driver of a DS18B20 drives the line in slots: a reset, a bit that it writes, or a bit that it
reads. A read slot and a reset sample the line once. The temperature is a word in sixteenths of a
degree, least significant bit first; the driver keeps eleven bits of it, without the sign.

The line is a sequence of levels, one for each sample.
-/

namespace Martink

namespace Ds18b20

/-! ## The driver -/

inductive Slot where
  | reset
  | write (bit : Bool)
  | read

/-- The slots so far, and the number of samples. -/
structure OneWire where
  /-- The slots, in order. -/
  slots : List Slot
  /-- The number of samples. -/
  samples : ℕ

def cmdConvertTemp : BitVec 8 := 0x44

def cmdRScratchpad : BitVec 8 := 0xbe

def cmdSkipRom : BitVec 8 := 0xcc

/-- `DS18B20_DECIMALSTEPS`. -/
def decimalSteps : BitVec 16 := 625

/-- The sample of a reset is not used. -/
def reset (s : OneWire) : OneWire := ⟨s.slots ++ [.reset], s.samples + 1⟩

def writebit (s : OneWire) (bit : BitVec 8) : OneWire :=
  { s with slots := s.slots ++ [.write (bit ≠ 0)] }

/-- The loop of `ds18b20_writebyte`, for the number of bits that are left. -/
def writebits : ℕ → OneWire → BitVec 8 → OneWire
  | 0, s, _ => s
  | i + 1, s, byte => writebits i (writebit s (byte &&& 1)) (byte >>> 1)

def writebyte (s : OneWire) (byte : BitVec 8) : OneWire := writebits 8 s byte

def readbit (pin : ℕ → Bool) (s : OneWire) : BitVec 8 × OneWire :=
  (if pin s.samples then 1 else 0, ⟨s.slots ++ [.read], s.samples + 1⟩)

/-- The loop of `ds18b20_readbyte`, after a number of bits. -/
def readbits (pin : ℕ → Bool) (s : OneWire) : ℕ → BitVec 8 × OneWire
  | 0 => (0, s)
  | i + 1 =>
    let r := readbits pin s i
    let bit := readbit pin r.2
    (r.1 >>> 1 ||| bit.1 <<< 7, bit.2)

def readbyte (pin : ℕ → Bool) (s : OneWire) : BitVec 8 × OneWire := readbits pin s 8

/-- `while(!ds18b20_readbit(self));` -/
def poll (pin : ℕ → Bool) : ℕ → OneWire → Option OneWire
  | 0, _ => none
  | fuel + 1, s =>
    let bit := readbit pin s
    if bit.1 ≠ 0 then some bit.2 else poll pin fuel bit.2

/-- The value that is returned, for the bytes of the scratchpad, in exact arithmetic. -/
def compose (temperature0 temperature1 : BitVec 8) : ℚ :=
  let digit : BitVec 8 := temperature0 >>> 4 ||| (temperature1 &&& 0x7) <<< 4
  let decimal : BitVec 16 := (temperature0 &&& 0xf).setWidth 16 * decimalSteps
  digit.toInt + decimal.toNat * (1 / 10000)

def readTemperature (pin : ℕ → Bool) (fuel : ℕ) : Option (ℚ × OneWire) := do
  let s := writebyte (writebyte (reset ⟨[], 0⟩) cmdSkipRom) cmdConvertTemp
  let s ← poll pin fuel s
  let s := writebyte (writebyte (reset s) cmdSkipRom) cmdRScratchpad
  let temperature0 := readbyte pin s
  let temperature1 := readbyte pin temperature0.2
  some (compose temperature0.1 temperature1.1, reset temperature1.2)

/-! ## Slots -/

/-- The slots of a byte that is written. -/
def byteSlots (byte : BitVec 8) : List Slot := (List.range 8).map fun i ↦ .write (byte.getLsbD i)

theorem writebits_eq (n : ℕ) : ∀ (s : OneWire) (byte : BitVec 8), writebits n s byte
    = { s with slots := s.slots ++ (List.range n).map fun i ↦ .write (byte.getLsbD i) } := by
  induction n with
  | zero => exact fun s byte ↦ by rw [List.range_zero, List.map_nil, List.append_nil]; rfl
  | succ n ih =>
    intro s byte
    have hbit : decide (byte &&& 1 ≠ 0) = byte.getLsbD 0 := by
      rw [Bool.eq_iff_iff, decide_eq_true_iff]
      exact and_bv_ne_zero_iff (n := 0)
    rw [writebits, ih, writebit, hbit, List.range_succ_eq_map, List.map_cons, List.map_map,
      List.append_assoc]
    refine congrArg (fun l ↦ OneWire.mk (s.slots ++ (.write (byte.getLsbD 0) :: l)) s.samples) ?_
    refine List.map_congr_left fun i _ ↦ ?_
    rw [Function.comp_apply, BitVec.getLsbD_ushiftRight, Nat.add_comm]

theorem writebyte_eq (s : OneWire) (byte : BitVec 8) :
    writebyte s byte = { s with slots := s.slots ++ byteSlots byte } := writebits_eq 8 s byte

theorem snd_readbits (pin : ℕ → Bool) (s : OneWire) (n : ℕ) :
    (readbits pin s n).2 = ⟨s.slots ++ List.replicate n .read, s.samples + n⟩ := by
  induction n with
  | zero => rw [List.replicate_zero, List.append_nil]; rfl
  | succ n ih => rw [readbits, readbit, ih, List.append_assoc, List.replicate_succ']; rfl

/-- **The bits of a byte that is being read.** They come in at the upper end. -/
theorem getLsbD_readbits (pin : ℕ → Bool) (s : OneWire) (n : ℕ) : ∀ j < 8,
    (readbits pin s n).1.getLsbD j = (decide (8 ≤ j + n) && pin (s.samples + (j + n - 8))) := by
  induction n with
  | zero =>
    intro j hj
    rw [decide_eq_false (by omega), Bool.false_and]
    exact BitVec.getLsbD_zero
  | succ n ih =>
    intro j hj
    have hbit : ((readbit pin (readbits pin s n).2).1 <<< 7).getLsbD j
        = (decide (7 = j) && pin (s.samples + n)) := by
      rw [readbit, snd_readbits]
      cases hpin : pin (s.samples + n) with
      | false =>
        rw [Bool.and_false]
        exact BitVec.getLsbD_zero
      | true =>
        rw [Bool.and_true]
        exact (getLsbD_bv 7 j).trans (by rw [decide_eq_true hj, Bool.true_and])
    rw [readbits, BitVec.getLsbD_or, BitVec.getLsbD_ushiftRight, hbit]
    rcases Nat.lt_succ_iff_lt_or_eq.mp hj with hlt | rfl
    · have hsum : 1 + j + n = j + (n + 1) := by omega
      rw [ih (1 + j) (by omega), decide_eq_false hlt.ne', Bool.false_and, Bool.or_false, hsum]
    · rw [BitVec.getLsbD_of_ge _ _ (by decide), Bool.false_or, decide_eq_true rfl, Bool.true_and,
        decide_eq_true (by omega), Bool.true_and]
      congr 1
      omega

theorem getLsbD_readbyte (pin : ℕ → Bool) (s : OneWire) {j : ℕ} (hj : j < 8) :
    (readbyte pin s).1.getLsbD j = pin (s.samples + j) := by
  rw [readbyte, getLsbD_readbits pin s 8 j hj, decide_eq_true (by omega), Bool.true_and,
    Nat.add_sub_cancel]

/-- Polling ends with the first sample that is high. -/
theorem poll_eq_some {pin : ℕ → Bool} {m : ℕ} : ∀ {fuel : ℕ} {s : OneWire},
    (∀ k < m, pin (s.samples + k) = false) → pin (s.samples + m) = true → m < fuel →
      poll pin fuel s = some ⟨s.slots ++ List.replicate (m + 1) .read, s.samples + m + 1⟩ := by
  induction m with
  | zero =>
    intro fuel s _ hready hfuel
    obtain ⟨fuel, rfl⟩ := Nat.exists_eq_succ_of_ne_zero hfuel.ne'
    rw [Nat.add_zero] at hready
    rw [poll, readbit, if_pos hready]
    rfl
  | succ m ih =>
    intro fuel s hbusy hready hfuel
    obtain ⟨fuel, rfl⟩ := Nat.exists_eq_succ_of_ne_zero (Nat.ne_zero_of_lt hfuel)
    have hlow : pin s.samples = false := hbusy 0 (Nat.succ_pos m)
    have hrest : poll pin fuel ⟨s.slots ++ [.read], s.samples + 1⟩ = some
        ⟨s.slots ++ [.read] ++ List.replicate (m + 1) .read, s.samples + 1 + m + 1⟩ := by
      refine ih (fun k hk ↦ ?_) ?_ (Nat.lt_of_succ_lt_succ hfuel)
      · simpa only [Nat.add_assoc, Nat.add_comm 1] using hbusy (k + 1) (Nat.succ_lt_succ hk)
      · simpa only [Nat.add_assoc, Nat.add_comm 1] using hready
    have hslots : [Slot.read] ++ List.replicate (m + 1) .read = List.replicate (m + 1 + 1) .read :=
      rfl
    rw [poll, readbit, if_neg (by simp [hlow]), hrest, List.append_assoc, hslots,
      Nat.add_right_comm s.samples 1, Nat.add_assoc s.samples m]

/-! ## The temperature -/

/-- Eleven bits are left. -/
theorem compose_eq (temperature0 temperature1 : BitVec 8) :
    compose temperature0 temperature1
      = ((temperature1.toNat * 256 + temperature0.toNat) % 2048 : ℕ) / 16 := by
  have hdigit : (temperature0 >>> 4 ||| (temperature1 &&& 0x7) <<< 4).toNat
      = 2 ^ 4 * (temperature1.toNat % 8) + temperature0.toNat / 16 := by
    have hlow : temperature0.toNat / 16 < 2 ^ 4 := Nat.div_lt_of_lt_mul temperature0.isLt
    have hhigh : ((temperature1 &&& 0x7) <<< 4).toNat = 2 ^ 4 * (temperature1.toNat % 8) := by
      have hmask : (temperature1 &&& 0x7).toNat = temperature1.toNat % 8 :=
        Nat.and_two_pow_sub_one_eq_mod temperature1.toNat 3
      rw [BitVec.toNat_shiftLeft, hmask, Nat.shiftLeft_eq]
      omega
    rw [BitVec.toNat_or, hhigh, Nat.two_pow_add_eq_or_of_lt hlow, Nat.or_comm,
      BitVec.toNat_ushiftRight, Nat.shiftRight_eq_div_pow]
  have hdecimal : ((temperature0 &&& 0xf).setWidth 16 * decimalSteps).toNat
      = temperature0.toNat % 16 * 625 := by
    have hmask : (temperature0 &&& 0xf).toNat = temperature0.toNat % 16 :=
      Nat.and_two_pow_sub_one_eq_mod temperature0.toNat 4
    have hsteps : decimalSteps.toNat = 625 := rfl
    rw [BitVec.toNat_mul, BitVec.toNat_setWidth, hmask, hsteps]
    omega
  have hsigned : (temperature0 >>> 4 ||| (temperature1 &&& 0x7) <<< 4).toInt
      = (2 ^ 4 * (temperature1.toNat % 8) + temperature0.toNat / 16 : ℕ) := by
    have hlow := temperature0.isLt
    rw [BitVec.toInt_eq_toNat_of_lt (by omega), hdigit]
  have hbits : (temperature1.toNat * 256 + temperature0.toNat) % 2048
      = 16 * (2 ^ 4 * (temperature1.toNat % 8) + temperature0.toNat / 16)
        + temperature0.toNat % 16 := by
    have hlow := temperature0.isLt
    omega
  rw [compose, hsigned, hdecimal, hbits, Int.cast_natCast]
  push_cast
  ring

/-- What `ds18b20_read_temperature` returns, if the poll does end. -/
def Returns (pin : ℕ → Bool) (v : ℚ) : Prop :=
  ∃ n, ∀ fuel, n ≤ fuel → (readTemperature pin fuel).map Prod.fst = some v

theorem Returns.unique {pin : ℕ → Bool} {v v' : ℚ} (h : Returns pin v) (h' : Returns pin v') :
    v = v' := by
  obtain ⟨n, hn⟩ := h
  obtain ⟨n', hn'⟩ := h'
  exact Option.some.inj ((hn (max n n') (le_max_left _ _)).symm.trans (hn' _ (le_max_right _ _)))

/-- The two bytes of the scratchpad. -/
theorem scratchpad_eq {pin : ℕ → Bool} {s : OneWire} {w : BitVec 16}
    (hbits : ∀ i < 16, pin (s.samples + i) = w.getLsbD i) :
    (readbyte pin (readbyte pin s).2).1.toNat * 256 + (readbyte pin s).1.toNat = w.toNat := by
  have hnext : (readbyte pin s).2.samples = s.samples + 8 := by rw [readbyte, snd_readbits]
  have hword : (readbyte pin (readbyte pin s).2).1 ++ (readbyte pin s).1 = w := by
    refine BitVec.eq_of_getLsbD_eq fun i hi ↦ ?_
    rw [BitVec.getLsbD_append]
    split_ifs with hlow
    · rw [getLsbD_readbyte pin s hlow, hbits i hi]
    · rw [getLsbD_readbyte pin _ (by omega), hnext, Nat.add_assoc, Nat.add_sub_cancel' (by omega),
        hbits i hi]
  rw [← hword, BitVec.toNat_append, ← Nat.shiftLeft_add_eq_or_of_lt (readbyte pin s).1.isLt,
    Nat.shiftLeft_eq]

/-- **`ds18b20_read_temperature`.** The poll ends with the sample `m + 1`, and the scratchpad
follows after one more reset. -/
theorem returns_compose {pin : ℕ → Bool} {m : ℕ} (hbusy : ∀ k < m, pin (1 + k) = false)
    (hready : pin (1 + m) = true) {w : BitVec 16}
    (hbits : ∀ i < 16, pin (m + 3 + i) = w.getLsbD i) :
    Returns pin ((w.toNat % 2048 : ℕ) / 16) := by
  refine ⟨m + 1, fun fuel hfuel ↦ ?_⟩
  have hpoll (l : List Slot) :
      poll pin fuel ⟨l, 1⟩ = some ⟨l ++ List.replicate (m + 1) .read, m + 2⟩ := by
    rw [poll_eq_some hbusy hready hfuel, Nat.add_assoc, Nat.add_comm 1]
  have hstart : 0 + 1 = 1 := rfl
  rw [readTemperature]
  simp only [writebyte_eq, reset, hstart, hpoll, Option.bind_eq_bind, Option.bind_some,
    Option.map_some, compose_eq]
  rw [scratchpad_eq hbits]

/-- **Temperatures.** For a temperature of `t` sixteenths of a degree, `ds18b20_read_temperature`
returns `t / 16` unless it is below zero. -/
theorem returns_temperature_iff {pin : ℕ → Bool} {m : ℕ} {t : ℤ}
    (hbusy : ∀ k < m, pin (1 + k) = false) (hready : pin (1 + m) = true)
    (hbits : ∀ i < 16, pin (m + 3 + i) = (BitVec.ofInt 16 t).getLsbD i) (hlo : -55 * 16 ≤ t)
    (hhi : t ≤ 125 * 16) : Returns pin (t / 16) ↔ 0 ≤ t := by
  have hreturns := returns_compose hbusy hready hbits
  have hmod : (((BitVec.ofInt 16 t).toNat % 2048 : ℕ) : ℤ) = if 0 ≤ t then t else t + 2048 := by
    rw [BitVec.toNat_ofInt]
    split_ifs <;> omega
  have hvalue : (((BitVec.ofInt 16 t).toNat % 2048 : ℕ) : ℚ)
      = ((if 0 ≤ t then t else t + 2048 : ℤ) : ℚ) := by
    rw [← hmod]
    rfl
  rw [hvalue] at hreturns
  split_ifs at hreturns with hsign
  · exact iff_of_true hreturns hsign
  · refine iff_of_false (fun h ↦ ?_) hsign
    have heq := h.unique hreturns
    push_cast at heq
    linarith

/-- A line with a sensor that answers with the word `w`, and is ready at once. -/
def sensorLine (w : BitVec 16) (n : ℕ) : Bool := n == 1 || (3 ≤ n && w.getLsbD (n - 3))

theorem returns_temperature_iff_warm : Returns (sensorLine (BitVec.ofInt 16 400)) ((400 : ℤ) / 16) ↔
    (0 : ℤ) ≤ 400 :=
  returns_temperature_iff (m := 0) (fun k hk ↦ absurd hk (Nat.not_lt_zero k)) rfl (by decide)
    (by decide) (by decide)

/-- One degree below zero is read as 127 degrees. -/
theorem not_returns_cold : ¬Returns (sensorLine (BitVec.ofInt 16 (-16))) ((-16 : ℤ) / 16) := by
  have hreturns : Returns (sensorLine (BitVec.ofInt 16 (-16))) _ :=
    returns_compose (m := 0) (w := BitVec.ofInt 16 (-16))
      (fun k hk ↦ absurd hk (Nat.not_lt_zero k)) rfl
      (by decide)
  intro h
  have heq := h.unique hreturns
  have hvalue : (BitVec.ofInt 16 (-16)).toNat % 2048 = 2032 := rfl
  rw [hvalue] at heq
  norm_num at heq

end Ds18b20

end Martink
