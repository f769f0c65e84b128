import Mathlib.Data.List.Range
import Mathlib.Tactic

/-!
# The analog inputs of the STM32

The converter scans a group of eight ranks over and over, and the DMA controller stores the
conversions one after the other into a buffer of four groups, going round. `adc_read` adds up the
four slots that lie a group apart and divides by four.

That is the mean of an input when the rank of the input is its number plus one and no other rank
converts it. Six of the inputs are programmed so. Input 5 is programmed twice, in the place of
input 6 as well, and the bound check of `adc_read` lets through one number too many, whose last slot
is past the end of the buffer.
-/

namespace Martink.Adc

/-- `ADC_BUFFER_SIZE`. -/
def adcBufferSize : ℕ := 8 * 4

/-! ## The converter -/

/-- The regular group of the converter. -/
structure AdcGroup where
  /-- `ADC_NbrOfChannel`, the number of ranks of one scan. -/
  nbrOfChannel : ℕ
  /-- The input converted at each rank; ranks count from 1. -/
  channelAt : ℕ → ℕ

/-- `ADC_RegularChannelConfig`. -/
def AdcGroup.regularChannelConfig (group : AdcGroup) (channel rank : ℕ) : AdcGroup :=
  { group with channelAt := Function.update group.channelAt rank channel }

/-- The group that `adc_init` programs. -/
def adcInit : AdcGroup :=
  AdcGroup.mk 8 (fun _ ↦ 0)
    |>.regularChannelConfig 0 1
    |>.regularChannelConfig 1 2
    |>.regularChannelConfig 2 3
    |>.regularChannelConfig 3 4
    |>.regularChannelConfig 4 5
    |>.regularChannelConfig 5 6
    |>.regularChannelConfig 5 7
    |>.regularChannelConfig 7 8

/-- The input of conversion number `i` of a continuous scan. -/
def AdcGroup.input (group : AdcGroup) (i : ℕ) : ℕ := group.channelAt (i % group.nbrOfChannel + 1)

/-- Of the first `n` conversions those of one input, in order. -/
def conversionsOf (v : ℕ → BitVec 16) (n input : ℕ) : List (BitVec 16) :=
  ((List.range n).filter fun i ↦ adcInit.input i = input).map v

theorem input_add_group (g k : ℕ) : adcInit.input (8 * g + k) = adcInit.input k := by
  change adcInit.channelAt ((8 * g + k) % 8 + 1) = adcInit.channelAt (k % 8 + 1)
  rw [Nat.mul_add_mod]

/-- One more scan adds the ranks that are programmed to the input. -/
theorem conversionsOf_group (v : ℕ → BitVec 16) (g input : ℕ) :
    conversionsOf v (8 * (g + 1)) input = conversionsOf v (8 * g) input
      ++ ((List.range 8).filter fun k ↦ adcInit.input k = input).map fun k ↦ v (8 * g + k) := by
  rw [conversionsOf, Nat.mul_succ, List.range_add, List.filter_append, List.map_append,
    List.filter_map, List.map_map]
  simp only [Function.comp_def, input_add_group]
  rfl

/-- An input programmed to one rank is converted once in each scan. -/
theorem conversionsOf_last {v : ℕ → BitVec 16} {input : ℕ} {k : ℕ}
    (hrank : ((List.range 8).filter fun k ↦ adcInit.input k = input) = [k]) (g : ℕ) :
    conversionsOf v (8 * (g + 4)) input = conversionsOf v (8 * g) input
      ++ [v (8 * g + k), v (8 * (g + 1) + k), v (8 * (g + 2) + k), v (8 * (g + 3) + k)] := by
  rw [conversionsOf_group, conversionsOf_group, conversionsOf_group, conversionsOf_group, hrank]
  simp

/-- An input programmed to no rank is never converted. -/
theorem conversionsOf_none {v : ℕ → BitVec 16} {input : ℕ}
    (hrank : ((List.range 8).filter fun k ↦ adcInit.input k = input) = []) (g : ℕ) :
    conversionsOf v (8 * g) input = [] := by
  induction g with
  | zero => rfl
  | succ g ih => rw [conversionsOf_group, ih, hrank, List.map_nil, List.append_nil]

/-! ## The circular transfer -/

/-- The buffer `_adc_values` and the DMA channel that fills it. -/
structure AdcDma where
  /-- `_adc_values`. -/
  values : Fin adcBufferSize → BitVec 16
  /-- The slot the next conversion goes to; in `DMA_Mode_Circular` it starts again at the end. -/
  slot : Fin adcBufferSize

/-- One transfer from the data register. -/
def AdcDma.transfer (dma : AdcDma) (x : BitVec 16) : AdcDma where
  values := Function.update dma.values dma.slot x
  slot := ⟨(dma.slot + 1) % adcBufferSize, Nat.mod_lt _ (by decide)⟩

/-- The first `n` conversions stored from `adc_dma_init` on, into a buffer of any contents. -/
def stored (values : Fin adcBufferSize → BitVec 16) (v : ℕ → BitVec 16) : ℕ → AdcDma
  | 0 => ⟨values, ⟨0, by decide⟩⟩
  | n + 1 => (stored values v n).transfer (v n)

section Stored

variable {values : Fin adcBufferSize → BitVec 16} {v : ℕ → BitVec 16} {n : ℕ}

theorem slot_stored : ((stored values v n).slot : ℕ) = n % adcBufferSize := by
  induction n with
  | zero => rfl
  | succ n ih =>
    rw [stored, AdcDma.transfer]
    change ((stored values v n).slot + 1 : ℕ) % adcBufferSize = _
    rw [ih, Nat.mod_add_mod]

/-- The last 32 conversions are in the buffer, each in the slot of its number. -/
theorem values_stored {i : ℕ} (hi : i < n) (hlast : n ≤ i + adcBufferSize)
    {k : Fin adcBufferSize} (hk : i % adcBufferSize = k) : (stored values v n).values k = v i := by
  induction n with
  | zero => exact absurd hi (Nat.not_lt_zero i)
  | succ n ih =>
    rw [stored, AdcDma.transfer]
    rcases Nat.lt_succ_iff_lt_or_eq.mp hi with hlt | rfl
    · have hne : k ≠ (stored values v n).slot := by
        intro heq
        have hslot : i % adcBufferSize = n % adcBufferSize := by rw [hk, heq, slot_stored]
        rw [adcBufferSize] at hslot hlast
        omega
      exact (Function.update_of_ne hne _ _).trans (ih hlt (by omega))
    · have heq : k = (stored values v i).slot := Fin.ext (by rw [slot_stored, ← hk])
      rw [heq]
      exact Function.update_self _ _ _

end Stored

/-! ## Reading -/

/-- `_adc_values[i]`; no value outside the array. -/
def AdcDma.valueAt (dma : AdcDma) (i : ℕ) : Option (BitVec 16) :=
  if h : i < adcBufferSize then some (dma.values ⟨i, h⟩) else none

/-- `adc_read`. The sum is taken in `int`. -/
def adcRead (dma : AdcDma) (channel : BitVec 8) : Option (BitVec 16) :=
  if 8 < channel.toNat then some 0
  else do
    let a ← dma.valueAt channel.toNat
    let b ← dma.valueAt (channel.toNat + 8)
    let c ← dma.valueAt (channel.toNat + 16)
    let d ← dma.valueAt (channel.toNat + 24)
    some (BitVec.ofNat 16 ((a.toNat + b.toNat + c.toNat + d.toNat) / 4))

/-- The mean of four values, rounded down. -/
def mean (a b c d : BitVec 16) : ℕ := (a.toNat + b.toNat + c.toNat + d.toNat) / 4

/-- `adc_read` gives the mean of the last four conversions of the input. -/
def ReadsMean (values : Fin adcBufferSize → BitVec 16) (v : ℕ → BitVec 16) (n : ℕ)
    (channel : BitVec 8) : Prop :=
  ∃ before a b c d r, conversionsOf v n channel.toNat = before ++ [a, b, c, d]
    ∧ adcRead (stored values v n) channel = some r ∧ r.toNat = mean a b c d

/-- Of four slots a group apart, slot `s` holds the conversion of the scan whose number is `s`
modulo 4. -/
theorem valueAt_stored (values : Fin adcBufferSize → BitVec 16) (v : ℕ → BitVec 16) (g : ℕ)
    {k s : ℕ} (hk : k < 8) (hs : s < 4) :
    (stored values v (8 * (g + 4))).valueAt (k + 8 * s)
      = some (v (8 * (g + (s + 3 * g) % 4) + k)) := by
  have hslot : k + 8 * s < adcBufferSize := by
    rw [adcBufferSize]
    omega
  rw [AdcDma.valueAt, dif_pos hslot]
  refine congrArg some (values_stored (by omega) ?_ ?_)
  · rw [adcBufferSize]
    omega
  · change _ % adcBufferSize = k + 8 * s
    rw [adcBufferSize]
    omega

/-- What is read between two scans is the mean of the last four conversions of one rank, whichever
slots they are in. -/
theorem adcRead_stored (values : Fin adcBufferSize → BitVec 16) (v : ℕ → BitVec 16) (g : ℕ)
    {channel : BitVec 8} (hc : channel.toNat < 8) :
    ∃ r, adcRead (stored values v (8 * (g + 4))) channel = some r
      ∧ r.toNat = mean (v (8 * g + channel.toNat)) (v (8 * (g + 1) + channel.toNat))
        (v (8 * (g + 2) + channel.toNat)) (v (8 * (g + 3) + channel.toNat)) := by
  set dma := stored values v (8 * (g + 4))
  have h0 : dma.valueAt channel.toNat = _ := valueAt_stored values v g hc (show 0 < 4 by omega)
  have h1 : dma.valueAt (channel.toNat + 8) = _ :=
    valueAt_stored values v g hc (show 1 < 4 by omega)
  have h2 : dma.valueAt (channel.toNat + 16) = _ :=
    valueAt_stored values v g hc (show 2 < 4 by omega)
  have h3 : dma.valueAt (channel.toNat + 24) = _ :=
    valueAt_stored values v g hc (show 3 < 4 by omega)
  rw [adcRead, if_neg (by omega), h0, h1, h2, h3]
  refine ⟨_, rfl, ?_⟩
  rw [BitVec.toNat_ofNat, Nat.mod_eq_of_lt (by omega), mean]
  -- The slots are the scans rotated by the number of scans so far.
  have hphase : g % 4 = 0 ∨ g % 4 = 1 ∨ g % 4 = 2 ∨ g % 4 = 3 := by omega
  have hturn (s : ℕ) : (s + 3 * g) % 4 = (s + 3 * (g % 4)) % 4 := by omega
  rw [hturn 0, hturn 1, hturn 2, hturn 3]
  rcases hphase with h | h | h | h <;> rw [h] <;> norm_num <;> exact congrArg (· / 4) (by ring)

/-! ## The inputs that are read right -/

/-- The inputs whose rank is their number plus one and that no other rank converts. -/
def ownRank : List (BitVec 8) := [0, 1, 2, 3, 4, 7]

theorem readsMean_of_ownRank {channel : BitVec 8} (hown : channel ∈ ownRank)
    (values : Fin adcBufferSize → BitVec 16) (v : ℕ → BitVec 16) (g : ℕ) :
    ReadsMean values v (8 * (g + 4)) channel := by
  have hrank : channel.toNat < 8
      ∧ ((List.range 8).filter fun k ↦ adcInit.input k = channel.toNat) = [channel.toNat] := by
    revert channel
    decide
  obtain ⟨r, hread, hmean⟩ := adcRead_stored values v g hrank.1
  exact ⟨_, _, _, _, _, r, conversionsOf_last hrank.2 g, hread, hmean⟩

/-- Input 6 is never converted. -/
theorem not_readsMean_battery (values : Fin adcBufferSize → BitVec 16) (v : ℕ → BitVec 16) (g : ℕ) :
    ¬ReadsMean values v (8 * (g + 4)) 6 := by
  rintro ⟨before, a, b, c, d, r, hconv, -, -⟩
  rw [conversionsOf_none (by decide)] at hconv
  simp at hconv

/-- The last slot of channel 8 is past the end. -/
theorem adcRead_eight (dma : AdcDma) : adcRead dma 8 = none := by
  have hlast : dma.valueAt ((8 : BitVec 8).toNat + 24) = none := dif_neg (by decide)
  rw [adcRead, if_neg (by decide), hlast]
  simp

/-- A stream in which the second conversion of input 5 differs from the first. -/
def secondOfFive (i : ℕ) : BitVec 16 := if i % 8 = 6 then 4 else 0

/-- Input 5 is converted twice in each scan, and only the first conversion is read. -/
theorem not_readsMean_secondOfFive (values : Fin adcBufferSize → BitVec 16) (g : ℕ) :
    ¬ReadsMean values secondOfFive (8 * (g + 4)) 5 := by
  rintro ⟨before, a, b, c, d, r, hconv, hread, hmean⟩
  have hranks : ((List.range 8).filter fun k ↦ adcInit.input k = (5 : BitVec 8).toNat)
      = [5, 6] := by
    decide
  have hfirst (j : ℕ) : secondOfFive (8 * j + 5) = 0 := if_neg (by omega)
  have hsecond (j : ℕ) : secondOfFive (8 * j + 6) = 4 := if_pos (by omega)
  obtain ⟨r', hread', hmean'⟩ := adcRead_stored values secondOfFive g
    (show (5 : BitVec 8).toNat < 8 by decide)
  change r'.toNat = mean (secondOfFive (8 * g + 5)) (secondOfFive (8 * (g + 1) + 5))
    (secondOfFive (8 * (g + 2) + 5)) (secondOfFive (8 * (g + 3) + 5)) at hmean'
  rw [hfirst, hfirst, hfirst, hfirst] at hmean'
  -- the last two scans convert input 5 twice each
  have hlast : conversionsOf secondOfFive (8 * (g + 4)) (5 : BitVec 8).toNat
      = conversionsOf secondOfFive (8 * (g + 2)) (5 : BitVec 8).toNat ++ [0, 4, 0, 4] := by
    rw [conversionsOf_group, conversionsOf_group, hranks]
    simp [hfirst, hsecond]
  rw [hlast] at hconv
  obtain ⟨-, hconv⟩ := List.append_inj' hconv rfl
  obtain ⟨rfl, rfl, rfl, rfl, -⟩ := hconv
  rw [Option.some_inj.mp (hread.symm.trans hread'), hmean'] at hmean
  exact absurd hmean (by decide)

/-- **The inputs `adc_read` is right about.** Between two scans, and once the buffer is full, a
channel number is read as the mean of the last four conversions of that input, for every stream,
exactly when the input has a rank of its own. -/
theorem readsMean_iff {n : ℕ} (hfull : adcBufferSize ≤ n) (hscan : 8 ∣ n) {channel : BitVec 8}
    (haccepted : ¬8 < channel.toNat) :
    (∀ values v, ReadsMean values v n channel) ↔ channel ∈ ownRank := by
  obtain ⟨g, rfl⟩ : ∃ g, n = 8 * (g + 4) := by
    obtain ⟨m, rfl⟩ := hscan
    rw [adcBufferSize] at hfull
    exact ⟨m - 4, by omega⟩
  refine ⟨fun hreads ↦ ?_, fun hown values v ↦ readsMean_of_ownRank hown values v g⟩
  by_contra hother
  -- the inputs without a rank of their own, and the one that is no input
  have hcases : channel = 5 ∨ channel = 6 ∨ channel = 8 := by
    clear hreads
    revert channel
    decide
  rcases hcases with rfl | rfl | rfl
  · exact not_readsMean_secondOfFive (fun _ ↦ 0) g (hreads _ _)
  · exact not_readsMean_battery (fun _ ↦ 0) (fun _ ↦ 0) g (hreads _ _)
  · obtain ⟨-, -, -, -, -, r, -, hread, -⟩ := hreads (fun _ ↦ 0) (fun _ ↦ 0)
    rw [adcRead_eight] at hread
    exact absurd hread (by simp)

theorem readsMean_iff_stick0 :
    (∀ values v, ReadsMean values v 40 0) ↔ (0 : BitVec 8) ∈ ownRank :=
  readsMean_iff (by decide) (by decide) (by decide)

/-- The reading of the battery input after the first 32 conversions is not its mean. -/
theorem not_readsMean_six : ¬ReadsMean (fun _ ↦ 0) (fun i ↦ BitVec.ofNat 16 i) 32 6 :=
  not_readsMean_battery _ _ 0

end Martink.Adc
