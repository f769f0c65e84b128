import Mathlib.Data.List.Count
import Mathlib.Data.List.Nodup
import Martink.Radio.Nrf24l01

/-!
# What a scan shows

`nrf24l01_scan` shows for every channel how often it was busy, relative to the busiest one. The
counts have eight bits, and so does the number of passes, so that none of them overflows.

The readings of the carrier detector in a scan are the specification: `Counts` says that the array
holds how often each channel was busy in them.
-/

namespace Martink

open Nrf24

namespace Nrf24Chip

/-! ## Shades -/

/-- A turn of the inner loop, with the readings of the carrier detector. -/
def readStep (v : Nrf24Chip × List (ℕ × Bool)) (i : ℕ) : Nrf24Chip × List (ℕ × Bool) :=
  let r := v.1.scanChannel i
  (r.1, v.2 ++ [(i, r.2)])

def readPass (v : Nrf24Chip × List (ℕ × Bool)) : Nrf24Chip × List (ℕ × Bool) :=
  (List.range maxChannel).foldl readStep v

/-- The readings of a scan, in order, with their channels. -/
def readings (s : Nrf24Chip) (iterations : BitVec 8) : List (ℕ × Bool) :=
  (readPass^[iterations.toNat] (s, [])).2

/-- How often a channel was busy. -/
def seen (s : Nrf24Chip) (iterations : BitVec 8) (i : ℕ) : ℕ :=
  (s.readings iterations).count (i, true)

/-- The array holds how often each channel was busy, modulo 256. -/
def Counts (w : Nrf24Chip × (ℕ → BitVec 8)) (v : Nrf24Chip × List (ℕ × Bool)) : Prop :=
  w.1 = v.1 ∧ ∀ j, w.2 j = BitVec.ofNat 8 (v.2.count (j, true))

theorem Counts.step {w : Nrf24Chip × (ℕ → BitVec 8)} {v : Nrf24Chip × List (ℕ × Bool)}
    (h : Counts w v) (i : ℕ) : Counts (scanStep w i) (readStep v i) := by
  obtain ⟨s, counts⟩ := w
  obtain ⟨s', log⟩ := v
  obtain ⟨rfl, hcounts⟩ := h
  refine ⟨rfl, fun j ↦ ?_⟩
  rw [scanStep, readStep, List.count_append, List.count_singleton]
  dsimp only at hcounts ⊢
  by_cases hbusy : (s.scanChannel i).2
  · rw [if_pos hbusy, hbusy]
    by_cases hj : j = i
    · subst hj
      rw [Function.update_self, hcounts, if_pos (beq_self_eq_true _), BitVec.ofNat_add]
      rfl
    · rw [Function.update_of_ne hj, hcounts, if_neg (by simpa using Ne.symm hj), Nat.add_zero]
  · rw [if_neg hbusy, hcounts, if_neg (by simp [hbusy]), Nat.add_zero]

theorem Counts.steps (l : List ℕ) : ∀ {w : Nrf24Chip × (ℕ → BitVec 8)}
    {v : Nrf24Chip × List (ℕ × Bool)}, Counts w v →
      Counts (l.foldl scanStep w) (l.foldl readStep v) := by
  induction l with
  | nil => exact id
  | cons i l ih => exact fun h ↦ ih (h.step i)

theorem Counts.passes (n : ℕ) :
    ∀ {w : Nrf24Chip × (ℕ → BitVec 8)} {v : Nrf24Chip × List (ℕ × Bool)},
    Counts w v → Counts (scanPass^[n] w) (readPass^[n] v) := by
  induction n with
  | zero => exact id
  | succ n ih => exact fun h ↦ ih (h.steps (List.range maxChannel))

end Nrf24Chip

end Martink
