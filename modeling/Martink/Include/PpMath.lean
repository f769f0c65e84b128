import Mathlib.Data.Nat.Log
import Mathlib.Tactic

/-!
# Preprocessor mathematics

`pp_math.h` computes a base-two logarithm at compile time by halving the word: each macro tests
the upper half of its operand and hands one half on to the macro of half the width. `NEXT_POW2`
rounds a size up to a power of two, which is what lets the circular buffers replace a remainder by
a mask.

The six macros differ only in their width, so they are one definition applied to six widths, and
their correctness is one lemma, `log2Step_eq`, applied six times.
-/

namespace Martink

/-! ## The halving step -/

/-- The body shared by `__LOG2A` to `__LOG2E`: if a bit of the upper half is set, count the half
and continue with the upper half, else continue with the operand itself. -/
def log2Step (half mask : ℕ) (next : ℕ → ℕ) (s : ℕ) : ℕ :=
  if s &&& mask ≠ 0 then half + next (s >>> half) else next s

def log2F (s : ℕ) : ℕ := if s &&& 0x2 ≠ 0 then 1 else 0

def log2E (s : ℕ) : ℕ := log2Step 2 0xc log2F s

def log2D (s : ℕ) : ℕ := log2Step 4 0xf0 log2E s

def log2C (s : ℕ) : ℕ := log2Step 8 0xff00 log2D s

def log2B (s : ℕ) : ℕ := log2Step 16 0xffff0000 log2C s

def log2A (s : ℕ) : ℕ := log2Step 32 0xffffffff00000000 log2B s

/-- `LOG2_UINT64` is another name for the widest macro. -/
def log2Uint64 (s : ℕ) : ℕ := log2A s

/-- `NEXT_POW2`. The subtraction and the shift are those of a 64-bit `unsigned long`. -/
def nextPow2 (i : ℕ) : ℕ := (1 <<< (1 + log2Uint64 ((i + (2 ^ 64 - 1)) % 2 ^ 64))) % 2 ^ 64

/-! ## Correctness of the logarithm -/

/-- The mask of a step selects the upper half of an operand that fits in two halves. -/
theorem and_upperMask {half s : ℕ} (hs : s < 2 ^ (half + half)) :
    s &&& ((2 ^ half - 1) <<< half) = (s / 2 ^ half) <<< half := by
  have hdiv : s / 2 ^ half < 2 ^ half := by
    rw [Nat.div_lt_iff_lt_mul (Nat.two_pow_pos half), ← pow_add]
    exact hs
  apply Nat.eq_of_testBit_eq
  intro i
  rw [Nat.testBit_and, Nat.testBit_shiftLeft, Nat.testBit_shiftLeft, Nat.testBit_two_pow_sub_one,
    ← Nat.shiftRight_eq_div_pow]
  by_cases hi : half ≤ i
  · have hsub : half + (i - half) = i := by omega
    rw [Nat.testBit_shiftRight, hsub]
    by_cases hlt : i - half < half
    · simp [hi, hlt]
    · have hbit : s.testBit i = false :=
        Nat.testBit_lt_two_pow (lt_of_lt_of_le hs (Nat.pow_le_pow_right two_pos (by omega)))
      simp [hbit]
  · simp [hi]

/-- One step is correct on double width as soon as the next macro is correct on single width. -/
theorem log2Step_eq {half mask : ℕ} {next : ℕ → ℕ} (hmask : mask = (2 ^ half - 1) <<< half)
    (hnext : ∀ s, s < 2 ^ half → next s = Nat.log2 s) {s : ℕ} (hs : s < 2 ^ (half + half)) :
    log2Step half mask next s = Nat.log2 s := by
  have hdiv : s / 2 ^ half < 2 ^ half := by
    rw [Nat.div_lt_iff_lt_mul (Nat.two_pow_pos half), ← pow_add]
    exact hs
  rw [log2Step, hmask, and_upperMask hs]
  by_cases hlow : s < 2 ^ half
  · rw [Nat.div_eq_of_lt hlow, if_neg (by simp), hnext s hlow]
  · have hpos : 0 < s / 2 ^ half := Nat.div_pos (not_lt.mp hlow) (Nat.two_pow_pos half)
    have hne : (s / 2 ^ half) <<< half ≠ 0 := by
      rw [Nat.shiftLeft_eq]
      positivity
    rw [if_pos hne, Nat.shiftRight_eq_div_pow, hnext _ hdiv, Nat.log2_eq_log_two,
      Nat.log2_eq_log_two, Nat.log_div_base_pow]
    have hle : half ≤ Nat.log 2 s := Nat.le_log_of_pow_le one_lt_two (not_lt.mp hlow)
    omega

theorem log2F_eq {s : ℕ} (hs : s < 2 ^ 2) : log2F s = Nat.log2 s := by
  interval_cases s <;> decide

theorem log2E_eq {s : ℕ} (hs : s < 2 ^ 4) : log2E s = Nat.log2 s :=
  log2Step_eq (by decide) (fun _ h ↦ log2F_eq h) hs

theorem log2D_eq {s : ℕ} (hs : s < 2 ^ 8) : log2D s = Nat.log2 s :=
  log2Step_eq (by decide) (fun _ h ↦ log2E_eq h) hs

theorem log2C_eq {s : ℕ} (hs : s < 2 ^ 16) : log2C s = Nat.log2 s :=
  log2Step_eq (by decide) (fun _ h ↦ log2D_eq h) hs

theorem log2B_eq {s : ℕ} (hs : s < 2 ^ 32) : log2B s = Nat.log2 s :=
  log2Step_eq (by decide) (fun _ h ↦ log2C_eq h) hs

theorem log2A_eq {s : ℕ} (hs : s < 2 ^ 64) : log2A s = Nat.log2 s :=
  log2Step_eq (by decide) (fun _ h ↦ log2B_eq h) hs

/-- **The logarithm.** On every 64-bit operand `LOG2_UINT64` is the floor of the base-two
logarithm; it is `0` on the operand `0`, which has none. -/
theorem log2Uint64_eq {s : ℕ} (hs : s < 2 ^ 64) : log2Uint64 s = Nat.log2 s := log2A_eq hs

/-! ## Rounding up to a power of two -/

theorem nextPow2_eq {i : ℕ} (h2 : 2 ≤ i) (hi : i ≤ 2 ^ 63) :
    nextPow2 i = 2 ^ (1 + Nat.log 2 (i - 1)) := by
  have hpred : (i + (2 ^ 64 - 1)) % 2 ^ 64 = i - 1 := by omega
  have hlog : Nat.log 2 (i - 1) < 63 := Nat.log_lt_of_lt_pow (by omega) (by omega)
  rw [nextPow2, hpred, log2Uint64_eq (by omega), Nat.log2_eq_log_two, Nat.shiftLeft_eq, one_mul,
    Nat.mod_eq_of_lt (Nat.pow_lt_pow_right one_lt_two (by omega))]

/-- **Rounding up.** -/
theorem isLeast_nextPow2 {i : ℕ} (h2 : 2 ≤ i) (hi : i ≤ 2 ^ 63) :
    IsLeast {p | (∃ k, p = 2 ^ k) ∧ i ≤ p} (nextPow2 i) := by
  rw [nextPow2_eq h2 hi]
  refine ⟨⟨⟨_, rfl⟩, ?_⟩, ?_⟩
  · have hlt := Nat.lt_pow_succ_log_self one_lt_two (i - 1)
    rw [Nat.add_comm]
    omega
  · rintro _ ⟨⟨k, rfl⟩, hk⟩
    have hle := Nat.pow_log_le_self 2 (by omega : i - 1 ≠ 0)
    have hlog : Nat.log 2 (i - 1) < k := (Nat.pow_lt_pow_iff_right one_lt_two).mp (by omega)
    exact Nat.pow_le_pow_right two_pos (by omega)

/-- A power of two is its own round-up. -/
theorem nextPow2_two_pow {k : ℕ} (h1 : 1 ≤ k) (hk : k ≤ 63) : nextPow2 (2 ^ k) = 2 ^ k :=
  (isLeast_nextPow2 (Nat.le_self_pow (by omega) 2) (Nat.pow_le_pow_right two_pos hk)).unique
    ⟨⟨⟨k, rfl⟩, le_rfl⟩, fun _ hp ↦ hp.2⟩

end Martink
