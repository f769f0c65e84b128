import Mathlib.Data.BitVec
import Mathlib.Tactic

/-!
# Single bits of a register

`bv n` is the value with bit `n` set, as it is stored in an 8-bit register: for `8 ≤ n` nothing of
it is left.
-/

namespace Martink

/-- The macro `_BV`, cut to 8 bits. -/
def bv (n : ℕ) : BitVec 8 := BitVec.ofNat 8 (1 <<< n)

@[simp] theorem getLsbD_bv (n b : ℕ) : (bv n).getLsbD b = (decide (b < 8) && decide (n = b)) := by
  rw [bv, BitVec.getLsbD_ofNat, Nat.shiftLeft_eq, one_mul, Nat.testBit_two_pow]

theorem bv_of_le {n : ℕ} (h : 8 ≤ n) : bv n = 0 := by
  refine BitVec.eq_of_getLsbD_eq fun b hb ↦ ?_
  rw [getLsbD_bv]
  simp
  omega

/-- Testing a bit by masking. -/
theorem and_bv_ne_zero_iff {x : BitVec 8} {n : ℕ} : x &&& bv n ≠ 0 ↔ x.getLsbD n = true := by
  constructor
  · intro h
    by_contra hbit
    refine h (BitVec.eq_of_getLsbD_eq fun b hb ↦ ?_)
    rw [BitVec.getLsbD_and, getLsbD_bv]
    by_cases hn : n = b
    · subst hn
      simp [Bool.eq_false_of_not_eq_true hbit]
    · simp [hn]
  · intro hbit hzero
    have hn : n < 8 := BitVec.lt_of_getLsbD hbit
    have h : (x &&& bv n).getLsbD n = true := by
      rw [BitVec.getLsbD_and, getLsbD_bv, hbit]
      simp [hn]
    rw [hzero] at h
    simp at h

end Martink
