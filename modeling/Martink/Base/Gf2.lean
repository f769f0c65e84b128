import Mathlib.Data.Nat.Bitwise
import Mathlib.Data.Nat.Size
import Mathlib.Data.ZMod.Basic
import Mathlib.RingTheory.AdjoinRoot
import Mathlib.Tactic

/-!
# Bit strings as polynomials

Bit `i` of a number is the coefficient of `X ^ i` in a polynomial over the field with two elements.
Then the exclusive or is the sum, and a shift to the left is a product with `X`.

`residue m a` is the class of `a` modulo the polynomial of `m`. The classes of the numbers with
fewer bits than the modulus are distinct, so arithmetic that keeps to such numbers is arithmetic in
the ring of the classes.
-/

open Polynomial

namespace Martink

namespace Gf2

noncomputable def poly (n : ℕ) : (ZMod 2)[X] :=
  ∑ i ∈ Finset.range n.size, if n.testBit i then X ^ i else 0

theorem coeff_poly (n i : ℕ) : (poly n).coeff i = if n.testBit i then 1 else 0 := by
  have hterm : ∀ k, (if n.testBit k then X ^ k else (0 : (ZMod 2)[X])).coeff i
      = if k = i then (if n.testBit i then 1 else 0) else 0 := by
    intro k
    rcases eq_or_ne k i with rfl | hk
    · rw [if_pos rfl]
      split_ifs
      · rw [coeff_X_pow, if_pos rfl]
      · rfl
    · rw [if_neg hk]
      split_ifs
      · rw [coeff_X_pow, if_neg hk.symm]
      · rfl
  rw [poly, finsetSum_coeff, Finset.sum_congr rfl fun k _ ↦ hterm k, Finset.sum_ite_eq']
  by_cases hi : i < n.size
  · rw [if_pos (Finset.mem_range.mpr hi)]
  · rw [if_neg (fun hmem ↦ hi (Finset.mem_range.mp hmem)),
      Nat.testBit_eq_false_of_lt (Nat.size_le.mp (not_lt.mp hi))]
    rfl

theorem poly_injective : Function.Injective poly := by
  intro a b h
  refine Nat.eq_of_testBit_eq fun i ↦ ?_
  have hi := congrArg (coeff · i) h
  simp only [coeff_poly] at hi
  cases ha : a.testBit i <;> cases hb : b.testBit i <;> simp_all

@[simp] theorem poly_xor (a b : ℕ) : poly (a ^^^ b) = poly a + poly b := by
  ext i
  rw [coeff_add, coeff_poly, coeff_poly, coeff_poly, Nat.testBit_xor]
  cases a.testBit i <;> cases b.testBit i <;> decide

@[simp] theorem poly_zero : poly 0 = 0 := by simp [poly]

theorem poly_two_pow (k : ℕ) : poly (2 ^ k) = X ^ k := by
  ext i
  rw [coeff_poly, coeff_X_pow, Nat.testBit_two_pow]
  simp [eq_comm]

@[simp] theorem poly_one : poly 1 = 1 := by simpa using poly_two_pow 0

@[simp] theorem poly_two : poly 2 = X := by simpa using poly_two_pow 1

theorem poly_shiftLeft (a k : ℕ) : poly (a <<< k) = X ^ k * poly a := by
  ext i
  rw [coeff_poly, Nat.testBit_shiftLeft, coeff_X_pow_mul']
  by_cases hk : k ≤ i
  · simp [hk, coeff_poly]
  · simp [hk]

theorem poly_two_mul (a : ℕ) : poly (2 * a) = X * poly a := by
  have h := poly_shiftLeft a 1
  rwa [Nat.shiftLeft_eq, pow_one, pow_one, Nat.mul_comm] at h

/-- A number by its lowest bit and the others. -/
theorem poly_eq (n : ℕ) : poly n = (if n.testBit 0 then 1 else 0) + X * poly (n / 2) := by
  ext i
  cases i with
  | zero =>
    rw [coeff_poly, coeff_add, coeff_X_mul_zero, add_zero]
    split_ifs <;> simp
  | succ i =>
    rw [coeff_poly, coeff_add, coeff_X_mul, coeff_poly, Nat.testBit_succ]
    have hconst : (if n.testBit 0 then 1 else (0 : (ZMod 2)[X])).coeff (i + 1) = 0 := by
      split_ifs
      · rw [coeff_one, if_neg (Nat.succ_ne_zero i)]
      · rfl
    rw [hconst, zero_add]

theorem degree_poly_lt {n k : ℕ} : (poly n).degree < k ↔ n < 2 ^ k := by
  rw [degree_lt_iff_coeff_zero]
  constructor
  · intro h
    refine Nat.lt_pow_two_of_testBit n fun i hi ↦ ?_
    have hcoeff := h i (by exact_mod_cast hi)
    rw [coeff_poly] at hcoeff
    by_contra hbit
    rw [Bool.not_eq_false] at hbit
    simp [hbit] at hcoeff
  · intro h i hi
    rw [coeff_poly, Nat.testBit_lt_two_pow (lt_of_lt_of_le h (Nat.pow_le_pow_right two_pos hi))]
    rfl

@[simp] theorem poly_eq_zero_iff {n : ℕ} : poly n = 0 ↔ n = 0 :=
  ⟨fun h ↦ poly_injective (h.trans poly_zero.symm), fun h ↦ h ▸ poly_zero⟩

/-- The degree of a number is the place of its highest bit. -/
theorem natDegree_poly (n : ℕ) : (poly n).natDegree = n.size - 1 := by
  rcases Nat.eq_zero_or_pos n with rfl | hn
  · rw [poly_zero, natDegree_zero, Nat.size_zero]
  have hlt : (poly n).natDegree < n.size := by
    rw [natDegree_lt_iff_degree_lt (by simpa using hn.ne'), degree_poly_lt]
    exact Nat.lt_size_self n
  have hsize : 0 < n.size := Nat.size_pos.mpr hn
  refine le_antisymm (by omega) ?_
  by_contra hle
  have hdegree : (poly n).degree < (n.size - 1 : ℕ) :=
    (natDegree_lt_iff_degree_lt (by simpa using hn.ne')).mp (not_le.mp hle)
  have hsmall := Nat.size_le.mpr (degree_poly_lt.mp hdegree)
  omega

theorem degree_poly {n : ℕ} (h : n ≠ 0) : (poly n).degree = (n.size - 1 : ℕ) := by
  rw [degree_eq_natDegree (by simpa using h), natDegree_poly]

/-! ## The classes modulo a polynomial -/

noncomputable def residue (m a : ℕ) : AdjoinRoot (poly m) := AdjoinRoot.mk (poly m) (poly a)

section Residue

variable {m : ℕ}

@[simp] theorem residue_zero : residue m 0 = 0 := by simp [residue]

@[simp] theorem residue_one : residue m 1 = 1 := by simp [residue]

@[simp] theorem residue_xor (a b : ℕ) : residue m (a ^^^ b) = residue m a + residue m b := by
  simp [residue]

@[simp] theorem residue_self : residue m m = 0 := by simp [residue]

theorem residue_two_mul (a : ℕ) : residue m (2 * a) = residue m 2 * residue m a := by
  rw [residue, residue, residue, poly_two_mul, map_mul, poly_two]

theorem residue_shiftLeft (a k : ℕ) : residue m (a <<< k) = residue m 2 ^ k * residue m a := by
  rw [residue, residue, residue, poly_shiftLeft, map_mul, map_pow, poly_two]

@[simp] theorem residue_two_eq_zero : (2 : AdjoinRoot (poly m)) = 0 := by
  have h : (2 : ZMod 2) = 0 := rfl
  rw [← map_ofNat (algebraMap (ZMod 2) (AdjoinRoot (poly m))) 2, h, map_zero]

theorem residue_eq_iff_dvd {a b : ℕ} : residue m a = residue m b ↔ poly m ∣ poly (a ^^^ b) := by
  have hsub : poly a - poly b = poly (a ^^^ b) := by
    rw [poly_xor, sub_eq_add_neg, CharTwo.neg_eq]
  rw [residue, residue, AdjoinRoot.mk_eq_mk, hsub]

/-- **Numbers with fewer bits than the modulus have distinct classes.** -/
theorem residue_injOn {k a b : ℕ} (hm : 2 ^ k ≤ m) (ha : a < 2 ^ k) (hb : b < 2 ^ k)
    (h : residue m a = residue m b) : a = b := by
  rw [residue_eq_iff_dvd] at h
  have hlt : a ^^^ b < 2 ^ k := Nat.xor_lt_two_pow ha hb
  have hmpos : m ≠ 0 := by
    rintro rfl
    exact absurd hm (not_le.mpr (Nat.two_pow_pos k))
  have hdegree : (poly (a ^^^ b)).degree < (poly m).degree := by
    refine lt_of_lt_of_le (degree_poly_lt.mpr hlt) ?_
    by_contra hle
    exact absurd (degree_poly_lt.mp (not_le.mp hle)) (not_lt.mpr hm)
  have hzero := eq_zero_of_dvd_of_degree_lt h hdegree
  exact Nat.xor_eq_zero_iff.mp (poly_eq_zero_iff.mp hzero)

/-- Modulo `X ^ k` nothing is left of the bits from `k` on. -/
theorem residue_mod_two_pow (k n : ℕ) : residue (2 ^ k) (n % 2 ^ k) = residue (2 ^ k) n := by
  have hpow : residue (2 ^ k) 2 ^ k = 0 := by
    rw [← residue_self, residue, residue, poly_two, poly_two_pow, map_pow]
  have hn : n = (n / 2 ^ k) <<< k ^^^ n % 2 ^ k := by
    refine Nat.eq_of_testBit_eq fun i ↦ ?_
    rw [Nat.testBit_xor, Nat.testBit_shiftLeft, Nat.testBit_mod_two_pow, Nat.testBit_div_two_pow]
    by_cases hi : k ≤ i
    · simp [hi, Nat.not_lt.mpr hi]
    · simp [hi, Nat.lt_of_not_le hi]
  conv_rhs => rw [hn]
  rw [residue_xor, residue_shiftLeft, hpow, zero_mul, zero_add]

/-! ### Doubling -/

/-- A number is doubled, and the modulus is taken away when the result has a bit too many. -/
def double (m k a : ℕ) : ℕ := 2 * a ^^^ if (2 * a).testBit k then m else 0

theorem residue_double (m k a : ℕ) : residue m (double m k a) = residue m 2 * residue m a := by
  rw [double, residue_xor, residue_two_mul]
  split_ifs <;> simp

end Residue

end Gf2

end Martink
