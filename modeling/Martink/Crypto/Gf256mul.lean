import Martink.Base.Gf2

/-!
# Products of bytes

`gf256mul` is meant to multiply in GF(2)[X]/(X ^ 8 + reducer). It subtracts the modulus when a bit
is lost from `b`, but it looks for that bit in `a`: for a multiplier below 128 the modulus is never
subtracted, and what is computed is the product modulo `X ^ 8`.
-/

open Polynomial

namespace Martink

namespace Aes

open Gf2

/-- The loop of `gf256mul`, with `ret`. -/
def gf256mulLoop (a b reducer ret : BitVec 8) : BitVec 8 :=
  if a = 0 then ret
  else
    gf256mulLoop (a >>> 1)
      (if a &&& 0x80 ≠ 0 then b <<< 1 ^^^ reducer else b <<< 1)
      reducer
      (if a &&& 1 ≠ 0 then ret ^^^ b else ret)
termination_by a.toNat
decreasing_by
  rename_i h
  rw [BitVec.toNat_ushiftRight, Nat.shiftRight_eq_div_pow]
  have hpos : a.toNat ≠ 0 := fun hzero ↦ h (BitVec.eq_of_toNat_eq hzero)
  omega

def gf256mul (a b reducer : BitVec 8) : BitVec 8 := gf256mulLoop a b reducer 0

/-! ## The product that is computed -/

/-- A byte modulo `X ^ 8`. -/
noncomputable def trunc (b : BitVec 8) : AdjoinRoot (poly (2 ^ 8)) := residue (2 ^ 8) b.toNat

@[simp] theorem trunc_zero : trunc 0 = 0 := residue_zero

@[simp] theorem trunc_one : trunc 1 = 1 := residue_one

@[simp] theorem trunc_xor (a b : BitVec 8) : trunc (a ^^^ b) = trunc a + trunc b := by
  rw [trunc, BitVec.toNat_xor, residue_xor, trunc, trunc]

theorem trunc_injective : Function.Injective trunc := fun a b h ↦
  BitVec.eq_of_toNat_eq (residue_injOn le_rfl a.isLt b.isLt h)

@[simp] theorem trunc_shiftLeft_one (b : BitVec 8) : trunc (b <<< 1) = trunc 2 * trunc b := by
  have htwo : (2 : BitVec 8).toNat = 2 := rfl
  rw [trunc, BitVec.toNat_shiftLeft, residue_mod_two_pow, residue_shiftLeft, pow_one, trunc, trunc,
    htwo]

theorem trunc_eq (a : BitVec 8) :
    trunc a = trunc (if a &&& 1 ≠ 0 then (1 : BitVec 8) else 0) + trunc 2 * trunc (a >>> 1) := by
  have hbits : ∀ x : BitVec 8,
      x = (if x &&& 1 ≠ 0 then (1 : BitVec 8) else 0) ^^^ (x >>> 1) <<< 1 := by decide
  conv_lhs => rw [hbits a]
  rw [trunc_xor, trunc_shiftLeft_one]

theorem and_top_eq_zero : ∀ a : BitVec 8, a.toNat < 128 → a &&& 0x80 = 0 := by decide

/-- With the highest bit of `a` clear, the reducer has no effect. -/
theorem trunc_gf256mulLoop (reducer a b ret : BitVec 8) (h : a.toNat < 128) :
    trunc (gf256mulLoop a b reducer ret) = trunc ret + trunc a * trunc b := by
  fun_induction gf256mulLoop a b reducer ret with
  | case1 b ret =>
    rw [trunc_zero, zero_mul, add_zero]
  | case2 a b ret hne ih =>
    have hhalf : (a >>> 1).toNat < 128 := by
      rw [BitVec.toNat_ushiftRight, Nat.shiftRight_eq_div_pow]
      omega
    have hclear : ¬a &&& 0x80 ≠ 0 := not_not.mpr (and_top_eq_zero a h)
    have hstep := ih hhalf
    simp only [dite_eq_ite] at hstep
    rw [if_neg hclear, trunc_shiftLeft_one] at hstep
    rw [if_neg hclear, hstep, trunc_eq a]
    split_ifs <;> simp only [trunc_xor, trunc_zero, trunc_one] <;> ring

/-- **The product modulo `X ^ 8`**, for any reducer. -/
theorem trunc_gf256mul {a : BitVec 8} (h : a.toNat < 128) (b reducer : BitVec 8) :
    trunc (gf256mul a b reducer) = trunc a * trunc b := by
  rw [gf256mul, trunc_gf256mulLoop reducer a b 0 h, trunc_zero, zero_add]

/-! ## The product that is meant -/

/-- A byte modulo `X ^ 8 + reducer`. -/
noncomputable def reduced (reducer b : BitVec 8) : AdjoinRoot (poly (2 ^ 8 ^^^ reducer.toNat)) :=
  residue (2 ^ 8 ^^^ reducer.toNat) b.toNat

@[simp] theorem reduced_xor (reducer a b : BitVec 8) :
    reduced reducer (a ^^^ b) = reduced reducer a + reduced reducer b := by
  rw [reduced, BitVec.toNat_xor, residue_xor, reduced, reduced]

/-- The polynomial `X` has no common factor with a modulus that has a constant term. -/
theorem isCoprime_X_pow {reducer : BitVec 8} (hodd : reducer.toNat % 2 = 1) (k : ℕ) :
    IsCoprime (poly (2 ^ 8 ^^^ reducer.toNat)) (X ^ k) := by
  refine IsCoprime.pow_right ?_
  rw [poly_xor, poly_two_pow, poly_eq reducer.toNat, if_pos (by simpa using hodd)]
  refine ⟨1, X ^ 7 + poly (reducer.toNat / 2), ?_⟩
  have hchar : (2 : (ZMod 2)[X]) = 0 := CharTwo.two_eq_zero
  linear_combination (X ^ 8 + X * poly (reducer.toNat / 2)) * hchar

theorem degree_mul_lt_iff {a b : ℕ} (ha : a < 2 ^ 8) (hb : b < 2 ^ 8) :
    (poly a * poly b).degree < 8 ↔ a.size + b.size ≤ 9 := by
  have hasize := Nat.size_le.mpr ha
  have hbsize := Nat.size_le.mpr hb
  rcases Nat.eq_zero_or_pos a with rfl | hapos
  · simp only [poly_zero, zero_mul, degree_zero, Nat.size_zero]
    exact iff_of_true (WithBot.bot_lt_coe 8) (by omega)
  rcases Nat.eq_zero_or_pos b with rfl | hbpos
  · simp only [poly_zero, mul_zero, degree_zero, Nat.size_zero]
    exact iff_of_true (WithBot.bot_lt_coe 8) (by omega)
  have haone := Nat.size_pos.mpr hapos
  have hbone := Nat.size_pos.mpr hbpos
  rw [degree_mul, degree_poly hapos.ne', degree_poly hbpos.ne']
  norm_cast
  omega

theorem degree_mul_lt {a b : ℕ} (ha : a < 2 ^ 8) (hb : b < 2 ^ 8) :
    (poly a * poly b).degree < ((8 + 8 : ℕ) : WithBot ℕ) := by
  have hasize := Nat.size_le.mpr ha
  have hbsize := Nat.size_le.mpr hb
  rcases eq_or_ne a 0 with rfl | hane
  · rw [poly_zero, zero_mul, degree_zero]
    exact WithBot.bot_lt_coe 16
  rcases eq_or_ne b 0 with rfl | hbne
  · rw [poly_zero, mul_zero, degree_zero]
    exact WithBot.bot_lt_coe 16
  rw [degree_mul, degree_poly hane, degree_poly hbne]
  norm_cast
  omega

/-- What is computed and what is meant differ by a multiple of `X ^ 8`. -/
theorem exists_quotient {a : BitVec 8} (h : a.toNat < 128) (b reducer : BitVec 8) :
    ∃ q, poly (gf256mul a b reducer).toNat = poly a.toNat * poly b.toNat + X ^ 8 * q := by
  have hmul := trunc_gf256mul h b reducer
  rw [trunc, trunc, trunc, residue, residue, residue, ← map_mul, AdjoinRoot.mk_eq_mk,
    poly_two_pow] at hmul
  obtain ⟨q, hq⟩ := hmul
  exact ⟨q, by rw [← hq]; ring⟩

theorem degree_quotient_lt {q : (ZMod 2)[X]} {n : ℕ}
    (h : (X ^ 8 * q).degree < ((8 + n : ℕ) : WithBot ℕ)) : q.degree < (n : WithBot ℕ) := by
  rcases eq_or_ne q 0 with rfl | hq
  · exact WithBot.bot_lt_coe n
  rw [degree_mul, degree_X_pow, degree_eq_natDegree hq] at h
  rw [degree_eq_natDegree hq]
  norm_cast at h ⊢
  omega

/-- **The product is the one that is meant exactly if nothing has to be subtracted.** -/
theorem gf256mul_reduced_iff {a : BitVec 8} (h : a.toNat < 128) (b : BitVec 8) {reducer : BitVec 8}
    (hodd : reducer.toNat % 2 = 1) :
    reduced reducer (gf256mul a b reducer) = reduced reducer a * reduced reducer b ↔
      a.toNat.size + b.toNat.size ≤ 9 := by
  obtain ⟨q, hq⟩ := exists_quotient h b reducer
  have hdiff : X ^ 8 * q = poly (gf256mul a b reducer).toNat + poly a.toNat * poly b.toNat := by
    rw [hq]
    linear_combination -(poly a.toNat * poly b.toNat) * (CharTwo.two_eq_zero :
      (2 : (ZMod 2)[X]) = 0)
  have hlt : (poly (gf256mul a b reducer).toNat).degree < 8 := degree_poly_lt.mpr (BitVec.isLt _)
  have hmodulus : (poly (2 ^ 8 ^^^ reducer.toNat)).degree = 8 := by
    rw [poly_xor, poly_two_pow, degree_add_eq_left_of_degree_lt, degree_X_pow]
    · rfl
    · rw [degree_X_pow]
      exact degree_poly_lt.mpr reducer.isLt
  rw [reduced, reduced, reduced, residue, residue, residue, ← map_mul, AdjoinRoot.mk_eq_mk,
    ← degree_mul_lt_iff a.isLt b.isLt]
  constructor
  · intro hdvd
    rw [hq, add_sub_cancel_left] at hdvd
    have hsmall : q.degree < ((8 : ℕ) : WithBot ℕ) := by
      refine degree_quotient_lt ?_
      rw [hdiff]
      refine lt_of_le_of_lt (degree_add_le _ _)
        (max_lt (hlt.trans ?_) (degree_mul_lt a.isLt b.isLt))
      norm_cast
    have hzero : q = 0 := by
      refine eq_zero_of_dvd_of_degree_lt ((isCoprime_X_pow hodd 8).dvd_of_dvd_mul_left hdvd) ?_
      rwa [hmodulus]
    rw [hzero, mul_zero, add_zero] at hq
    rwa [hq] at hlt
  · intro hdegree
    have hzero : q = 0 := by
      have hneg : q.degree < ((0 : ℕ) : WithBot ℕ) := by
        refine degree_quotient_lt ?_
        rw [hdiff]
        exact lt_of_le_of_lt (degree_add_le _ _) (max_lt hlt hdegree)
      exact degree_eq_bot.mp (Nat.WithBot.lt_zero_iff.mp hneg)
    rw [hq, hzero, mul_zero, add_zero, sub_self]
    exact dvd_zero _

end Aes

end Martink
