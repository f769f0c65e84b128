import Mathlib.Data.BitVec
import Mathlib.Tactic

/-!
# Machine integers

C computes with `int` and converts when it stores a result: `u16` is the conversion to `uint16_t`,
`s16` the one to `int16_t`.

Where the width of `int` matters, it is a parameter: on the AVR an `int` has 16 bits and `uint16_t`
is `unsigned int`, on the STM32 it has 32 bits and `uint16_t` is promoted to it.

A formula over words is followed by writing each word as `BitVec.ofInt w z`, for the integer `z`
that it would be without a limit. The limit matters where a word is shifted to the right, divided or
compared: the lemmas for these say what becomes of `z`.
-/

namespace Martink

def u16 (z : ℤ) : BitVec 16 := BitVec.ofInt 16 z

def s16 (z : ℤ) : ℤ := (z + 32768) % 65536 - 32768

inductive IntWidth
  | bits16
  | bits32
deriving DecidableEq

/-- The value of a sum or a difference of values of type `uint16_t`. -/
def IntWidth.sum : IntWidth → ℤ → ℤ
  | bits16, z => z % 65536
  | bits32, z => z

theorem toNat_u16 (z : ℤ) : ((u16 z).toNat : ℤ) = z % 65536 := by
  rw [u16, BitVec.toNat_ofInt]
  omega

theorem toNat_u16_of_lt {z : ℤ} (h : 0 ≤ z) (hlt : z < 65536) : ((u16 z).toNat : ℤ) = z := by
  rw [toNat_u16]
  omega

@[simp] theorem toNat_u16_natCast (n : ℕ) : (u16 n).toNat = n % 65536 := by
  have h := toNat_u16 n
  omega

@[simp] theorem u16_toNat (x : BitVec 16) : u16 x.toNat = x := by
  apply BitVec.eq_of_toNat_eq
  rw [toNat_u16_natCast]
  omega

@[simp] theorem s16_toNat_u16 (z : ℤ) : s16 (u16 z).toNat = s16 z := by
  rw [toNat_u16, s16, s16]
  omega

theorem s16_of_range {z : ℤ} (h : -32768 ≤ z) (hlt : z < 32768) : s16 z = z := by
  rw [s16]
  omega

theorem s16_range (z : ℤ) : -32768 ≤ s16 z ∧ s16 z < 32768 := by
  rw [s16]
  omega

/-! ## Words of known integers -/

section Words

variable {w : ℕ}

theorem setWidth_eq_ofInt {v : ℕ} (x : BitVec v) : x.setWidth w = BitVec.ofInt w x.toNat := by
  refine BitVec.eq_of_toNat_eq ?_
  rw [BitVec.toNat_setWidth, BitVec.ofInt_natCast, BitVec.toNat_ofNat]

theorem ofInt_sub (x y : ℤ) :
    BitVec.ofInt w (x - y) = BitVec.ofInt w x - BitVec.ofInt w y := by
  refine BitVec.eq_of_toInt_eq ?_
  rw [BitVec.toInt_sub, BitVec.toInt_ofInt, BitVec.toInt_ofInt, BitVec.toInt_ofInt,
    Int.sub_bmod_bmod, Int.bmod_sub_bmod]

theorem ofInt_shiftLeft (z : ℤ) (n : ℕ) :
    BitVec.ofInt w z <<< n = BitVec.ofInt w (z * 2 ^ n) := by
  have hpow : BitVec.ofInt w (2 ^ n) = BitVec.twoPow w n := by
    have hcast : (2 ^ n : ℤ) = (2 ^ n : ℕ) := by push_cast; rfl
    refine BitVec.eq_of_toNat_eq ?_
    rw [hcast, BitVec.ofInt_natCast, BitVec.toNat_ofNat, BitVec.toNat_twoPow]
  rw [BitVec.shiftLeft_eq_mul_twoPow, BitVec.ofInt_mul, hpow]

/-- An arithmetic shift rounds the value that the word has as a signed one. -/
theorem ofInt_sshiftRight (z : ℤ) (n : ℕ) :
    (BitVec.ofInt w z).sshiftRight n = BitVec.ofInt w (z.bmod (2 ^ w) / 2 ^ n) := by
  rw [BitVec.sshiftRight_eq, BitVec.toInt_ofInt, Int.shiftRight_eq_div_pow]
  rfl

/-- A logical shift rounds the value that it has as an unsigned one. -/
theorem ofInt_ushiftRight (z : ℤ) (n : ℕ) :
    BitVec.ofInt w z >>> n = BitVec.ofInt w (z % 2 ^ w / 2 ^ n) := by
  have hpos : (0 : ℤ) < 2 ^ w := by positivity
  obtain ⟨m, hm⟩ := Int.eq_ofNat_of_zero_le (Int.emod_nonneg z hpos.ne')
  have hlt : m < 2 ^ w := by
    have hmod := Int.emod_lt_of_pos z hpos
    rw [hm] at hmod
    exact_mod_cast hmod
  have hdiv : z % 2 ^ w / 2 ^ n = (m / 2 ^ n : ℕ) := by
    rw [hm]
    norm_cast
  have hz : (z % (2 ^ w : ℕ)).toNat = m := by
    push_cast
    rw [hm, Int.toNat_natCast]
  refine BitVec.eq_of_toNat_eq ?_
  rw [hdiv, BitVec.toNat_ushiftRight, BitVec.toNat_ofInt, BitVec.ofInt_natCast, BitVec.toNat_ofNat,
    Nat.mod_eq_of_lt (lt_of_le_of_lt (Nat.div_le_self _ _) hlt), hz, Nat.shiftRight_eq_div_pow]

theorem bmod_eq_self {z : ℤ} (h : -2 ^ w ≤ 2 * z) (hlt : 2 * z < 2 ^ w) : z.bmod (2 ^ w) = z :=
  Int.bmod_eq_of_le_mul_two (by push_cast; linarith) (by push_cast; linarith)

theorem ofInt_eq_zero_iff {z : ℤ} (h : -2 ^ w ≤ 2 * z) (hlt : 2 * z < 2 ^ w) :
    BitVec.ofInt w z = 0 ↔ z = 0 := by
  have hzero : (0 : BitVec w).toInt = 0 := BitVec.toInt_zero
  rw [← BitVec.toInt_inj, BitVec.toInt_ofInt, bmod_eq_self h hlt, hzero]

/-- A signed division of words that hold their integers. -/
theorem ofInt_sdiv {a d : ℤ} (ha : -2 ^ w ≤ 2 * a) (halt : 2 * a < 2 ^ w) (hd : -2 ^ w ≤ 2 * d)
    (hdlt : 2 * d < 2 ^ w) :
    (BitVec.ofInt w a).sdiv (BitVec.ofInt w d) = BitVec.ofInt w (a.tdiv d) := by
  refine BitVec.eq_of_toInt_eq ?_
  rw [BitVec.toInt_sdiv, BitVec.toInt_ofInt, BitVec.toInt_ofInt, BitVec.toInt_ofInt,
    bmod_eq_self ha halt, bmod_eq_self hd hdlt]

end Words

end Martink
