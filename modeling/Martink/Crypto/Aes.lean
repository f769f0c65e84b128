import Mathlib.LinearAlgebra.Matrix.Notation
import Martink.Crypto.Gf256mul

/-!
# The rounds of AES

A cipher state is four columns of four bytes: `s i j` is the byte `s[4 * i + j]` of the source. A
round key has the same form.

Because of `gf256mul`, columns are mixed modulo `X ^ 8` and not in the field with 256 elements. The
matrix of `aes_enc_round` and that of `aes_dec_round` are inverse in either ring, so what is
encrypted can still be decrypted.
-/

namespace Martink

namespace Aes

open Gf2

def sboxTable : List (BitVec 8) :=
  [
    0x63, 0x7c, 0x77, 0x7b, 0xf2, 0x6b, 0x6f, 0xc5, 0x30, 0x01, 0x67, 0x2b, 0xfe, 0xd7, 0xab, 0x76,
    0xca, 0x82, 0xc9, 0x7d, 0xfa, 0x59, 0x47, 0xf0, 0xad, 0xd4, 0xa2, 0xaf, 0x9c, 0xa4, 0x72, 0xc0,
    0xb7, 0xfd, 0x93, 0x26, 0x36, 0x3f, 0xf7, 0xcc, 0x34, 0xa5, 0xe5, 0xf1, 0x71, 0xd8, 0x31, 0x15,
    0x04, 0xc7, 0x23, 0xc3, 0x18, 0x96, 0x05, 0x9a, 0x07, 0x12, 0x80, 0xe2, 0xeb, 0x27, 0xb2, 0x75,
    0x09, 0x83, 0x2c, 0x1a, 0x1b, 0x6e, 0x5a, 0xa0, 0x52, 0x3b, 0xd6, 0xb3, 0x29, 0xe3, 0x2f, 0x84,
    0x53, 0xd1, 0x00, 0xed, 0x20, 0xfc, 0xb1, 0x5b, 0x6a, 0xcb, 0xbe, 0x39, 0x4a, 0x4c, 0x58, 0xcf,
    0xd0, 0xef, 0xaa, 0xfb, 0x43, 0x4d, 0x33, 0x85, 0x45, 0xf9, 0x02, 0x7f, 0x50, 0x3c, 0x9f, 0xa8,
    0x51, 0xa3, 0x40, 0x8f, 0x92, 0x9d, 0x38, 0xf5, 0xbc, 0xb6, 0xda, 0x21, 0x10, 0xff, 0xf3, 0xd2,
    0xcd, 0x0c, 0x13, 0xec, 0x5f, 0x97, 0x44, 0x17, 0xc4, 0xa7, 0x7e, 0x3d, 0x64, 0x5d, 0x19, 0x73,
    0x60, 0x81, 0x4f, 0xdc, 0x22, 0x2a, 0x90, 0x88, 0x46, 0xee, 0xb8, 0x14, 0xde, 0x5e, 0x0b, 0xdb,
    0xe0, 0x32, 0x3a, 0x0a, 0x49, 0x06, 0x24, 0x5c, 0xc2, 0xd3, 0xac, 0x62, 0x91, 0x95, 0xe4, 0x79,
    0xe7, 0xc8, 0x37, 0x6d, 0x8d, 0xd5, 0x4e, 0xa9, 0x6c, 0x56, 0xf4, 0xea, 0x65, 0x7a, 0xae, 0x08,
    0xba, 0x78, 0x25, 0x2e, 0x1c, 0xa6, 0xb4, 0xc6, 0xe8, 0xdd, 0x74, 0x1f, 0x4b, 0xbd, 0x8b, 0x8a,
    0x70, 0x3e, 0xb5, 0x66, 0x48, 0x03, 0xf6, 0x0e, 0x61, 0x35, 0x57, 0xb9, 0x86, 0xc1, 0x1d, 0x9e,
    0xe1, 0xf8, 0x98, 0x11, 0x69, 0xd9, 0x8e, 0x94, 0x9b, 0x1e, 0x87, 0xe9, 0xce, 0x55, 0x28, 0xdf,
    0x8c, 0xa1, 0x89, 0x0d, 0xbf, 0xe6, 0x42, 0x68, 0x41, 0x99, 0x2d, 0x0f, 0xb0, 0x54, 0xbb, 0x16]

theorem length_sboxTable : sboxTable.length = 256 := by decide +kernel

/-- `pgm_read_byte(aes_sbox + b)`. -/
def aesSbox (b : BitVec 8) : BitVec 8 := sboxTable.get ⟨b.toNat, length_sboxTable ▸ b.isLt⟩

abbrev CipherState := Fin 4 → Fin 4 → BitVec 8

scoped instance neZeroFour : NeZero 4 := ⟨by decide⟩

/-! ## The parts of a round -/

/-- What `aes_enc_round` does to a column. -/
def mixColumn (tmp : Fin 4 → BitVec 8) : Fin 4 → BitVec 8 :=
  let t := tmp 0 ^^^ tmp 1 ^^^ tmp 2 ^^^ tmp 3
  ![gf256mul 2 (tmp 0 ^^^ tmp 1) 0x1b ^^^ tmp 0 ^^^ t,
    gf256mul 2 (tmp 1 ^^^ tmp 2) 0x1b ^^^ tmp 1 ^^^ t,
    gf256mul 2 (tmp 2 ^^^ tmp 3) 0x1b ^^^ tmp 2 ^^^ t,
    gf256mul 2 (tmp 3 ^^^ tmp 0) 0x1b ^^^ tmp 3 ^^^ t]

/-- What `aes_dec_round` does to a column. -/
def invMixColumn (tmp : Fin 4 → BitVec 8) : Fin 4 → BitVec 8 :=
  let t := tmp 3 ^^^ tmp 2
  let u := tmp 1 ^^^ tmp 0
  let v := gf256mul 0x09 (t ^^^ u) 0x1b
  let w := v ^^^ gf256mul 0x04 (tmp 2 ^^^ tmp 0) 0x1b
  let v := v ^^^ gf256mul 0x04 (tmp 3 ^^^ tmp 1) 0x1b
  ![tmp 0 ^^^ w ^^^ gf256mul 0x02 u 0x1b,
    tmp 1 ^^^ v ^^^ gf256mul 0x02 (tmp 2 ^^^ tmp 1) 0x1b,
    tmp 2 ^^^ w ^^^ gf256mul 0x02 t 0x1b,
    tmp 3 ^^^ v ^^^ gf256mul 0x02 (tmp 0 ^^^ tmp 3) 0x1b]

/-- The longer form of the same that the source keeps in a comment. -/
def plainInvMixColumn (tmp : Fin 4 → BitVec 8) : Fin 4 → BitVec 8 :=
  ![gf256mul 0x0e (tmp 0) 0x1b ^^^ gf256mul 0x0b (tmp 1) 0x1b ^^^ gf256mul 0x0d (tmp 2) 0x1b
      ^^^ gf256mul 0x09 (tmp 3) 0x1b,
    gf256mul 0x09 (tmp 0) 0x1b ^^^ gf256mul 0x0e (tmp 1) 0x1b ^^^ gf256mul 0x0b (tmp 2) 0x1b
      ^^^ gf256mul 0x0d (tmp 3) 0x1b,
    gf256mul 0x0d (tmp 0) 0x1b ^^^ gf256mul 0x09 (tmp 1) 0x1b ^^^ gf256mul 0x0e (tmp 2) 0x1b
      ^^^ gf256mul 0x0b (tmp 3) 0x1b,
    gf256mul 0x0b (tmp 0) 0x1b ^^^ gf256mul 0x0d (tmp 1) 0x1b ^^^ gf256mul 0x09 (tmp 2) 0x1b
      ^^^ gf256mul 0x0e (tmp 3) 0x1b]

/-! ## The code -/

section Matrices

variable {R : Type*} [CommRing R] (x : R)

/-- The matrix of `aes_enc_round`, for the class `x` of `X`. -/
def mixMatrix : Matrix (Fin 4) (Fin 4) R :=
  !![x, x + 1, 1, 1;
    1, x, x + 1, 1;
    1, 1, x, x + 1;
    x + 1, 1, 1, x]

/-- The matrix of `aes_dec_round`, with the rows of the bits of 0x0e, 0x0b, 0x0d and 0x09. -/
def invMixMatrix : Matrix (Fin 4) (Fin 4) R :=
  !![x ^ 3 + x ^ 2 + x, x ^ 3 + x + 1, x ^ 3 + x ^ 2 + 1, x ^ 3 + 1;
    x ^ 3 + 1, x ^ 3 + x ^ 2 + x, x ^ 3 + x + 1, x ^ 3 + x ^ 2 + 1;
    x ^ 3 + x ^ 2 + 1, x ^ 3 + 1, x ^ 3 + x ^ 2 + x, x ^ 3 + x + 1;
    x ^ 3 + x + 1, x ^ 3 + x ^ 2 + 1, x ^ 3 + 1, x ^ 3 + x ^ 2 + x]

/-- A column of the product, as `aes_enc_round` computes it. -/
theorem mixMatrix_mulVec (htwo : (2 : R) = 0) (v : Fin 4 → R) (j : Fin 4) :
    (mixMatrix x).mulVec v j = x * (v j + v (j + 1)) + v j + (v 0 + v 1 + v 2 + v 3) := by
  fin_cases j <;> simp [mixMatrix, Matrix.mulVec, dotProduct, Fin.sum_univ_four]
  · linear_combination -v 0 * htwo
  · linear_combination -v 1 * htwo
  · linear_combination -v 2 * htwo
  · linear_combination -v 3 * htwo

end Matrices

theorem mixColumn_apply (tmp : Fin 4 → BitVec 8) (j : Fin 4) :
    mixColumn tmp j = gf256mul 2 (tmp j ^^^ tmp (j + 1)) 0x1b ^^^ tmp j
      ^^^ (tmp 0 ^^^ tmp 1 ^^^ tmp 2 ^^^ tmp 3) := by
  fin_cases j <;> rfl

theorem trunc_0x04 : trunc 0x04#8 = trunc 2 ^ 2 := by
  have h : 0x04#8 = (2 : BitVec 8) <<< 1 := rfl
  rw [h, trunc_shiftLeft_one, sq]

theorem trunc_0x09 : trunc 0x09#8 = trunc 2 ^ 3 + 1 := by
  have h : 0x09#8 = 0x04#8 <<< 1 ^^^ 1 := rfl
  rw [h, trunc_xor, trunc_shiftLeft_one, trunc_0x04, trunc_one]
  ring

theorem trunc_0x0b : trunc 0x0b#8 = trunc 2 ^ 3 + trunc 2 + 1 := by
  have h : 0x0b#8 = 0x09#8 ^^^ 2 := rfl
  rw [h, trunc_xor, trunc_0x09]
  ring

theorem trunc_0x0d : trunc 0x0d#8 = trunc 2 ^ 3 + trunc 2 ^ 2 + 1 := by
  have h : 0x0d#8 = 0x09#8 ^^^ 0x04#8 := rfl
  rw [h, trunc_xor, trunc_0x09, trunc_0x04]
  ring

theorem trunc_0x0e : trunc 0x0e#8 = trunc 2 ^ 3 + trunc 2 ^ 2 + trunc 2 := by
  have h : 0x0e#8 = 0x04#8 <<< 1 ^^^ 0x04#8 ^^^ 2 := rfl
  rw [h, trunc_xor, trunc_xor, trunc_shiftLeft_one, trunc_0x04]
  ring

/-- **Encryption multiplies by the matrix in the field with 256 elements exactly if neighbours agree
in the highest bit.** -/
theorem reduced_mixColumn_iff (tmp : Fin 4 → BitVec 8) :
    reduced 0x1b ∘ mixColumn tmp = (mixMatrix (reduced 0x1b 2)).mulVec (reduced 0x1b ∘ tmp) ↔
      ∀ j, (tmp j ^^^ tmp (j + 1)).toNat < 128 := by
  rw [funext_iff]
  refine forall_congr' fun j ↦ ?_
  have hproduct := @gf256mul_reduced_iff 2 (by decide) (tmp j ^^^ tmp (j + 1)) 0x1b (by decide)
  have hsize : (2 : BitVec 8).toNat.size = 2 := by decide
  have hsmall : (tmp j ^^^ tmp (j + 1)).toNat.size ≤ 7 ↔ (tmp j ^^^ tmp (j + 1)).toNat < 128 :=
    Nat.size_le
  simp only [Function.comp_apply, mixMatrix_mulVec _ residue_two_eq_zero,
    mixColumn_apply, reduced_xor, add_left_inj]
  rw [← reduced_xor, hproduct, hsize, ← hsmall]
  omega

theorem trunc_invMixColumn (tmp : Fin 4 → BitVec 8) :
    trunc ∘ invMixColumn tmp = (invMixMatrix (trunc 2)).mulVec (trunc ∘ tmp) := by
  have htwo : (2 : AdjoinRoot (poly (2 ^ 8))) = 0 := residue_two_eq_zero
  ext j
  fin_cases j <;>
    simp [invMixColumn, invMixMatrix, trunc_gf256mul, trunc_0x04, trunc_0x09,
      Matrix.mulVec, dotProduct, Fin.sum_univ_four]
  · linear_combination trunc (tmp 0) * htwo
  · linear_combination trunc (tmp 1) * htwo
  · linear_combination trunc (tmp 2) * htwo
  · linear_combination trunc (tmp 3) * htwo

theorem trunc_plainInvMixColumn (tmp : Fin 4 → BitVec 8) :
    trunc ∘ plainInvMixColumn tmp = (invMixMatrix (trunc 2)).mulVec (trunc ∘ tmp) := by
  ext j
  fin_cases j <;>
    simp [plainInvMixColumn, invMixMatrix, trunc_gf256mul, trunc_0x09, trunc_0x0b,
      trunc_0x0d, trunc_0x0e, Matrix.mulVec, dotProduct, Fin.sum_univ_four]

/-- **The shorter form computes the same.** -/
theorem invMixColumn_eq_plain (tmp : Fin 4 → BitVec 8) : invMixColumn tmp = plainInvMixColumn tmp :=
  trunc_injective.comp_left ((trunc_invMixColumn tmp).trans (trunc_plainInvMixColumn tmp).symm)

variable (key : ℕ → CipherState)

end Aes

end Martink
