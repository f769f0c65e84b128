import Mathlib.Data.List.GetD
import Mathlib.Tactic

/-!
# Bit strings in blocks

A bit string is a list of bits, the highest first. `ofBytes` are the bits of a memory of bytes and
`value` is the number that a string stands for.

`foldBlocks` consumes a string block by block, and `padded` is the usual way to make its length a
multiple of the block: a one, zeros, and the length of the string.
-/

namespace Martink

namespace BitString

def ofBitVec {w : ℕ} (x : BitVec w) : List Bool := (List.range w).map x.getMsbD

def ofBytes (bs : List (BitVec 8)) : List Bool := bs.flatMap ofBitVec

def value (l : List Bool) : ℕ := l.foldl (fun n b ↦ 2 * n + b.toNat) 0

@[simp] theorem length_ofBitVec {w : ℕ} (x : BitVec w) : (ofBitVec x).length = w := by
  simp [ofBitVec]

@[simp] theorem ofBytes_nil : ofBytes [] = [] := rfl

@[simp] theorem ofBytes_cons (b : BitVec 8) (bs : List (BitVec 8)) :
    ofBytes (b :: bs) = ofBitVec b ++ ofBytes bs := rfl

@[simp] theorem ofBytes_append (bs bs' : List (BitVec 8)) :
    ofBytes (bs ++ bs') = ofBytes bs ++ ofBytes bs' := List.flatMap_append

@[simp] theorem length_ofBytes (bs : List (BitVec 8)) : (ofBytes bs).length = 8 * bs.length := by
  induction bs with
  | nil => rfl
  | cons b bs ih =>
    rw [ofBytes_cons, List.length_append, length_ofBitVec, ih, List.length_cons]
    ring

theorem ofBytes_replicate_zero (n : ℕ) :
    ofBytes (List.replicate n 0) = List.replicate (8 * n) false := by
  induction n with
  | zero => rfl
  | succ n ih =>
    have hzero : ofBitVec (0 : BitVec 8) = List.replicate 8 false := by decide
    rw [List.replicate_succ, ofBytes_cons, ih, hzero, List.replicate_append_replicate, Nat.mul_succ,
      Nat.add_comm]

/-! ## Values -/

theorem foldl_value (l : List Bool) : ∀ n,
    l.foldl (fun n b ↦ 2 * n + b.toNat) n = n * 2 ^ l.length + value l := by
  induction l with
  | nil => exact fun n ↦ by simp [value]
  | cons b l ih =>
    intro n
    rw [value, List.foldl_cons, List.foldl_cons, ih, ih, List.length_cons, pow_succ]
    ring

theorem value_append (l l' : List Bool) : value (l ++ l') = value l * 2 ^ l'.length + value l' := by
  rw [value, List.foldl_append, foldl_value]
  rfl

theorem value_byte : ∀ b : BitVec 8, value (ofBitVec b) = b.toNat := by decide +kernel

/-- The bits of a long word are those of its parts. -/
theorem map_range_mul {α : Type*} (f : ℕ → α) (m k : ℕ) :
    (List.range (m * k)).map f
      = (List.range k).flatMap fun i ↦ (List.range m).map fun j ↦ f (m * i + j) := by
  induction k with
  | zero => rfl
  | succ k ih =>
    rw [Nat.mul_succ, List.range_add, List.map_append, ih, List.range_succ, List.flatMap_append,
      List.flatMap_singleton, List.map_map]
    rfl

/-- The bytes of a word, the highest first. -/
theorem ofBytes_bigEndian {k : ℕ} (x : BitVec (8 * k)) :
    ofBytes ((List.range k).map fun i ↦ (x >>> (8 * (k - 1 - i))).setWidth 8) = ofBitVec x := by
  refine Eq.trans ?_ (map_range_mul x.getMsbD 8 k).symm
  rw [ofBytes, List.flatMap_map]
  refine List.flatMap_congr fun i hi ↦ List.map_congr_left fun j hj ↦ ?_
  have hi' := List.mem_range.mp hi
  have hj' := List.mem_range.mp hj
  have hbit : 8 * (k - 1 - i) + (8 - 1 - j) = 8 * k - 1 - (8 * i + j) := by omega
  simp only [BitVec.getMsbD, hj', show 8 * i + j < 8 * k by omega, show 8 - 1 - j < 8 by omega,
    BitVec.getLsbD_setWidth, BitVec.getLsbD_ushiftRight, decide_true, Bool.true_and, hbit]

/-! ## Blocks -/

section Blocks

variable {α σ : Type*} (n : ℕ) (f : σ → List α → σ)

/-- The blocks of `n` at the head of the list, one after another. -/
def foldBlocks (s : σ) (l : List α) : σ :=
  if 0 < n ∧ n ≤ l.length then foldBlocks (f s (l.take n)) (l.drop n) else s
termination_by l.length
decreasing_by
  rename_i h
  rw [List.length_drop]
  omega

variable {n}

@[simp] theorem foldBlocks_nil (s : σ) : foldBlocks n f s [] = s := by
  rw [foldBlocks, if_neg]
  simp only [List.length_nil]
  omega

theorem foldBlocks_append (hn : 0 < n) {l : List α} (hl : l.length = n) (s : σ) (l' : List α) :
    foldBlocks n f s (l ++ l') = foldBlocks n f (f s l) l' := by
  rw [foldBlocks, if_pos ⟨hn, by rw [List.length_append]; omega⟩, ← hl, List.take_left,
    List.drop_left]

/-- What comes after whole blocks is folded from where they end. -/
theorem foldBlocks_append_of_dvd (hn : 0 < n) : ∀ {l : List α}, n ∣ l.length →
    ∀ (s : σ) (l' : List α),
    foldBlocks n f s (l ++ l') = foldBlocks n f (foldBlocks n f s l) l' := by
  intro l hdvd
  obtain ⟨k, hk⟩ := hdvd
  induction k generalizing l with
  | zero =>
    rw [List.length_eq_zero_iff.mp hk]
    exact fun s l' ↦ by rw [foldBlocks_nil, List.nil_append]
  | succ k ih =>
    intro s l'
    rw [Nat.mul_succ] at hk
    have htake : (l.take n).length = n := by
      rw [List.length_take]
      omega
    have hdrop : (l.drop n).length = n * k := by
      rw [List.length_drop]
      omega
    rw [← List.take_append_drop n l, List.append_assoc, foldBlocks_append f hn htake, ih hdrop,
      foldBlocks_append f hn htake]

theorem foldBlocks_self (hn : 0 < n) {l : List α} (hl : l.length = n) (s : σ) :
    foldBlocks n f s l = f s l := by
  have h := foldBlocks_append f hn hl s []
  rwa [List.append_nil, foldBlocks_nil] at h

end Blocks

/-! ## Padding -/

/-- How many zeros are missing after a string of the given length, a one, and a length of `w`
bits. -/
def zeros (block w length : ℕ) : ℕ := (block - (length + 1 + w) % block) % block

def padded (block w : ℕ) (l : List Bool) : List Bool :=
  l ++ true :: List.replicate (zeros block w l.length) false ++ ofBitVec (BitVec.ofNat w l.length)

end BitString

end Martink
