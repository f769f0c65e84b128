import Martink.Base.BitString

/-!
# SHA-256

`sha256_nextBlock` hashes a block, and `sha256_lastBlock` hashes what is left of a message, of which
the length is given in bits. `sha256Bits` is the hash of a bit string: the string is padded, cut
into blocks of 512 bits, and folded. However a message is cut into calls, the digest is that of its
bits.

`sha256` counts bits in 32 bits, so of a message of 2 ^ 29 bytes or more it hashes only a part.
-/

namespace Martink

namespace Sha256

open BitString

def initVector : Fin 8 → BitVec 32 :=
  ![0x6A09E667, 0xBB67AE85, 0x3C6EF372, 0xA54FF53A, 0x510E527F, 0x9B05688C, 0x1F83D9AB, 0x5BE0CD19]

def pk : List (BitVec 32) :=
  [
    0x428a2f98, 0x71374491, 0xb5c0fbcf, 0xe9b5dba5, 0x3956c25b, 0x59f111f1, 0x923f82a4, 0xab1c5ed5,
    0xd807aa98, 0x12835b01, 0x243185be, 0x550c7dc3, 0x72be5d74, 0x80deb1fe, 0x9bdc06a7, 0xc19bf174,
    0xe49b69c1, 0xefbe4786, 0x0fc19dc6, 0x240ca1cc, 0x2de92c6f, 0x4a7484aa, 0x5cb0a9dc, 0x76f988da,
    0x983e5152, 0xa831c66d, 0xb00327c8, 0xbf597fc7, 0xc6e00bf3, 0xd5a79147, 0x06ca6351, 0x14292967,
    0x27b70a85, 0x2e1b2138, 0x4d2c6dfc, 0x53380d13, 0x650a7354, 0x766a0abb, 0x81c2c92e, 0x92722c85,
    0xa2bfe8a1, 0xa81a664b, 0xc24b8b70, 0xc76c51a3, 0xd192e819, 0xd6990624, 0xf40e3585, 0x106aa070,
    0x19a4c116, 0x1e376c08, 0x2748774c, 0x34b0bcb5, 0x391c0cb3, 0x4ed8aa4a, 0x5b9cca4f, 0x682e6ff3,
    0x748f82ee, 0x78a5636f, 0x84c87814, 0x8cc70208, 0x90befffa, 0xa4506ceb, 0xbef9a3f7, 0xc67178f2]

structure Sha256Ctx where
  /-- The state. -/
  h : Fin 8 → BitVec 32
  /-- How many bits have been hashed. -/
  length : BitVec 64

/-- The bytes at a pointer. -/
abbrev Bytes := ℕ → BitVec 8

def sha256Init : Sha256Ctx := ⟨initVector, 0⟩

def rotr32 (x : BitVec 32) (n : ℕ) : BitVec 32 := x >>> n ||| x <<< (32 - n)

def changeEndian32 (x : BitVec 32) : BitVec 32 :=
  x <<< 24 ||| x >>> 24 ||| (x &&& 0x0000ff00) <<< 8 ||| (x &&& 0x00ff0000) >>> 8

def ch (x y z : BitVec 32) : BitVec 32 := (x &&& y) ^^^ (~~~x &&& z)

def maj (x y z : BitVec 32) : BitVec 32 := (x &&& y) ^^^ (x &&& z) ^^^ (y &&& z)

def sigma0 (x : BitVec 32) : BitVec 32 := rotr32 x 2 ^^^ rotr32 x 13 ^^^ rotr32 x 22

def sigma1 (x : BitVec 32) : BitVec 32 := rotr32 x 6 ^^^ rotr32 x 11 ^^^ rotr32 x 25

def sigmaA (x : BitVec 32) : BitVec 32 := rotr32 x 7 ^^^ rotr32 x 18 ^^^ x >>> 3

def sigmaB (x : BitVec 32) : BitVec 32 := rotr32 x 17 ^^^ rotr32 x 19 ^^^ x >>> 10

/-- `((const uint32_t*)block)[i]`, with the lowest byte first. -/
def load32 (block : Bytes) (i : ℕ) : BitVec 32 :=
  block (4 * i + 3) ++ block (4 * i + 2) ++ block (4 * i + 1) ++ block (4 * i)

/-! ## A block -/

/-- The loop that fills `w`, for the `n` words from `i` on. -/
def expandLoop : ℕ → ℕ → (ℕ → BitVec 32) → ℕ → BitVec 32
  | _, 0, w => w
  | i, n + 1, w => expandLoop (i + 1) n
      (Function.update w i (sigmaB (w (i - 2)) + w (i - 7) + sigmaA (w (i - 15)) + w (i - 16)))

scoped instance neZeroEight : NeZero 8 := ⟨by decide⟩

/-- What is done to the working variables with the word `w` and the constant `k`. -/
def round (k w : BitVec 32) (a : Fin 8 → BitVec 32) : Fin 8 → BitVec 32 :=
  let t1 := a 7 + sigma1 (a 4) + ch (a 4) (a 5) (a 6) + k + w
  let t2 := sigma0 (a 0) + maj (a 0) (a 1) (a 2)
  ![t1 + t2, a 0, a 1, a 2, a 3 + t1, a 4, a 5, a 6]

def rounds (w : ℕ → BitVec 32) (a : Fin 8 → BitVec 32) : Fin 8 → BitVec 32 :=
  (List.range 64).foldl (fun a i ↦ round (pk.getD i 0) (w i) a) a

def sha256NextBlock (s : Sha256Ctx) (block : Bytes) : Sha256Ctx :=
  let w := expandLoop 16 48 fun i ↦ if i < 16 then changeEndian32 (load32 block i) else 0
  let a := rounds w s.h
  ⟨fun i ↦ s.h i + a i, s.length + 512⟩

/-! ## The last block -/

def memcpy (dst src : Bytes) (n : ℕ) : Bytes := fun i ↦ if i < n then src i else dst i

/-- `memset(&dst[start], 0, n)`. -/
def zero (dst : Bytes) (start n : ℕ) : Bytes :=
  fun i ↦ if start ≤ i ∧ i < start + n then 0 else dst i

/-- The loop that hashes whole blocks: the context, the pointer and the length that are left. -/
def wholeBlocks (s : Sha256Ctx) (block : Bytes) (length : ℕ) : Sha256Ctx × Bytes × ℕ :=
  if 512 ≤ length then
    wholeBlocks (sha256NextBlock s block) (fun i ↦ block (64 + i)) (length - 512)
  else (s, block, length)
termination_by length
decreasing_by omega

/-- The bytes at `lb[56]`. -/
def storeLength (lb : Bytes) (length : BitVec 64) : Bytes :=
  [1, 2, 3, 4, 5, 6, 7, 8].foldl
    (fun lb i ↦ Function.update lb (55 + i) ((length >>> (64 - 8 * i)).setWidth 8)) lb

/-- The rest of `sha256_lastBlock`, in which `lb` is what its block happens to hold. -/
def lastBlockRest (lb : Bytes) (s : Sha256Ctx) (block : Bytes) (length : ℕ) : Sha256Ctx :=
  let s := { s with length := s.length + BitVec.ofNat 64 length }
  let lb := memcpy lb block (length / 8)
  let lb := Function.update lb (length / 8) (if length % 8 ≠ 0 then block (length / 8) else 0)
  let lb := Function.update lb (length / 8) (lb (length / 8) ||| (0x80 : BitVec 8) >>> (length % 8))
  let length := length / 8 + 1
  if length > 56 then
    let lb := zero lb length (64 - length)
    let s := sha256NextBlock s lb
    let s := { s with length := s.length - 512 }
    sha256NextBlock s (storeLength (zero lb 0 56) s.length)
  else sha256NextBlock s (storeLength (zero lb length (56 - length)) s.length)

def sha256LastBlock (lb : Bytes) (s : Sha256Ctx) (block : Bytes) (length : ℕ) : Sha256Ctx :=
  let (s, block, length) := wholeBlocks s block length
  lastBlockRest lb s block length

/-- Byte `i` of the digest. -/
def sha256Ctx2hash (s : Sha256Ctx) : List (BitVec 8) :=
  (List.finRange 8).flatMap fun i ↦
    (List.range 4).map fun j ↦ (changeEndian32 (s.h i) >>> (8 * j)).setWidth 8

def sha256 (lb msg : Bytes) (len : BitVec 32) : List (BitVec 8) :=
  let length := len * 8
  let (s, msg, length) := wholeBlocks sha256Init msg length.toNat
  sha256Ctx2hash (sha256LastBlock lb s msg length)

/-! ## Bytes in memory -/

def bytes (m : Bytes) (n : ℕ) : List (BitVec 8) := (List.range n).map m

@[simp] theorem length_bytes (m : Bytes) (n : ℕ) : (bytes m n).length = n := by simp [bytes]

theorem bytes_add (m : Bytes) (a b : ℕ) :
    bytes m (a + b) = bytes m a ++ bytes (fun i ↦ m (a + i)) b := by
  rw [bytes, List.range_add, List.map_append, List.map_map]
  rfl

theorem bytes_congr {m m' : Bytes} {n : ℕ} (h : ∀ i < n, m i = m' i) : bytes m n = bytes m' n :=
  List.map_congr_left fun i hi ↦ h i (List.mem_range.mp hi)

theorem bytes_zero {m : Bytes} {n : ℕ} (h : ∀ i < n, m i = 0) : bytes m n = List.replicate n 0 := by
  rw [bytes_congr h, bytes, List.map_const', List.length_range]

@[simp] theorem bytes_one (m : Bytes) : bytes m 1 = [m 0] := rfl

/-! ## The hash of a bit string -/

/-- The words of a block and those that the recurrence makes of them. -/
def messageWord (block : List Bool) (t : ℕ) : BitVec 32 :=
  if t < 16 then BitVec.ofNat 32 (value ((block.drop (32 * t)).take 32))
  else sigmaB (messageWord block (t - 2)) + messageWord block (t - 7) + sigmaA
    (messageWord block (t - 15))
    + messageWord block (t - 16)
termination_by t
decreasing_by all_goals omega

def compress (h : Fin 8 → BitVec 32) (block : List Bool) : Fin 8 → BitVec 32 :=
  fun i ↦ h i + rounds (messageWord block) h i

def sha256Bits (l : List Bool) : Fin 8 → BitVec 32 :=
  foldBlocks 512 compress initVector (padded 512 64 l)

/-! ## A block -/

theorem changeEndian32_append (a b c d : BitVec 8) :
    changeEndian32 (d ++ c ++ b ++ a) = a ++ b ++ c ++ d := by
  refine BitVec.eq_of_getLsbD_eq fun i hi ↦ ?_
  simp only [changeEndian32, BitVec.getLsbD_or, BitVec.getLsbD_and, BitVec.getLsbD_shiftLeft,
    BitVec.getLsbD_ushiftRight, BitVec.getLsbD_append]
  interval_cases i <;> simp

theorem toNat_append_byte {w : ℕ} (x : BitVec w) (b : BitVec 8) :
    (x ++ b).toNat = x.toNat * 2 ^ 8 + b.toNat := by
  rw [BitVec.toNat_append, ← Nat.shiftLeft_add_eq_or_of_lt b.isLt, Nat.shiftLeft_eq]

/-- The value of four bytes, the highest first. -/
theorem value_bytes_four (m : Bytes) :
    value (ofBytes (bytes m 4)) = (m 0 ++ m 1 ++ m 2 ++ m 3).toNat := by
  have hbytes : bytes m 4 = [m 0, m 1, m 2, m 3] := rfl
  simp only [hbytes, toNat_append_byte, ofBytes_cons, ofBytes_nil, value_append, value_byte,
    length_ofBitVec, List.length_append, List.append_nil]
  ring

theorem changeEndian32_load32 (block : Bytes) {i : ℕ} (h : i < 16) :
    changeEndian32 (load32 block i)
      = BitVec.ofNat 32 (value (((ofBytes (bytes block 64)).drop (32 * i)).take 32)) := by
  have hsplit : bytes block 64 = bytes block (4 * i) ++ (bytes (fun k ↦ block (4 * i + k)) 4
      ++ bytes (fun k ↦ block (4 * i + (4 + k))) (60 - 4 * i)) := by
    rw [← bytes_add (fun k ↦ block (4 * i + k)), ← bytes_add]
    congr 1
    omega
  rw [hsplit, ofBytes_append, List.drop_left' (by rw [length_ofBytes, length_bytes]; ring),
    ofBytes_append, List.take_left' (by rw [length_ofBytes, length_bytes]),
      value_bytes_four, load32, changeEndian32_append]
  refine BitVec.eq_of_toNat_eq ?_
  rw [BitVec.toNat_ofNat, Nat.mod_eq_of_lt (BitVec.isLt _)]
  rfl

/-- The loop meets the recurrence. -/
theorem expandLoop_eq (block : List Bool) (n : ℕ) : ∀ {i : ℕ} {w : ℕ → BitVec 32}, 16 ≤ i →
    (∀ t < i, w t = messageWord block t) →
      ∀ t < i + n, expandLoop i n w t = messageWord block t := by
  induction n with
  | zero => exact fun _ h ↦ h
  | succ n ih =>
    intro i w hi h t ht
    refine ih (Nat.le_succ_of_le hi) (fun k hk ↦ ?_) t (by omega)
    rcases eq_or_lt_of_le (Nat.lt_succ_iff.mp hk) with rfl | hlt
    · rw [Function.update_self, messageWord, if_neg (by omega), h _ (by omega), h _ (by omega),
        h _ (by omega), h _ (by omega)]
    · rw [Function.update_of_ne hlt.ne, h k hlt]

theorem rounds_congr {w w' : ℕ → BitVec 32} (h : ∀ t < 64, w t = w' t) (a : Fin 8 → BitVec 32) :
    rounds w a = rounds w' a :=
  List.foldl_ext _ _ _ fun a t ht ↦ by rw [h t (List.mem_range.mp ht)]

/-- **A block** is compressed, and counted. -/
theorem sha256NextBlock_eq (s : Sha256Ctx) (block : Bytes) :
    sha256NextBlock s block = ⟨compress s.h (ofBytes (bytes block 64)), s.length + 512⟩ := by
  have hwords : ∀ t < 64, expandLoop 16 48
      (fun i ↦ if i < 16 then changeEndian32 (load32 block i) else 0) t
        = messageWord (ofBytes (bytes block 64)) t := by
    refine expandLoop_eq _ 48 le_rfl fun t ht ↦ ?_
    rw [if_pos ht, changeEndian32_load32 block ht, messageWord, if_pos ht]
  rw [sha256NextBlock]
  simp only [rounds_congr hwords]
  rfl

/-! ## The last block -/

/-- The first `n` bits at a pointer. -/
def messageBits (m : Bytes) (n : ℕ) : List Bool :=
  (List.range n).map fun i ↦ (m (i / 8)).getMsbD (i % 8)

@[simp] theorem length_messageBits (m : Bytes) (n : ℕ) : (messageBits m n).length = n := by
  simp [messageBits]

theorem messageBits_mul (m : Bytes) (k : ℕ) : messageBits m (8 * k) = ofBytes (bytes m k) := by
  rw [messageBits, map_range_mul, ofBytes, bytes, List.flatMap_map]
  refine List.flatMap_congr fun i _ ↦ List.map_congr_left fun j hj ↦ ?_
  have hlt := List.mem_range.mp hj
  rw [show (8 * i + j) / 8 = i by omega, show (8 * i + j) % 8 = j by omega]

theorem messageBits_add (m : Bytes) (k n : ℕ) :
    messageBits m (8 * k + n) = ofBytes (bytes m k) ++ messageBits (fun i ↦ m (k + i)) n := by
  rw [← messageBits_mul, messageBits, List.range_add, List.map_append, List.map_map]
  refine congrArg _ (List.map_congr_left fun i _ ↦ ?_)
  rw [Function.comp_apply, show (8 * k + i) / 8 = k + i / 8 by omega,
    show (8 * k + i) % 8 = i % 8 by omega]

/-- The byte with the final one. -/
theorem ofBitVec_lastByte : ∀ r < 8, ∀ b : BitVec 8, (r ≠ 0 → b.toNat % 2 ^ (8 - r) = 0) →
    ofBitVec ((if r ≠ 0 then b else 0) ||| (0x80 : BitVec 8) >>> r)
      = (List.range r).map b.getMsbD ++ true :: List.replicate (7 - r) false := by decide +kernel

theorem storeLength_apply (lb : Bytes) (x : BitVec 64) (i : ℕ) : storeLength lb x i
    = if 56 ≤ i ∧ i < 64 then (x >>> (8 * (63 - i))).setWidth 8 else lb i := by
  simp only [storeLength, List.foldl_cons, List.foldl_nil, Function.update_apply]
  by_cases h : 56 ≤ i ∧ i < 64
  · rw [if_pos h]
    obtain ⟨hlow, hhigh⟩ := h
    interval_cases i <;> rfl
  · rw [if_neg h]
    simp [show i ≠ 56 by omega, show i ≠ 57 by omega, show i ≠ 58 by omega, show i ≠ 59 by omega,
      show i ≠ 60 by omega, show i ≠ 61 by omega, show i ≠ 62 by omega, show i ≠ 63 by omega]

theorem bytes_storeLength (lb : Bytes) (x : BitVec 64) :
    ofBytes (bytes (fun i ↦ storeLength lb x (56 + i)) 8) = ofBitVec x := by
  have hbytes : bytes (fun i ↦ storeLength lb x (56 + i)) 8
      = (List.range 8).map fun i ↦ (x >>> (8 * (8 - 1 - i))).setWidth 8 := by
    refine List.map_congr_left fun i hi ↦ ?_
    have hi' := List.mem_range.mp hi
    rw [storeLength_apply, if_pos ⟨by omega, by omega⟩]
    congr 3
    omega
  rw [hbytes]
  exact @ofBytes_bigEndian 8 x

/-- The local block after the message and the final one are in it, when the rest of its bytes up to
the length is zero. -/
theorem bytes_lastBlock {m block : Bytes} {n len : ℕ} (hlen : len < 8 * n)
    (hcopy : ∀ i < len / 8, m i = block i)
    (hone : m (len / 8)
      = (if len % 8 ≠ 0 then block (len / 8) else 0) ||| (0x80 : BitVec 8) >>> (len % 8))
    (hzero : ∀ i < n, len / 8 < i → m i = 0)
    (hclean : len % 8 ≠ 0 → (block (len / 8)).toNat % 2 ^ (8 - len % 8) = 0) :
    ofBytes (bytes m n)
      = messageBits block len ++ true :: List.replicate (8 * n - len - 1) false := by
  have hparts : n = len / 8 + (1 + (n - len / 8 - 1)) := by omega
  have hbits : messageBits block len
      = ofBytes (bytes block (len / 8)) ++ (List.range (len % 8)).map
        (block (len / 8)).getMsbD := by
    have h := messageBits_add block (len / 8) (len % 8)
    rw [Nat.div_add_mod] at h
    rw [h, messageBits]
    refine congrArg _ (List.map_congr_left fun i hi ↦ ?_)
    have hlt := List.mem_range.mp hi
    rw [show i / 8 = 0 by omega, show i % 8 = i by omega, Nat.add_zero]
  have hrest : bytes (fun i ↦ m (len / 8 + (1 + i))) (n - len / 8 - 1)
      = List.replicate (n - len / 8 - 1) 0 := bytes_zero fun i hi ↦ hzero _ (by omega) (by omega)
  have hfalse : List.replicate (8 * n - len - 1) false
      = List.replicate (7 - len % 8) false ++ List.replicate (8 * (n - len / 8 - 1)) false := by
    rw [List.replicate_append_replicate]
    congr 1
    omega
  conv_lhs => rw [hparts, bytes_add, bytes_add, bytes_congr hcopy, hrest, bytes_one,
    Nat.add_zero, hone]
  rw [ofBytes_append, ofBytes_append, ofBytes_cons, ofBytes_nil, List.append_nil,
    ofBitVec_lastByte _ (Nat.mod_lt _ (by decide)) _ hclean, ofBytes_replicate_zero, hbits, hfalse]
  simp only [List.append_assoc, List.cons_append]

theorem bytes_storeLength_append (lb : Bytes) (x : BitVec 64) :
    ofBytes (bytes (storeLength lb x) 64) = ofBytes (bytes lb 56) ++ ofBitVec x := by
  have hlow : bytes (storeLength lb x) 56 = bytes lb 56 := bytes_congr fun i hi ↦ by
    rw [storeLength_apply, if_neg (by omega)]
  have hsplit := bytes_add (storeLength lb x) 56 8
  rw [hsplit, ofBytes_append, hlow, bytes_storeLength]

/-- What is left of a message, with the padding. -/
def lastBits (block : Bytes) (len : ℕ) (total : BitVec 64) : List Bool :=
  messageBits block len ++ true :: List.replicate (zeros 512 64 len) false ++ ofBitVec total

theorem lastBlockRest_h (lb : Bytes) (s : Sha256Ctx) {block : Bytes} {len : ℕ} (hlen : len < 512)
    (hclean : len % 8 ≠ 0 → (block (len / 8)).toNat % 2 ^ (8 - len % 8) = 0) :
    (lastBlockRest lb s block len).h
      = foldBlocks 512 compress s.h (lastBits block len (s.length + BitVec.ofNat 64 len)) := by
  rw [lastBlockRest, lastBits]
  simp only [sha256NextBlock_eq, bytes_storeLength_append, BitVec.add_sub_cancel]
  set one := Function.update (Function.update (memcpy lb block (len / 8)) (len / 8)
    (if len % 8 ≠ 0 then block (len / 8) else 0)) (len / 8)
    (Function.update (memcpy lb block (len / 8)) (len / 8)
      (if len % 8 ≠ 0 then block (len / 8) else 0)
      (len / 8) ||| (0x80 : BitVec 8) >>> (len % 8)) with hone
  have hcopy : ∀ i < len / 8, one i = block i := fun i hi ↦ by
    rw [hone, Function.update_of_ne hi.ne, Function.update_of_ne hi.ne, memcpy, if_pos hi]
  have hlast : one (len / 8)
      = (if len % 8 ≠ 0 then block (len / 8) else 0) ||| (0x80 : BitVec 8) >>> (len % 8) := by
    rw [hone, Function.update_self, Function.update_self]
  have hfill : ∀ n, len / 8 < n → len < 8 * n →
      ofBytes (bytes (zero one (len / 8 + 1) (n - (len / 8 + 1))) n)
        = messageBits block len ++ true :: List.replicate (8 * n - len - 1) false := by
    intro n hn hbits
    refine bytes_lastBlock hbits (fun i hi ↦ ?_) ?_ (fun i hi hi' ↦ ?_) hclean
    · rw [zero, if_neg (by omega), hcopy i hi]
    · rw [zero, if_neg (by omega), hlast]
    · rw [zero, if_pos ⟨by omega, by omega⟩]
  split_ifs with hlong
  · have hblank : bytes (zero (zero one (len / 8 + 1) (64 - (len / 8 + 1))) 0 56) 56
        = List.replicate 56 0 := bytes_zero fun i hi ↦ if_pos ⟨by omega, by omega⟩
    have hzeros : List.replicate (zeros 512 64 len) false
        = List.replicate (8 * 64 - len - 1) false ++ List.replicate (8 * 56) false := by
      rw [List.replicate_append_replicate, zeros]
      congr 1
      omega
    have hlength : (messageBits block len ++ true :: List.replicate (8 * 64 - len - 1) false).length
        = 512 := by
      simp only [List.length_append, length_messageBits, List.length_cons, List.length_replicate]
      omega
    have hlength' : (List.replicate (8 * 56) false ++ ofBitVec
        (s.length + BitVec.ofNat 64 len)).length
        = 512 := by
      rw [List.length_append, List.length_replicate, length_ofBitVec]
    rw [hfill 64 (by omega) (by omega), hblank, ofBytes_replicate_zero, hzeros, ← List.cons_append,
      ← List.append_assoc, List.append_assoc _ (List.replicate (8 * 56) false),
      foldBlocks_append compress (by decide) hlength, foldBlocks_self compress (by decide) hlength']
  · have hzeros : zeros 512 64 len = 8 * 56 - len - 1 := by
      rw [zeros]
      omega
    have hlength : (messageBits block len ++ true :: List.replicate (8 * 56 - len - 1) false
        ++ ofBitVec (s.length + BitVec.ofNat 64 len)).length = 512 := by
      simp only [List.length_append, length_messageBits, List.length_cons, List.length_replicate,
        length_ofBitVec]
      omega
    rw [hfill 56 (by omega) (by omega), hzeros, foldBlocks_self compress (by decide) hlength]

/-! ## Messages -/

/-- Whole blocks are folded, and their bits are counted. -/
theorem wholeBlocks_eq (length : ℕ) : ∀ (s : Sha256Ctx) (block : Bytes),
    wholeBlocks s block length
      = (⟨foldBlocks 512 compress s.h (ofBytes (bytes block (64 * (length / 512)))),
          s.length + BitVec.ofNat 64 (512 * (length / 512))⟩,
        fun i ↦ block (64 * (length / 512) + i), length % 512) := by
  induction length using Nat.strong_induction_on with
  | _ length ih =>
    intro s block
    rw [wholeBlocks]
    split_ifs with h
    · obtain ⟨k, hk⟩ : ∃ k, length / 512 = k + 1 := ⟨length / 512 - 1, by omega⟩
      have hless : (length - 512) / 512 = k := by omega
      have hmod : (length - 512) % 512 = length % 512 := by omega
      have hfold : bytes block (64 * (k + 1))
          = bytes block 64 ++ bytes (fun i ↦ block (64 + i)) (64 * k) := by
        rw [← bytes_add, Nat.mul_succ, Nat.add_comm]
      have hcount : s.length + 512 + BitVec.ofNat 64 (512 * k)
          = s.length + BitVec.ofNat 64 (512 * (k + 1)) := by
        rw [Nat.mul_succ, Nat.add_comm (512 * k), BitVec.ofNat_add, ← BitVec.add_assoc]
        rfl
      have hpointer : ∀ i, 64 + (64 * k + i) = 64 * (k + 1) + i := fun i ↦ by omega
      rw [ih (length - 512) (by omega), sha256NextBlock_eq, hless, hk, hmod, hfold, ofBytes_append,
        foldBlocks_append compress (by decide) (by rw [length_ofBytes, length_bytes])]
      simp only [hcount, hpointer]
    · have hless : length / 512 = 0 := by omega
      have hmod : length % 512 = length := by omega
      simp [bytes, hless, hmod]

/-- The rest of a message that may have several blocks. -/
theorem sha256LastBlock_h (lb : Bytes) (s : Sha256Ctx) {block : Bytes} {len : ℕ}
    (hclean : len % 8 ≠ 0 → (block (len / 8)).toNat % 2 ^ (8 - len % 8) = 0) :
    (sha256LastBlock lb s block len).h
      = foldBlocks 512 compress s.h (lastBits block len (s.length + BitVec.ofNat 64 len)) := by
  have hbyte : 64 * (len / 512) + len % 512 / 8 = len / 8 := by omega
  have hbit : len % 512 % 8 = len % 8 := by omega
  have htotal : BitVec.ofNat 64 (512 * (len / 512)) + BitVec.ofNat 64 (len % 512)
      = BitVec.ofNat 64 len := by
    rw [← BitVec.ofNat_add, Nat.div_add_mod]
  have hzeros : zeros 512 64 (len % 512) = zeros 512 64 len := by
    rw [zeros, zeros]
    omega
  have hmessage : messageBits block len = ofBytes (bytes block (64 * (len / 512)))
      ++ messageBits (fun i ↦ block (64 * (len / 512) + i)) (len % 512) := by
    rw [← messageBits_add]
    congr 1
    omega
  have hdvd : 512 ∣ (ofBytes (bytes block (64 * (len / 512)))).length :=
    ⟨len / 512, by rw [length_ofBytes, length_bytes]; ring⟩
  rw [sha256LastBlock, wholeBlocks_eq]
  simp only
  rw [lastBlockRest_h _ _ (Nat.mod_lt _ (by decide)) (by rw [hbit, hbyte]; exact hclean),
    BitVec.add_assoc,
    htotal, lastBits, lastBits, hzeros, hmessage, List.append_assoc, List.append_assoc,
      List.append_assoc, foldBlocks_append_of_dvd compress (by decide) hdvd]

/-- The context after the first `n` blocks of a message. -/
def afterBlocks (msg : Bytes) (n : ℕ) : Sha256Ctx :=
  (List.range n).foldl (fun s i ↦ sha256NextBlock s fun k ↦ msg (64 * i + k)) sha256Init

theorem afterBlocks_eq (msg : Bytes) (n : ℕ) : afterBlocks msg n
    = ⟨foldBlocks 512 compress initVector (ofBytes (bytes msg (64 * n))),
      BitVec.ofNat 64 (512 * n)⟩ := by
  induction n with
  | zero =>
    have hnone : bytes msg 0 = [] := rfl
    rw [Nat.mul_zero, hnone, ofBytes_nil, foldBlocks_nil]
    rfl
  | succ n ih =>
    have hdvd : 512 ∣ (ofBytes (bytes msg (64 * n))).length :=
      ⟨n, by rw [length_ofBytes, length_bytes]; ring⟩
    rw [afterBlocks] at ih ⊢
    have hblock : (ofBytes (bytes (fun i ↦ msg (64 * n + i)) 64)).length = 512 := by
      rw [length_ofBytes, length_bytes]
    rw [List.range_succ, List.foldl_append, ih, List.foldl_cons, List.foldl_nil, sha256NextBlock_eq,
      Nat.mul_succ, Nat.mul_succ, bytes_add, ofBytes_append,
      foldBlocks_append_of_dvd compress (by decide) hdvd,
        foldBlocks_self compress (by decide) hblock, BitVec.ofNat_add]
    rfl

/-- **The digest of a message in calls.** After any number of blocks, and with what is left of
whatever length in bits, the hash is that of all the bits. -/
theorem sha256_calls (lb msg : Bytes) (n len : ℕ)
    (hclean : len % 8 ≠ 0 → (msg (64 * n + len / 8)).toNat % 2 ^ (8 - len % 8) = 0) :
    (sha256LastBlock lb (afterBlocks msg n) (fun i ↦ msg (64 * n + i)) len).h
      = sha256Bits (messageBits msg (512 * n + len)) := by
  have hdvd : 512 ∣ (ofBytes (bytes msg (64 * n))).length :=
    ⟨n, by rw [length_ofBytes, length_bytes]; ring⟩
  have hmessage : messageBits msg (512 * n + len)
      = ofBytes (bytes msg (64 * n)) ++ messageBits (fun i ↦ msg (64 * n + i)) len := by
    rw [← messageBits_add]
    congr 1
    omega
  have hzeros : zeros 512 64 (512 * n + len) = zeros 512 64 len := by
    rw [zeros, zeros]
    omega
  rw [sha256LastBlock_h lb _ hclean, afterBlocks_eq, sha256Bits, padded, length_messageBits, hzeros,
    lastBits, hmessage, ← BitVec.ofNat_add, List.append_assoc, List.append_assoc, List.append_assoc,
    foldBlocks_append_of_dvd compress (by decide) hdvd]

/-! ## Digests -/

theorem changeEndian32_byte (x : BitVec 32) {j : ℕ} (h : j < 4) :
    (changeEndian32 x >>> (8 * j)).setWidth 8 = (x >>> (8 * (4 - 1 - j))).setWidth 8 := by
  refine BitVec.eq_of_getLsbD_eq fun i hi ↦ ?_
  simp only [changeEndian32, BitVec.getLsbD_setWidth, BitVec.getLsbD_or, BitVec.getLsbD_and,
    BitVec.getLsbD_shiftLeft, BitVec.getLsbD_ushiftRight]
  interval_cases j <;> interval_cases i <;> simp

/-- The bits of a digest are those of its words. -/
theorem ofBytes_sha256Ctx2hash (s : Sha256Ctx) :
    ofBytes (sha256Ctx2hash s) = (List.finRange 8).flatMap fun i ↦ ofBitVec (s.h i) := by
  rw [sha256Ctx2hash, ofBytes, List.flatMap_assoc]
  refine List.flatMap_congr fun i _ ↦ ?_
  rw [List.map_congr_left fun j hj ↦ changeEndian32_byte (s.h i) (List.mem_range.mp hj)]
  exact @ofBytes_bigEndian 4 (s.h i)

/-- **The hash of a message in one call** is that of its first bytes, as many as the length leaves
modulo 2 ^ 29. -/
theorem sha256_eq (lb msg : Bytes) (len : BitVec 32) :
    ofBytes (sha256 lb msg len) = (List.finRange 8).flatMap fun i ↦
      ofBitVec (sha256Bits (ofBytes (bytes msg (len.toNat % 2 ^ 29))) i) := by
  have hlen : (len * 8).toNat = 8 * (len.toNat % 2 ^ 29) := by
    rw [BitVec.toNat_mul]
    simp
    omega
  obtain ⟨length, hlength⟩ : ∃ length, (len * 8).toNat = length := ⟨_, rfl⟩
  have hsplit : 512 * (length / 512) + length % 512 = length := Nat.div_add_mod _ _
  have hstate : (⟨foldBlocks 512 compress initVector (ofBytes (bytes msg (64 * (length / 512)))),
      sha256Init.length + BitVec.ofNat 64 (512 * (length / 512))⟩ : Sha256Ctx)
        = afterBlocks msg (length / 512) := by
    rw [afterBlocks_eq]
    exact congrArg _ (BitVec.zero_add _)
  have hcalls := sha256_calls lb msg (length / 512) (length % 512)
    fun h ↦ absurd (show length % 512 % 8 = 0 by omega) h
  rw [hsplit, ← hlength, hlen, messageBits_mul, ← hlen, hlength] at hcalls
  rw [sha256, ofBytes_sha256Ctx2hash]
  simp only [hlength, wholeBlocks_eq]
  rw [show sha256Init.h = initVector from rfl, hstate, hcalls]

end Sha256

end Martink
