import Martink.Base.Ring
import Martink.Include.PpMath

/-!
# The circular buffer of the drivers

`static_cbuf.h` declares a byte buffer of `NEXT_POW2(size)` slots with an index for each end. The
head is the slot written last and the tail the slot read last, so both operations advance their
index *before* they touch the buffer, and the slot under the tail is never occupied: a buffer of
`2 ^ k` slots holds at most `2 ^ k - 1` bytes, which is how full and empty are told apart.

## The abstraction

The unread bytes are a `Ring.window` of the slots, starting one past the tail; `unread` counts them
and `contents` lists them. `Sized k` says that the masks and sizes are those of `2 ^ k` slots and
that both indices are below `2 ^ k`. Every operation keeps it, and on it every operation is the
corresponding one of a bounded queue, `Fifo`.
-/

namespace Martink

/-! ## The macros -/

/-- The structure `DECLARE_CBUF` declares, for `uint8_t` elements. -/
structure Cbuf where
  /-- The slots. -/
  buffer : List (BitVec 8)
  /-- The next slot to write. -/
  head : BitVec 32
  /-- The next slot to read. -/
  tail : BitVec 32
  /-- The number of slots. -/
  totalSize : BitVec 32
  /-- One less, as a mask for the indices. -/
  sizeMask : BitVec 32

def declareCbuf (size : ℕ) : Cbuf where
  buffer := List.replicate (nextPow2 size) 0
  head := 0
  tail := 0
  totalSize := BitVec.ofNat 32 (nextPow2 size)
  sizeMask := BitVec.ofNat 32 (nextPow2 size - 1)

namespace Cbuf

/-- `_cbuf_hmt`, the difference of the two indices as `int32_t`. -/
def hmt (c : Cbuf) : ℤ := c.head.toInt - c.tail.toInt

def getDataCount (c : Cbuf) : ℤ := if c.hmt < 0 then c.hmt + c.totalSize.toInt else c.hmt

def isEmpty (c : Cbuf) : Bool := c.head == c.tail

def isFull (c : Cbuf) : Bool := c.head == (c.tail - 1) &&& c.sizeMask

/-- `cbuf_get`: the new buffer and the value of the macro, a byte or `-1`. -/
def get (c : Cbuf) : Cbuf × ℤ :=
  if !c.isEmpty then
    let tail := (c.tail + 1) &&& c.sizeMask
    ({ c with tail := tail }, (c.buffer.getD tail.toNat 0).toNat)
  else (c, -1)

/-- `cbuf_put`: the new buffer and the value of the macro, `0` or `-1`. -/
def put (c : Cbuf) (data : BitVec 8) : Cbuf × ℤ :=
  if !c.isFull then
    let head := (c.head + 1) &&& c.sizeMask
    ({ c with head := head, buffer := c.buffer.set head.toNat (data &&& 0xff) }, 0)
  else (c, -1)

end Cbuf

/-! ## The bounded queue -/

/-- What a driver may ask of the buffer. -/
inductive CbufOp where
  | put (data : BitVec 8)
  | get
  | isEmpty
  | isFull
  | getDataCount

/-- A queue of at most `cap` bytes, answering in the macros' own codes. -/
def Fifo.step (cap : ℕ) (q : List (BitVec 8)) : CbufOp → List (BitVec 8) × ℤ
  | .put data => if q.length = cap then (q, -1) else (q ++ [data], 0)
  | .get =>
    match q with
    | [] => ([], -1)
    | b :: rest => (rest, b.toNat)
  | .isEmpty => (q, if q = [] then 1 else 0)
  | .isFull => (q, if q.length = cap then 1 else 0)
  | .getDataCount => (q, q.length)

def Cbuf.step (c : Cbuf) : CbufOp → Cbuf × ℤ
  | .put data => c.put data
  | .get => c.get
  | .isEmpty => (c, if c.isEmpty then 1 else 0)
  | .isFull => (c, if c.isFull then 1 else 0)
  | .getDataCount => (c, c.getDataCount)

/-- Run a sequence of operations and collect the answers, in order. -/
def runOps {σ : Type} (step : σ → CbufOp → σ × ℤ) (s : σ) : List CbufOp → σ × List ℤ
  | [] => (s, [])
  | op :: ops =>
    let next := step s op
    let rest := runOps step next.1 ops
    (rest.1, next.2 :: rest.2)

/-! ## The invariant and the abstraction -/

namespace Cbuf

/-- The buffer is one of `2 ^ k` slots with both indices inside it. -/
structure Sized (c : Cbuf) (k : ℕ) : Prop where
  /-- There are two slots at least. -/
  one_le : 1 ≤ k
  /-- The number of slots is an `int32_t`. -/
  le_thirty : k ≤ 30
  /-- There are `2 ^ k` slots. -/
  length_buffer : c.buffer.length = 2 ^ k
  /-- The size says so. -/
  toNat_totalSize : c.totalSize.toNat = 2 ^ k
  /-- And the mask. -/
  toNat_sizeMask : c.sizeMask.toNat = 2 ^ k - 1
  /-- The head is a slot. -/
  head_lt : c.head.toNat < 2 ^ k
  /-- The tail is a slot. -/
  tail_lt : c.tail.toNat < 2 ^ k

/-- The number of unread bytes in a buffer of `2 ^ k` slots. -/
def unread (c : Cbuf) (k : ℕ) : ℕ :=
  if c.tail.toNat ≤ c.head.toNat then c.head.toNat - c.tail.toNat
  else c.head.toNat + 2 ^ k - c.tail.toNat

/-- The unread bytes, oldest first. -/
def contents (c : Cbuf) (k : ℕ) : List (BitVec 8) :=
  Ring.window (fun i ↦ c.buffer.getD i 0) (2 ^ k) (c.tail.toNat + 1) (c.unread k)

@[simp] theorem length_contents (c : Cbuf) (k : ℕ) : (c.contents k).length = c.unread k :=
  Ring.length_window

theorem sized_declareCbuf {k : ℕ} (h1 : 1 ≤ k) (hk : k ≤ 30) : (declareCbuf (2 ^ k)).Sized k := by
  have hpow : 2 ^ k < 2 ^ 32 := Nat.pow_lt_pow_right one_lt_two (by omega)
  have hnext : nextPow2 (2 ^ k) = 2 ^ k := nextPow2_two_pow h1 (by omega)
  refine ⟨h1, hk, ?_, ?_, ?_, Nat.two_pow_pos k, Nat.two_pow_pos k⟩
  · simp [declareCbuf, hnext]
  · rw [declareCbuf, hnext, BitVec.toNat_ofNat, Nat.mod_eq_of_lt hpow]
  · rw [declareCbuf, hnext, BitVec.toNat_ofNat, Nat.mod_eq_of_lt (by omega)]

theorem contents_declareCbuf (size k : ℕ) : (declareCbuf size).contents k = [] := by
  simp [contents, unread, declareCbuf]

variable {c : Cbuf} {k : ℕ}

theorem unread_lt (h : c.Sized k) : c.unread k < 2 ^ k := by
  have := h.head_lt
  have := h.tail_lt
  rw [unread]
  split <;> omega

/-- Masking an index is reduction modulo the number of slots. -/
theorem toNat_and_sizeMask (h : c.Sized k) (x : BitVec 32) :
    (x &&& c.sizeMask).toNat = x.toNat % 2 ^ k := by
  rw [BitVec.toNat_and, h.toNat_sizeMask, Nat.and_two_pow_sub_one_eq_mod]

theorem two_pow_dvd (h : c.Sized k) : 2 ^ k ∣ 2 ^ 32 :=
  pow_dvd_pow 2 (by have := h.le_thirty; omega)

/-- The index macro `(i + 1) & mask`. -/
theorem toNat_next (h : c.Sized k) (x : BitVec 32) :
    ((x + 1) &&& c.sizeMask).toNat = (x.toNat + 1) % 2 ^ k := by
  rw [toNat_and_sizeMask h, BitVec.toNat_add, Nat.mod_mod_of_dvd _ (two_pow_dvd h)]
  rfl

/-- Advancing a slot index below `size` by one. -/
theorem succ_mod {x size : ℕ} (hx : x < size) :
    (x + 1) % size = if x + 1 = size then 0 else x + 1 := by
  split
  · rename_i heq
    rw [heq, Nat.mod_self]
  · exact Nat.mod_eq_of_lt (by omega)

/-- The slot just past the unread bytes is the one `cbuf_put` writes. -/
theorem slot_past_end (h : c.Sized k) :
    (c.tail.toNat + 1 + c.unread k) % 2 ^ k = (c.head.toNat + 1) % 2 ^ k := by
  have := h.tail_lt
  rw [unread]
  split
  · rw [show c.tail.toNat + 1 + (c.head.toNat - c.tail.toNat) = c.head.toNat + 1 by omega]
  · rw [show c.tail.toNat + 1 + (c.head.toNat + 2 ^ k - c.tail.toNat)
      = c.head.toNat + 1 + 2 ^ k by omega, Nat.add_mod_right]

/-! ### What the tests see -/

theorem isEmpty_eq (h : c.Sized k) : c.isEmpty = decide (c.unread k = 0) := by
  have := h.head_lt
  have := h.tail_lt
  rw [isEmpty, Bool.eq_iff_iff, beq_iff_eq, decide_eq_true_iff, ← BitVec.toNat_inj, unread]
  split <;> omega

theorem toNat_pred (h : c.Sized k) :
    ((c.tail - 1) &&& c.sizeMask).toNat
      = if c.tail.toNat = 0 then 2 ^ k - 1 else c.tail.toNat - 1 := by
  have hk : 2 ^ k < 2 ^ 32 :=
    Nat.pow_lt_pow_right one_lt_two (by have := h.le_thirty; omega)
  have htail := h.tail_lt
  rw [BitVec.toNat_and, h.toNat_sizeMask, BitVec.toNat_sub]
  split
  · rename_i hzero
    have hwrap : (2 ^ 32 - BitVec.toNat (1 : BitVec 32) + 0) % 2 ^ 32 = 2 ^ 32 - 1 := rfl
    rw [hzero, hwrap, Nat.and_comm, Nat.and_two_pow_sub_one_of_lt_two_pow (by omega)]
  · have hone : BitVec.toNat (1 : BitVec 32) = 1 := rfl
    have hsum : 2 ^ 32 - 1 + c.tail.toNat = c.tail.toNat - 1 + 2 ^ 32 := by omega
    rw [hone, hsum, Nat.add_mod_right, Nat.mod_eq_of_lt (by omega),
      Nat.and_two_pow_sub_one_eq_mod, Nat.mod_eq_of_lt (by omega)]

theorem isFull_eq (h : c.Sized k) : c.isFull = decide (c.unread k = 2 ^ k - 1) := by
  have hhead := h.head_lt
  have htail := h.tail_lt
  rw [isFull, Bool.eq_iff_iff, beq_iff_eq, decide_eq_true_iff, ← BitVec.toNat_inj, toNat_pred h,
    unread]
  split <;> split <;> omega

theorem getDataCount_eq (h : c.Sized k) : c.getDataCount = c.unread k := by
  have hk : 2 ^ k ≤ 2 ^ 30 := Nat.pow_le_pow_right two_pos h.le_thirty
  have hhead := h.head_lt
  have htail := h.tail_lt
  have htotal := h.toNat_totalSize
  rw [getDataCount, hmt, BitVec.toInt_eq_toNat_of_lt (by omega),
    BitVec.toInt_eq_toNat_of_lt (by omega), BitVec.toInt_eq_toNat_of_lt (by omega), htotal, unread]
  split <;> split <;> omega

/-! ### What the operations do -/

theorem get_of_unread_eq_zero (h : c.Sized k) (h0 : c.unread k = 0) : c.get = (c, -1) := by
  rw [get, isEmpty_eq h, if_neg (by simp [h0])]

theorem put_of_full (h : c.Sized k) (hfull : c.unread k = 2 ^ k - 1) (data : BitVec 8) :
    c.put data = (c, -1) := by
  rw [put, isFull_eq h, if_neg (by simp [hfull])]

theorem get_eq (h : c.Sized k) (hpos : c.unread k ≠ 0) :
    c.get = ({ c with tail := (c.tail + 1) &&& c.sizeMask },
      ((c.buffer.getD ((c.tail.toNat + 1) % 2 ^ k) 0).toNat : ℤ)) := by
  rw [get, isEmpty_eq h, if_pos (by simp [hpos]), ← toNat_next h]

theorem put_eq (h : c.Sized k) (hroom : c.unread k ≠ 2 ^ k - 1) (data : BitVec 8) :
    c.put data = ({ c with
      head := (c.head + 1) &&& c.sizeMask
      buffer := c.buffer.set ((c.head.toNat + 1) % 2 ^ k) data }, 0) := by
  rw [put, isFull_eq h, if_pos (by simp [hroom]), ← toNat_next h,
    show data &&& 0xff = data from BitVec.and_allOnes]

theorem sized_get (h : c.Sized k) : c.get.1.Sized k := by
  by_cases hpos : c.unread k = 0
  · rwa [get_of_unread_eq_zero h hpos]
  · rw [get_eq h hpos]
    exact { h with
      tail_lt := by
        rw [toNat_next h]
        exact Nat.mod_lt _ (Nat.two_pow_pos k) }

theorem sized_put (h : c.Sized k) (data : BitVec 8) : (c.put data).1.Sized k := by
  by_cases hroom : c.unread k = 2 ^ k - 1
  · rwa [put_of_full h hroom]
  · rw [put_eq h hroom]
    exact { h with
      length_buffer := by rw [List.length_set, h.length_buffer]
      head_lt := by
        rw [toNat_next h]
        exact Nat.mod_lt _ (Nat.two_pow_pos k) }

/-- **Reading.** `cbuf_get` on a nonempty buffer takes the oldest unread byte off the front. -/
theorem contents_get (h : c.Sized k) (hpos : c.unread k ≠ 0) :
    ∃ b, c.contents k = b :: c.get.1.contents k ∧ c.get.2 = (b.toNat : ℤ) := by
  have hhead := h.head_lt
  have htail := h.tail_lt
  have hcount : c.unread k = c.get.1.unread k + 1 := by
    rw [get_eq h hpos]
    rw [unread] at hpos ⊢
    rw [unread, toNat_next h, succ_mod htail]
    dsimp only
    split_ifs at hpos ⊢ <;> omega
  refine ⟨c.buffer.getD ((c.tail.toNat + 1) % 2 ^ k) 0, ?_, ?_⟩
  · rw [contents, hcount, Ring.window_succ, contents, get_eq h hpos]
    dsimp only
    rw [toNat_next h]
    congr 1
    exact (Ring.window_succ_mod _ _ _ _).symm
  · rw [get_eq h hpos]

/-- **Writing.** `cbuf_put` on a buffer with room appends the byte at the back. -/
theorem contents_put (h : c.Sized k) (hroom : c.unread k ≠ 2 ^ k - 1) (data : BitVec 8) :
    (c.put data).1.contents k = c.contents k ++ [data] ∧ (c.put data).2 = 0 := by
  have hhead := h.head_lt
  have htail := h.tail_lt
  have hlt := unread_lt h
  have hcount : (c.put data).1.unread k = c.unread k + 1 := by
    rw [put_eq h hroom]
    rw [unread] at hroom hlt ⊢
    rw [unread, toNat_next h, succ_mod hhead]
    dsimp only
    split_ifs at hroom hlt ⊢ <;> omega
  have hslot : (fun i ↦ (c.buffer.set ((c.head.toNat + 1) % 2 ^ k) data).getD i 0)
      = Function.update (fun i ↦ c.buffer.getD i 0) ((c.tail.toNat + 1 + c.unread k) % 2 ^ k)
        data := by
    rw [slot_past_end h]
    funext i
    have hin : (c.head.toNat + 1) % 2 ^ k < c.buffer.length := by
      rw [h.length_buffer]
      exact Nat.mod_lt _ (Nat.two_pow_pos k)
    by_cases hi : i = (c.head.toNat + 1) % 2 ^ k
    · subst hi
      simp [List.getD, hin]
    · rw [Function.update_of_ne hi]
      simp [List.getD, Ne.symm hi]
  refine ⟨?_, by rw [put_eq h hroom]⟩
  rw [contents, hcount, put_eq h hroom]
  dsimp only
  rw [hslot, Ring.window_push hlt]
  rfl

theorem put_snd_eq_neg_one_iff (h : c.Sized k) (data : BitVec 8) :
    (c.put data).2 = -1 ↔ (c.contents k).length = 2 ^ k - 1 := by
  rw [length_contents]
  by_cases hroom : c.unread k = 2 ^ k - 1
  · simp [put_of_full h hroom, hroom]
  · simp [(contents_put h hroom data).2, hroom]

theorem get_snd_eq_neg_one_iff (h : c.Sized k) : c.get.2 = -1 ↔ c.contents k = [] := by
  by_cases hpos : c.unread k = 0
  · have hnil : c.contents k = [] := by rw [contents, hpos, Ring.window_zero]
    simp [get_of_unread_eq_zero h hpos, hnil]
  · obtain ⟨b, hcons, hget⟩ := contents_get h hpos
    rw [hget, hcons]
    constructor
    · intro hneg; omega
    · intro hnil; cases hnil

end Cbuf

/-! ## The refinement -/

namespace Cbuf

variable {c : Cbuf} {k : ℕ}

theorem sized_step (h : c.Sized k) (op : CbufOp) : (c.step op).1.Sized k := by
  cases op with
  | put data => exact sized_put h data
  | get => exact sized_get h
  | isEmpty | isFull | getDataCount => exact h

/-- One macro is one step of the queue, on the buffer's contents. -/
theorem step_refines (h : c.Sized k) (op : CbufOp) :
    Fifo.step (2 ^ k - 1) (c.contents k) op = ((c.step op).1.contents k, (c.step op).2) := by
  cases op with
  | put data =>
    rw [Fifo.step, length_contents, step]
    by_cases hroom : c.unread k = 2 ^ k - 1
    · rw [if_pos hroom, put_of_full h hroom]
    · obtain ⟨hput, hcode⟩ := contents_put h hroom data
      rw [if_neg hroom, hput, hcode]
  | get =>
    rw [step]
    by_cases hpos : c.unread k = 0
    · have hnil : c.contents k = [] := by rw [contents, hpos, Ring.window_zero]
      rw [get_of_unread_eq_zero h hpos, hnil, Fifo.step]
    · obtain ⟨b, hget, hcode⟩ := contents_get h hpos
      rw [hget, hcode, Fifo.step]
  | isEmpty =>
    have hnil : c.contents k = [] ↔ c.unread k = 0 := by
      rw [← length_contents, List.length_eq_zero_iff]
    simp [Fifo.step, step, isEmpty_eq h, hnil]
  | isFull => simp [Fifo.step, step, isFull_eq h]
  | getDataCount => simp [Fifo.step, step, getDataCount_eq h]

/-- The refinement carried along a run, from any sized buffer. -/
theorem runOps_refines (ops : List CbufOp) : ∀ {c : Cbuf}, c.Sized k →
    (runOps step c ops).1.Sized k ∧
      runOps (Fifo.step (2 ^ k - 1)) (c.contents k) ops
        = ((runOps step c ops).1.contents k, (runOps step c ops).2) := by
  induction ops with
  | nil => intro c h; exact ⟨h, rfl⟩
  | cons op ops ih =>
    intro c h
    obtain ⟨hsized, hrun⟩ := ih (sized_step h op)
    refine ⟨hsized, ?_⟩
    rw [runOps, step_refines h op]
    dsimp only
    rw [hrun]
    rfl

end Cbuf

/-- **The circular buffer is a bounded queue.** Declared with capacity `2 ^ k`, it answers every
sequence of operations as a queue of at most `2 ^ k - 1` bytes does and holds that queue's bytes.
In particular a rejected `put` leaves the buffer exactly as it was. -/
theorem cbuf_refines_fifo (k : ℕ) (h1 : 1 ≤ k) (hk : k ≤ 30) (ops : List CbufOp) :
    let final := (runOps Cbuf.step (declareCbuf (2 ^ k)) ops).1
    (runOps Cbuf.step (declareCbuf (2 ^ k)) ops).2 = (runOps (Fifo.step (2 ^ k - 1)) [] ops).2 ∧
      final.contents k = (runOps (Fifo.step (2 ^ k - 1)) [] ops).1 ∧
      (∀ data, (final.put data).2 = -1 ↔ (final.contents k).length = 2 ^ k - 1) ∧
      (∀ data, (final.put data).2 = -1 → (final.put data).1 = final) ∧
      (final.get.2 = -1 ↔ final.contents k = []) ∧
      final.getDataCount = (final.contents k).length := by
  intro final
  have hinit := Cbuf.sized_declareCbuf h1 hk
  obtain ⟨hsized, hrun⟩ := Cbuf.runOps_refines ops hinit
  rw [Cbuf.contents_declareCbuf] at hrun
  refine ⟨by rw [hrun], by rw [hrun], Cbuf.put_snd_eq_neg_one_iff hsized, ?_,
    Cbuf.get_snd_eq_neg_one_iff hsized, ?_⟩
  · intro data hfail
    have hfull := (Cbuf.put_snd_eq_neg_one_iff hsized data).mp hfail
    rw [Cbuf.length_contents] at hfull
    rw [Cbuf.put_of_full hsized hfull]
  · rw [Cbuf.length_contents]
    exact Cbuf.getDataCount_eq hsized

theorem cbuf_refines_fifo_four :
    (runOps Cbuf.step (declareCbuf (2 ^ 2)) [.put 1, .put 2, .put 3, .put 4, .get]).2
      = [0, 0, 0, -1, 1] :=
  (cbuf_refines_fifo 2 (by decide) (by decide) [.put 1, .put 2, .put 3, .put 4, .get]).1.trans
    (by decide)

/-! ## The mask of any size

The mask has the type `int32_t`. Beyond `2 ^ 31` nothing of a power of two is left in it, and the
mask is -1. -/

theorem toInt_and_lowMask {k : ℕ} (hk : k ≤ 31) (index : BitVec 32) :
    (index &&& BitVec.ofNat 32 (2 ^ k - 1)).toInt = index.toInt % 2 ^ k := by
  have hpow : 2 ^ k ≤ 2 ^ 31 := Nat.pow_le_pow_right two_pos hk
  have hand : (index &&& BitVec.ofNat 32 (2 ^ k - 1)).toNat = index.toNat % 2 ^ k := by
    rw [BitVec.toNat_and, BitVec.toNat_ofNat, Nat.mod_eq_of_lt (by omega),
      Nat.and_two_pow_sub_one_eq_mod]
  have hlt : index.toNat % 2 ^ k < 2 ^ k := Nat.mod_lt _ (Nat.two_pow_pos k)
  have hdvd : ((2 ^ k : ℕ) : ℤ) ∣ (2 ^ 32 : ℕ) :=
    Int.natCast_dvd_natCast.mpr (pow_dvd_pow 2 (by omega))
  have hpush : (2 ^ k : ℤ) = (2 ^ k : ℕ) := by push_cast; rfl
  rw [BitVec.toInt_eq_toNat_of_lt (by omega), hand, hpush, BitVec.toInt_eq_toNat_bmod,
    ← Int.emod_emod_of_dvd _ hdvd, Int.bmod_emod, Int.emod_emod_of_dvd _ hdvd, Int.natCast_mod]

theorem toInt_sizeMask_declareCbuf {size k : ℕ} (hk : k ≤ 31) (hsize : nextPow2 size = 2 ^ k) :
    (declareCbuf size).sizeMask.toInt = 2 ^ k - 1 := by
  have hpow : 2 ^ k ≤ 2 ^ 31 := Nat.pow_le_pow_right two_pos hk
  have hpos : 0 < 2 ^ k := Nat.two_pow_pos k
  have hmask : (BitVec.ofNat 32 (2 ^ k - 1)).toNat = 2 ^ k - 1 := by
    rw [BitVec.toNat_ofNat, Nat.mod_eq_of_lt (by omega)]
  rw [declareCbuf, hsize]
  dsimp only
  rw [BitVec.toInt_eq_toNat_of_lt (by omega), hmask, Nat.cast_sub hpos]
  push_cast
  rfl

theorem sizeMask_declareCbuf_of_lt {size k : ℕ} (hk : 32 ≤ k) (hsize : nextPow2 size = 2 ^ k) :
    (declareCbuf size).sizeMask = BitVec.allOnes 32 := by
  obtain ⟨j, rfl⟩ := Nat.exists_eq_add_of_le hk
  have hpos : 0 < 2 ^ j := Nat.two_pow_pos j
  rw [declareCbuf, hsize]
  refine BitVec.eq_of_toNat_eq ?_
  rw [BitVec.toNat_ofNat, BitVec.toNat_allOnes, pow_add]
  omega

/-- **The mask.** `LOG2_UINT64` is the logarithm and `NEXT_POW2` rounds up. For a size that the type
of the mask has room for, the mask is one less than a power of two, and masking is reduction modulo
the size of the buffer; for a greater one the mask is -1 and changes nothing. -/
theorem cbuf_mask :
    (∀ s, 1 ≤ s → s < 2 ^ 64 → log2Uint64 s = Nat.log 2 s) ∧
      (∀ i, 2 ≤ i → i ≤ 2 ^ 63 → IsLeast {p | (∃ k, p = 2 ^ k) ∧ i ≤ p} (nextPow2 i)) ∧
      (∀ size, 2 ≤ size → size ≤ 2 ^ 31 →
        (∃ k, nextPow2 size = 2 ^ k ∧ (declareCbuf size).sizeMask.toInt = 2 ^ k - 1) ∧
          ∀ index, (index &&& (declareCbuf size).sizeMask).toInt = index.toInt % nextPow2 size) ∧
      ∀ size, 2 ^ 31 < size → size ≤ 2 ^ 63 → (declareCbuf size).sizeMask.toInt = -1 ∧
        ∀ index, index &&& (declareCbuf size).sizeMask = index := by
  refine ⟨fun s _ hs ↦ ?_, fun i h2 hi ↦ isLeast_nextPow2 h2 hi, fun size h2 hsize ↦ ?_,
    fun size hlt hsize ↦ ?_⟩
  · rw [log2Uint64_eq hs, Nat.log2_eq_log_two]
  · have hleast := isLeast_nextPow2 h2 (by omega)
    obtain ⟨k, hk⟩ := hleast.1.1
    have hle : nextPow2 size ≤ 2 ^ 31 := hleast.2 ⟨⟨31, rfl⟩, hsize⟩
    have hk31 : k ≤ 31 := (Nat.pow_le_pow_iff_right one_lt_two).mp (hk ▸ hle)
    refine ⟨⟨k, hk, toInt_sizeMask_declareCbuf hk31 hk⟩, fun index ↦ ?_⟩
    have hmask := toInt_and_lowMask hk31 index
    rw [← hk] at hmask
    rw [declareCbuf, hmask, hk]
    push_cast
    rfl
  · have hleast := isLeast_nextPow2 (by omega) hsize
    obtain ⟨k, hk⟩ := hleast.1.1
    have hlt' : 2 ^ 31 < 2 ^ k := hk ▸ hlt.trans_le hleast.1.2
    have hones := sizeMask_declareCbuf_of_lt ((Nat.pow_lt_pow_iff_right one_lt_two).mp hlt') hk
    rw [hones]
    exact ⟨rfl, fun index ↦ BitVec.and_allOnes⟩

theorem cbuf_mask_hundred :
    log2Uint64 100 = Nat.log 2 100 ∧ IsLeast {p | (∃ k, p = 2 ^ k) ∧ 100 ≤ p} (nextPow2 100) ∧
      (∀ index, (index &&& (declareCbuf 100).sizeMask).toInt = index.toInt % nextPow2 100) ∧
      (declareCbuf (2 ^ 40)).sizeMask.toInt = -1 :=
  ⟨cbuf_mask.1 100 (by decide) (by decide), cbuf_mask.2.1 100 (by decide) (by decide),
    (cbuf_mask.2.2.1 100 (by decide) (by decide)).2,
    (cbuf_mask.2.2.2 (2 ^ 40) (by decide) (by decide)).1⟩

/-- One more than half of what 32 bits hold. The index -1 is the one `cbuf_is_full` computes
for a tail of 0. -/
theorem sizeMask_ne_two_pow :
    (¬∃ k, (declareCbuf (2 ^ 31 + 1)).sizeMask.toInt = 2 ^ k - 1) ∧
      (-1 &&& (declareCbuf (2 ^ 31 + 1)).sizeMask).toInt ≠ -1 % (nextPow2 (2 ^ 31 + 1) : ℤ) := by
  have hmask : (declareCbuf (2 ^ 31 + 1)).sizeMask.toInt = -1 := by decide
  refine ⟨?_, by decide⟩
  rintro ⟨k, hk⟩
  have hpos : (0 : ℤ) < 2 ^ k := by positivity
  omega

end Martink
