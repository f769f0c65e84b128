import Mathlib.Data.List.Range
import Martink.Block.SerialFlash

/-!
# Configuration storage of the CC3D board

`cc3d_write_config` keeps an allocation bitmap in the first 512 bytes of the flash, one bit per
512-byte sector. It scans the bitmap for the first free sector, programs the configuration sector by
sector from there on, and marks each sector it has written. `cc3d_read_config` scans for the first
free sector too, and reads from the sector before it.

## Reading the flash

The driver inverts what it reads and writes, so a marked bit is a *cleared* bit of the cell.
`Allocated mem t` is bit `t` of the flash seen that way, and `firstFree mem` the sector the scan
finds. On a linear memory programming ors bits in, wherever the bitmap and the data lie:
`allocated_writeBlock` is one turn of the writer's loop, `allocated_writeLoop` the whole loop.
`programs_writeLoop` lists the Page Programs it executes, on any part.
-/

namespace Martink

/-! ## The board's functions -/

/-- The scan shared by both functions: the first clear bit of the 512 bytes read from sector 0. -/
def findFree (sector : List (BitVec 8)) : Option ℕ :=
  (List.range 512).findSome? fun c ↦
    ((List.range 8).find? fun j ↦ sector.getD c 0 &&& (1 : BitVec 8) <<< j = 0).map fun j ↦
      c * 8 + j

section Driver

variable (part : FlashPart) (data : List (BitVec 8)) (size : ℕ)

/-- The body of the writer's `do … while` loop, at offset `c` of the data. -/
def writeBlock (chip : M25p16) (c sect : ℕ) : M25p16 :=
  let len := if size - c > 512 then 512 else size - c
  let chip := serialFlashWrite part chip (sect * 512) ((data.drop c).take len)
  let r := serialFlashRead part chip (sect / 8) 1
  let flags := r.2.getD 0 0 ||| (1 : BitVec 8) <<< (sect % 8)
  serialFlashWrite part r.1 (sect / 8) [flags]

def writeLoop (chip : M25p16) (c sect : ℕ) : M25p16 :=
  let chip := writeBlock part data size chip c sect
  if c + 512 < size then writeLoop chip (c + 512) (sect + 1) else chip
  termination_by size - c
  decreasing_by omega

/-- `cc3d_write_config`: the chip afterwards and the return value. -/
def cc3dWriteConfig (chip : M25p16) : M25p16 × ℤ :=
  let r := serialFlashRead part chip 0 512
  match findFree r.2 with
  | none => (r.1, -1)
  | some sect => (writeLoop part data size r.1 0 sect, 0)

/-- `cc3d_read_config`: the return value, and what it leaves in `data` when that is `0`. -/
def cc3dReadConfig (chip : M25p16) : ℤ × List (BitVec 8) :=
  let r := serialFlashRead part chip 0 512
  match findFree r.2 with
  | none => (-1, [])
  | some free =>
    let sect : ℤ := free - 1
    let addr := sect * 512
    if addr < 0 then (-1, []) else (0, (serialFlashRead part r.1 addr.toNat size).2)

end Driver

/-! ## The bitmap -/

/-- Bit `t` of the flash as the driver reads it. For `t < 4096` it marks sector `t`. -/
def Allocated (mem : ℕ → BitVec 8) (t : ℕ) : Prop := (~~~mem (t / 8)).getLsbD (t % 8) = true

instance (mem : ℕ → BitVec 8) (t : ℕ) : Decidable (Allocated mem t) :=
  inferInstanceAs (Decidable (_ = true))

/-- The first 512 bytes as the driver reads them. -/
def bitmap (mem : ℕ → BitVec 8) : List (BitVec 8) := (List.range 512).map fun i ↦ ~~~mem i

/-- The first sector the scan finds free. -/
def firstFree (mem : ℕ → BitVec 8) : Option ℕ := findFree (bitmap mem)

theorem and_shiftLeft_eq_zero_iff (b : BitVec 8) {j : ℕ} (hj : j < 8) :
    b &&& (1 : BitVec 8) <<< j = 0 ↔ b.getLsbD j = false := by
  constructor
  · intro h
    have hbit := congrArg (fun x ↦ x.getLsbD j) h
    simpa [hj] using hbit
  · intro h
    apply BitVec.eq_of_getLsbD_eq
    intro i hi
    by_cases hij : i = j
    · subst hij
      simp [h]
    · simp [hi]
      omega

variable {mem : ℕ → BitVec 8}

/-- The scan's test of bit `j` of byte `c`, on the bytes of the bitmap. -/
theorem bitmap_test {c j : ℕ} (hc : c < 512) (hj : j < 8) :
    (bitmap mem).getD c 0 &&& (1 : BitVec 8) <<< j = 0 ↔ ¬Allocated mem (c * 8 + j) := by
  have hget : (bitmap mem).getD c 0 = ~~~mem c := by
    simp [bitmap, List.getD_eq_getElem?_getD, hc]
  have hdiv : (c * 8 + j) / 8 = c := by omega
  have hmod : (c * 8 + j) % 8 = j := by omega
  rw [hget, and_shiftLeft_eq_zero_iff _ hj, Allocated, hdiv, hmod, Bool.not_eq_true]

theorem findSome?_range_eq_some {β : Type*} {f : ℕ → Option β} {n : ℕ} {b : β}
    (h : (List.range n).findSome? f = some b) :
    ∃ k < n, f k = some b ∧ ∀ i < k, f i = none := by
  induction n with
  | zero => exact absurd h (by simp)
  | succ n ih =>
    rw [List.range_succ, List.findSome?_append] at h
    rcases hpre : (List.range n).findSome? f with _ | b'
    · rw [hpre, Option.none_or] at h
      refine ⟨n, Nat.lt_succ_self n, by simpa using h, fun i hi ↦ ?_⟩
      exact List.findSome?_eq_none_iff.mp hpre i (List.mem_range.mpr hi)
    · rw [hpre, Option.some_or] at h
      obtain ⟨k, hk, hfound⟩ := ih (hpre.trans h)
      exact ⟨k, Nat.lt_succ_of_lt hk, hfound⟩

/-- Before the sector that the scan returns every sector is marked, and it is not. -/
theorem firstFree_eq_some {s : ℕ} (h : firstFree mem = some s) :
    s < 4096 ∧ ¬Allocated mem s ∧ ∀ t < s, Allocated mem t := by
  rw [firstFree, findFree] at h
  obtain ⟨k, hk, hfound, hbefore⟩ := findSome?_range_eq_some h
  obtain ⟨j, hj, rfl⟩ := Option.map_eq_some_iff.mp hfound
  obtain ⟨hfree, hmem, hless⟩ := List.find?_range_eq_some.mp hj
  rw [List.mem_range] at hmem
  rw [decide_eq_true_iff, bitmap_test hk hmem] at hfree
  refine ⟨by omega, hfree, fun t ht ↦ ?_⟩
  rcases Nat.lt_or_ge (t / 8) k with hbyte | hbyte
  · -- a byte the scan has passed has no clear bit
    have hnone := hbefore (t / 8) hbyte
    rw [Option.map_eq_none_iff, List.find?_range_eq_none] at hnone
    have hbit := hnone (t % 8) (by omega)
    rw [Bool.not_eq_true', decide_eq_false_iff_not, bitmap_test (by omega) (by omega),
      not_not, Nat.div_add_mod'] at hbit
    exact hbit
  · -- in the byte of the result the scan has passed the bits before it
    have hbit := hless (t % 8) (by omega)
    have ht' : k * 8 + t % 8 = t := by omega
    rw [Bool.not_eq_true', decide_eq_false_iff_not, bitmap_test hk (by omega), not_not, ht']
      at hbit
    exact hbit

theorem firstFree_eq_none (h : firstFree mem = none) {t : ℕ} (ht : t < 4096) :
    Allocated mem t := by
  rw [firstFree, findFree, List.findSome?_eq_none_iff] at h
  have hnone := h (t / 8) (List.mem_range.mpr (by omega))
  rw [Option.map_eq_none_iff, List.find?_range_eq_none] at hnone
  have hbit := hnone (t % 8) (by omega)
  rw [Bool.not_eq_true', decide_eq_false_iff_not, bitmap_test (by omega) (by omega), not_not,
    Nat.div_add_mod'] at hbit
  exact hbit

/-- **The scan.** It returns the least of the 4096 sectors that is not marked. -/
theorem firstFree_eq_some_iff {s : ℕ} :
    firstFree mem = some s ↔ s < 4096 ∧ ¬Allocated mem s ∧ ∀ t < s, Allocated mem t := by
  refine ⟨firstFree_eq_some, ?_⟩
  rintro ⟨hlt, hfree, hbefore⟩
  rcases hscan : firstFree mem with _ | p
  · exact absurd (firstFree_eq_none hscan hlt) hfree
  · obtain ⟨-, hpfree, hpbefore⟩ := firstFree_eq_some hscan
    rcases Nat.lt_trichotomy p s with h | rfl | h
    · exact absurd (hbefore p h) hpfree
    · rfl
    · exact absurd (hpbefore s h) hfree

/-! ## Bits of a linear memory -/

/-- Bit `t` of the flash, for the data `ds` laid out from `addr` on. -/
def DataBit (ds : List (BitVec 8)) (addr t : ℕ) : Prop :=
  8 * addr ≤ t ∧ (ds.getD (t / 8 - addr) 0).getLsbD (t % 8) = true

theorem dataBit_append (ds es : List (BitVec 8)) (addr t : ℕ) :
    DataBit (ds ++ es) addr t ↔ DataBit ds addr t ∨ DataBit es (addr + ds.length) t := by
  simp only [DataBit, List.getD_eq_getElem?_getD]
  rcases Nat.lt_or_ge (t / 8 - addr) ds.length with h | h
  · have hout : ¬8 * (addr + ds.length) ≤ t := by omega
    rw [List.getElem?_append_left h]
    simp [hout]
  · have hnone : ds[t / 8 - addr]? = none := List.getElem?_eq_none h
    rw [List.getElem?_append_right h, hnone, ← Nat.sub_sub]
    constructor
    · rintro ⟨haddr, hbit⟩
      rcases Nat.lt_or_ge t (8 * (addr + ds.length)) with hlt | hge
      · have hzero : t / 8 - addr - ds.length = 0 := by omega
        omega
      · exact Or.inr ⟨hge, hbit⟩
    · rintro (⟨-, hbit⟩ | ⟨haddr, hbit⟩)
      · simp at hbit
      · exact ⟨by omega, hbit⟩

theorem dataBit_range {ds : List (BitVec 8)} {addr t : ℕ} (h : DataBit ds addr t) :
    8 * addr ≤ t ∧ t < 8 * (addr + ds.length) := by
  obtain ⟨haddr, hbit⟩ := h
  refine ⟨haddr, ?_⟩
  by_contra hge
  rw [List.getD_eq_getElem?_getD, List.getElem?_eq_none (by omega)] at hbit
  simp at hbit

/-- The bits of one cell, and of one byte of the data. -/
theorem allocated_cell (x : ℕ) {j : ℕ} (hj : j < 8) :
    Allocated mem (8 * x + j) ↔ (~~~mem x).getLsbD j = true := by
  have hdiv : (8 * x + j) / 8 = x := by omega
  have hmod : (8 * x + j) % 8 = j := by omega
  rw [Allocated, hdiv, hmod]

theorem dataBit_cell (ds : List (BitVec 8)) (addr x : ℕ) {j : ℕ} (hj : j < 8) :
    DataBit ds addr (8 * x + j) ↔ addr ≤ x ∧ (ds.getD (x - addr) 0).getLsbD j = true := by
  have hdiv : (8 * x + j) / 8 = x := by omega
  have hmod : (8 * x + j) % 8 = j := by omega
  have haddr : 8 * addr ≤ 8 * x + j ↔ addr ≤ x := by omega
  rw [DataBit, hdiv, hmod, haddr]

/-- A cell is determined by its eight bits. -/
theorem cell_eq {mem' : ℕ → BitVec 8} {x : ℕ}
    (h : ∀ j < 8, Allocated mem' (8 * x + j) ↔ Allocated mem (8 * x + j)) : mem' x = mem x := by
  have hinv : ~~~mem' x = ~~~mem x := by
    apply BitVec.eq_of_getLsbD_eq
    intro j hj
    have hbit := h j hj
    rw [allocated_cell x hj, allocated_cell x hj] at hbit
    exact Bool.eq_iff_iff.mpr hbit
  simpa using congrArg (~~~·) hinv

/-- **Programming ors bits in.** -/
theorem allocated_program (busy : ℕ → ℕ) (ds : List (BitVec 8)) (addr t : ℕ) :
    Allocated ((FlashPart.linear busy).program mem addr (ds.map (~~~·))) t ↔
      Allocated mem t ∨ DataBit ds addr t := by
  have hprogram : (FlashPart.linear busy).program
      = writeLinear fun old new : BitVec 8 ↦ old &&& new := rfl
  rw [hprogram]
  by_cases hin : addr ≤ t / 8 ∧ t / 8 < addr + ds.length
  · obtain ⟨i, hi⟩ := Nat.exists_eq_add_of_le hin.1
    have hlen : i < ds.length := by omega
    have hcell : writeLinear (fun old new : BitVec 8 ↦ old &&& new) mem addr (ds.map (~~~·))
        (addr + i) = mem (addr + i) &&& ~~~ds[i] := by
      rw [writeLinear_add _ _ _ (by simpa using hlen), List.getElem_map]
    have hsub : t / 8 - addr = i := by omega
    have haddr : 8 * addr ≤ t := by omega
    rw [Allocated, Allocated, DataBit, hsub, hi, hcell]
    simp [List.getD_eq_getElem?_getD, hlen, haddr, BitVec.not_and]
  · have hcell : writeLinear (fun old new : BitVec 8 ↦ old &&& new) mem addr (ds.map (~~~·))
        (t / 8) = mem (t / 8) :=
      writeLinear_of_notMem _ _ _ (by rw [List.length_map]; omega)
    have hdata : ¬DataBit ds addr t := fun h ↦ hin (by have := dataBit_range h; omega)
    rw [Allocated, hcell, ← Allocated]
    simp [hdata]

/-! ## The writer's loop -/

section Loop

variable (part : FlashPart) (data : List (BitVec 8)) (size : ℕ)

/-- The bytes of the data that the turn at offset `c` writes. -/
def chunk (c : ℕ) : List (BitVec 8) := (data.drop c).take (min (size - c) 512)

theorem length_chunk {c : ℕ} (hlen : data.length = size) :
    (chunk data size c).length = min (size - c) 512 := by
  rw [chunk, List.length_take, List.length_drop, hlen, min_eq_left (min_le_left _ _)]

/-- What the turn programs at the bitmap: the byte it finds there, with the sector's bit. -/
def flagsAfter (mem : ℕ → BitVec 8) (sect : ℕ) : BitVec 8 :=
  ~~~mem (sect / 8) ||| (1 : BitVec 8) <<< (sect % 8)

/-- One turn executes two Page Programs, one for the data and one for the bitmap. -/
theorem writeBlock_eq (chip : M25p16) {c sect : ℕ} (hsect : sect < 2 ^ 15) :
    let after := part.program chip.mem (sect * 512) ((chunk data size c).map (~~~·))
    let flags := [flagsAfter after sect].map (~~~·)
    (writeBlock part data size chip c sect).mem = part.program after (sect / 8) flags ∧
      (writeBlock part data size chip c sect).programs
        = chip.programs ++ [(sect * 512, (chunk data size c).map (~~~·)), (sect / 8, flags)] := by
  have hlen : (if size - c > 512 then 512 else size - c) = min (size - c) 512 := by
    split <;> omega
  have hdata : sect * 512 < 2 ^ 24 := by omega
  have hflags : sect / 8 < 2 ^ 24 := by omega
  rw [writeBlock, hlen, ← chunk, serialFlashWrite_eq part chip hdata,
    serialFlashRead_eq part _ hflags]
  dsimp only
  rw [serialFlashWrite_eq part _ hflags]
  simp [flagsAfter]

/-- One turn on a linear memory: the data, and the sector's bit. -/
theorem allocated_writeBlock (busy : ℕ → ℕ) (chip : M25p16) {c sect : ℕ} (hsect : sect < 2 ^ 15)
    (t : ℕ) :
    Allocated (writeBlock (FlashPart.linear busy) data size chip c sect).mem t ↔
      Allocated chip.mem t ∨ DataBit (chunk data size c) (sect * 512) t ∨ t = sect := by
  rw [(writeBlock_eq _ data size chip hsect).1, allocated_program, allocated_program, or_assoc]
  set after := (FlashPart.linear busy).program chip.mem (sect * 512)
    ((chunk data size c).map (~~~·)) with hafter
  have hflags : DataBit [flagsAfter after sect] (sect / 8) t →
      Allocated after t ∨ t = sect := by
    intro h
    have hrange := dataBit_range h
    have hbyte : t / 8 = sect / 8 := by simp only [List.length_singleton] at hrange; omega
    have hbit := h.2
    rw [hbyte, Nat.sub_self, List.getD_cons_zero, flagsAfter, BitVec.getLsbD_or, ← hbyte,
      Bool.or_eq_true] at hbit
    rcases hbit with hold | hnew
    · exact Or.inl hold
    · right
      have hmod : t % 8 = sect % 8 := by
        by_contra hne
        simp at hnew
        omega
      omega
  have hmark : t = sect → DataBit [flagsAfter after sect] (sect / 8) t := by
    rintro rfl
    refine ⟨by omega, ?_⟩
    have hlt : t % 8 < 8 := by omega
    rw [Nat.sub_self, List.getD_cons_zero, flagsAfter, BitVec.getLsbD_or, Bool.or_eq_true]
    right
    simp [hlt]
  rw [hafter, allocated_program] at hflags
  tauto

/-- The number of sectors that `n` bytes take; even no bytes take one. -/
def sectorsOf (n : ℕ) : ℕ := max 1 ((n + 511) / 512)

theorem sectorsOf_of_le {n : ℕ} (h : n ≤ 512) : sectorsOf n = 1 := by
  rw [sectorsOf]
  omega

theorem sectorsOf_of_lt {n : ℕ} (h : 512 < n) : sectorsOf n = sectorsOf (n - 512) + 1 := by
  rw [sectorsOf, sectorsOf]
  omega

/-- **The loop on a linear memory.** It ors in the rest of the data, laid out from the first
sector on, and the bits of all sectors it has used. -/
theorem allocated_writeLoop (busy : ℕ → ℕ) (hlen : data.length = size) (t : ℕ) :
    ∀ (chip : M25p16) (c sect : ℕ), sect + sectorsOf (size - c) ≤ 2 ^ 15 →
      (Allocated (writeLoop (FlashPart.linear busy) data size chip c sect).mem t ↔
        Allocated chip.mem t ∨ DataBit (data.drop c) (sect * 512) t ∨
          sect ≤ t ∧ t < sect + sectorsOf (size - c)) := by
  intro chip c sect
  induction chip, c, sect using writeLoop.induct (FlashPart.linear busy) data size with
  | case1 chip c sect after hmore ih =>
    intro hsect
    have hblocks := sectorsOf_of_lt (by omega : 512 < size - c)
    rw [Nat.sub_sub] at hblocks
    have hsplit : data.drop c = chunk data size c ++ data.drop (c + 512) := by
      rw [chunk, min_eq_right (by omega), ← List.drop_drop, List.take_append_drop]
    have hfull : (chunk data size c).length = 512 := by
      rw [length_chunk data size hlen, min_eq_right (by omega)]
    rw [writeLoop, if_pos hmore, ih (by omega), allocated_writeBlock _ _ _ _ (by omega), hsplit,
      dataBit_append, hfull, Nat.succ_mul]
    have hrange : (sect + 1 ≤ t ∧ t < sect + 1 + sectorsOf (size - (c + 512)) ∨ t = sect) ↔
        sect ≤ t ∧ t < sect + sectorsOf (size - c) := by
      omega
    rw [← hrange]
    simp only [or_assoc, or_comm, or_left_comm]
  | case2 chip c sect hlast =>
    intro hsect
    have hone := sectorsOf_of_le (by omega : size - c ≤ 512)
    have hall : chunk data size c = data.drop c := by
      rw [chunk, min_eq_left (by omega), List.take_of_length_le]
      rw [List.length_drop, hlen]
    rw [writeLoop, if_neg hlast, allocated_writeBlock _ _ _ _ (by omega), hall, hone]
    have hrange : t = sect ↔ sect ≤ t ∧ t < sect + 1 := by omega
    rw [hrange]

/-- The Page Programs of the loop: the blocks of the data, each in its sector, and single bytes at
the bitmap. -/
theorem programs_writeLoop : ∀ (chip : M25p16) (c sect : ℕ),
    sect + sectorsOf (size - c) ≤ 2 ^ 15 →
      ∃ log, (writeLoop part data size chip c sect).programs = chip.programs ++ log ∧
        (∀ p ∈ log, ∃ k < sectorsOf (size - c),
          p = ((sect + k) * 512, (chunk data size (c + 512 * k)).map (~~~·)) ∨
            ∃ flags, p = ((sect + k) / 8, [flags])) ∧
        ∀ k < sectorsOf (size - c),
          ((sect + k) * 512, (chunk data size (c + 512 * k)).map (~~~·)) ∈ log := by
  intro chip c sect
  induction chip, c, sect using writeLoop.induct part data size with
  | case1 chip c sect after hmore ih =>
    intro hsect
    have hblocks := sectorsOf_of_lt (by omega : 512 < size - c)
    rw [Nat.sub_sub] at hblocks
    have hnext : ∀ k, sect + 1 + k = sect + (k + 1) ∧ c + 512 + 512 * k = c + 512 * (k + 1) :=
      fun k ↦ by omega
    obtain ⟨log, hlog, hshape, hdata⟩ := ih (by omega)
    rw [writeLoop, if_pos hmore, hlog, (writeBlock_eq part data size chip (by omega)).2,
      List.append_assoc]
    refine ⟨_, rfl, ?_, ?_⟩
    · intro p hp
      rw [List.mem_append] at hp
      rcases hp with hp | hp
      · refine ⟨0, by omega, ?_⟩
        rcases List.mem_cons.mp hp with rfl | hp
        · exact Or.inl rfl
        · exact Or.inr ⟨_, List.mem_singleton.mp hp⟩
      · obtain ⟨k, hk, hshape⟩ := hshape p hp
        rw [(hnext k).1, (hnext k).2] at hshape
        exact ⟨k + 1, by omega, hshape⟩
    · intro k hk
      rw [List.mem_append]
      rcases k with _ | k
      · exact Or.inl List.mem_cons_self
      · rw [← (hnext k).1, ← (hnext k).2]
        exact Or.inr (hdata k (by omega))
  | case2 chip c sect hlast =>
    intro hsect
    have hone := sectorsOf_of_le (by omega : size - c ≤ 512)
    rw [writeLoop, if_neg hlast, (writeBlock_eq part data size chip (by omega)).2, hone]
    refine ⟨_, rfl, ?_, ?_⟩
    · intro p hp
      refine ⟨0, Nat.one_pos, ?_⟩
      rcases List.mem_cons.mp hp with rfl | hp
      · exact Or.inl rfl
      · exact Or.inr ⟨_, List.mem_singleton.mp hp⟩
    · intro k hk
      obtain rfl : k = 0 := by omega
      exact List.mem_cons_self

/-! ## Both functions -/

theorem serialFlashRead_bitmap (chip : M25p16) :
    serialFlashRead part chip 0 512 = ({ chip with wip := 0 }, bitmap chip.mem) := by
  have hzero : 0 < 2 ^ 24 := by omega
  rw [serialFlashRead_eq part chip hzero, bitmap]
  simp only [Nat.zero_add]

theorem cc3dWriteConfig_of_none (chip : M25p16) (h : firstFree chip.mem = none) :
    cc3dWriteConfig part data size chip = ({ chip with wip := 0 }, -1) := by
  unfold cc3dWriteConfig
  rw [serialFlashRead_bitmap]
  dsimp only
  rw [← firstFree, h]

theorem cc3dWriteConfig_of_some (chip : M25p16) {s : ℕ} (h : firstFree chip.mem = some s) :
    cc3dWriteConfig part data size chip
      = (writeLoop part data size { chip with wip := 0 } 0 s, 0) := by
  unfold cc3dWriteConfig
  rw [serialFlashRead_bitmap]
  dsimp only
  rw [← firstFree, h]

theorem cc3dReadConfig_of_none (chip : M25p16) (h : firstFree chip.mem = none) :
    cc3dReadConfig part size chip = (-1, []) := by
  unfold cc3dReadConfig
  rw [serialFlashRead_bitmap]
  dsimp only
  rw [← firstFree, h]

/-- The reader looks at the sector before the first free one, and at no other. -/
theorem cc3dReadConfig_of_some (chip : M25p16) {s : ℕ} (h : firstFree chip.mem = some s) :
    cc3dReadConfig part size chip
      = if s = 0 then (-1, []) else
          (0, (List.range size).map fun i ↦ ~~~chip.mem ((s - 1) * 512 + i)) := by
  have hbound := (firstFree_eq_some h).1
  unfold cc3dReadConfig
  rw [serialFlashRead_bitmap]
  dsimp only
  rw [← firstFree, h]
  dsimp only
  rcases s with _ | s
  · rfl
  · have haddr : ((↑(s + 1) - 1 : ℤ) * 512).toNat = s * 512 := by omega
    rw [if_neg (by omega), if_neg (Nat.succ_ne_zero s), haddr, serialFlashRead_eq part _ (by omega),
      Nat.add_sub_cancel]

end Loop

end Martink
