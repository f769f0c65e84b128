import Mathlib.Data.Set.Basic
import Martink.Boards.OpenpilotCc3d

/-!
# What one call of `cc3d_write_config` programs

The scan looks for one free sector, and the loop then runs over as many sectors as the data needs.
`cc3dWriteConfig_writesSafely_iff` says on which flash contents the call keeps to sectors that were
free: the run from the first free sector on has to be free as a whole and to end inside the bitmap,
and the first free sector must not be the bitmap's own.

`cc3dWriteConfig_pageSafe_iff` is about a part that programs within 256-byte pages. The blocks are
of 512 bytes, so only data of at most half a block reaches the cells it is meant for.
-/

namespace Martink

variable (busy : ℕ → ℕ) (data : List (BitVec 8))

/-- The Page Programs that a call executes. -/
def issued (part : FlashPart) (data : List (BitVec 8)) (chip : M25p16) :
    List (ℕ × List (BitVec 8)) :=
  (cc3dWriteConfig part data data.length chip).1.programs.drop chip.programs.length

theorem issued_of_none (part : FlashPart) {chip : M25p16} (h : firstFree chip.mem = none) :
    issued part data chip = [] := by
  rw [issued, cc3dWriteConfig_of_none part data _ chip h]
  exact List.drop_length

theorem le_sectorsOf (n : ℕ) : n ≤ 512 * sectorsOf n := by
  rw [sectorsOf]
  omega

theorem sectorsOf_le {n : ℕ} (h : n ≤ 65535) : sectorsOf n ≤ 128 := by
  rw [sectorsOf]
  omega

theorem sectorsOf_pos (n : ℕ) : 0 < sectorsOf n := by
  rw [sectorsOf]
  omega

/-- The blocks and the bitmap bytes that a call from the free sector `s` on programs. -/
theorem issued_of_some (part : FlashPart) {data : List (BitVec 8)} {chip : M25p16} {s : ℕ}
    (h : firstFree chip.mem = some s) (hsize : data.length ≤ 65535) :
    (∀ p ∈ issued part data chip, ∃ k < sectorsOf data.length,
      p = ((s + k) * 512, (chunk data data.length (512 * k)).map (~~~·)) ∨
        ∃ flags, p = ((s + k) / 8, [flags])) ∧
      ∀ k < sectorsOf data.length,
        ((s + k) * 512, (chunk data data.length (512 * k)).map (~~~·)) ∈ issued part data chip := by
  have hs := (firstFree_eq_some h).1
  have hblocks := sectorsOf_le hsize
  obtain ⟨log, hlog, hshape, hdata⟩ := programs_writeLoop part data data.length
    { chip with wip := 0 } 0 s (by rw [Nat.sub_zero]; omega)
  have hissued : issued part data chip = log := by
    rw [issued, cc3dWriteConfig_of_some part data _ chip h, hlog]
    exact List.drop_left
  simp only [Nat.sub_zero, Nat.zero_add] at hshape hdata
  rw [hissued]
  exact ⟨hshape, hdata⟩

/-! ## Free sectors -/

/-- What a call changed and programmed lies in the sectors `T` and at their bits of the bitmap. All
of them were free, and none of them is the bitmap's own. -/
structure OnlyFree (mem mem' : ℕ → BitVec 8) (log : List (ℕ × List (BitVec 8))) (T : Set ℕ) :
    Prop where
  /-- The sectors were free, and are none of the bitmap. -/
  free : ∀ t ∈ T, 1 ≤ t ∧ t < 4096 ∧ ¬Allocated mem t
  /-- Every program lies in the bitmap's sector or in one of them. -/
  programs : ∀ p ∈ log, p.1 + p.2.length ≤ 512 ∨
    ∃ t ∈ T, 512 * t ≤ p.1 ∧ p.1 + p.2.length ≤ 512 * (t + 1)
  /-- A cell behind the bitmap that has changed is in one of them. -/
  cells : ∀ a, 512 ≤ a → mem' a ≠ mem a → a / 512 ∈ T
  /-- A bit of the bitmap that has changed is that of one of them. -/
  bits : ∀ t < 4096, ¬(Allocated mem' t ↔ Allocated mem t) → t ∈ T

/-- The `m` sectors from `s` on are free, and the bitmap describes them. -/
def FreeRun (mem : ℕ → BitVec 8) (s m : ℕ) : Prop :=
  ∀ k < m, s + k < 4096 ∧ ¬Allocated mem (s + k)

instance (mem : ℕ → BitVec 8) (s m : ℕ) : Decidable (FreeRun mem s m) :=
  inferInstanceAs (Decidable (∀ k < m, _))

/-- Either the call succeeds within free sectors, or it reports that there is no room and leaves the
flash alone. -/
def WritesSafely (chip : M25p16) : Prop :=
  let r := cc3dWriteConfig (FlashPart.linear busy) data data.length chip
  let log := issued (FlashPart.linear busy) data chip
  (r.2 = 0 ∧ ∃ T, OnlyFree chip.mem r.1.mem log T) ∨
    (r.2 = -1 ∧ r.1.mem = chip.mem ∧ log = [] ∧ ∀ s, ¬FreeRun chip.mem s (sectorsOf data.length))

variable {data} {chip : M25p16}

/-- The bits of the flash after a call that found the free sector `s`. -/
theorem allocated_cc3dWriteConfig {s : ℕ} (h : firstFree chip.mem = some s)
    (hsize : data.length ≤ 65535) (t : ℕ) :
    Allocated (cc3dWriteConfig (FlashPart.linear busy) data data.length chip).1.mem t ↔
      Allocated chip.mem t ∨ DataBit data (s * 512) t ∨
        s ≤ t ∧ t < s + sectorsOf data.length := by
  have hs := (firstFree_eq_some h).1
  have hblocks := sectorsOf_le hsize
  rw [cc3dWriteConfig_of_some _ data _ chip h, allocated_writeLoop data _ busy rfl t _ _ _
    (by rw [Nat.sub_zero]; omega), List.drop_zero, Nat.sub_zero]

/-- A free run behind the bitmap is where the call stays. -/
theorem onlyFree_of_freeRun {s : ℕ} (h : firstFree chip.mem = some s)
    (hsize : data.length ≤ 65535) (hpos : 1 ≤ s)
    (hrun : FreeRun chip.mem s (sectorsOf data.length)) :
    OnlyFree chip.mem (cc3dWriteConfig (FlashPart.linear busy) data data.length chip).1.mem
      (issued (FlashPart.linear busy) data chip) {t | s ≤ t ∧ t < s + sectorsOf data.length} := by
  have hlen := le_sectorsOf data.length
  have hlast : s + sectorsOf data.length ≤ 4096 := by
    have hblocks := sectorsOf_pos data.length
    have := (hrun (sectorsOf data.length - 1) (by omega)).1
    omega
  refine ⟨?_, ?_, ?_, ?_⟩
  · rintro t ⟨hst, hts⟩
    obtain ⟨k, rfl⟩ := Nat.exists_eq_add_of_le hst
    obtain ⟨hlt, hfree⟩ := hrun k (by omega)
    exact ⟨by omega, hlt, hfree⟩
  · intro p hp
    obtain ⟨k, hk, rfl | ⟨flags, rfl⟩⟩ := (issued_of_some _ h hsize).1 p hp
    · right
      refine ⟨s + k, ⟨by omega, by omega⟩, by omega, ?_⟩
      rw [List.length_map, length_chunk _ _ rfl]
      omega
    · left
      rw [List.length_singleton]
      omega
  · intro a ha hne
    by_contra hout
    refine hne (cell_eq fun j hj ↦ ?_)
    rw [allocated_cc3dWriteConfig busy h hsize]
    constructor
    · rintro (hold | hdata | hmark)
      · exact hold
      · have hrange := dataBit_range hdata
        have hin : s ≤ a / 512 ∧ a / 512 < s + sectorsOf data.length := by omega
        exact absurd hin hout
      · omega
    · exact Or.inl
  · intro t ht hne
    by_contra hout
    refine hne ?_
    rw [allocated_cc3dWriteConfig busy h hsize]
    constructor
    · rintro (hold | hdata | hmark)
      · exact hold
      · have hrange := dataBit_range hdata
        omega
      · exact absurd hmark hout
    · exact Or.inl

/-- A call that keeps to free sectors had a free run behind the bitmap. -/
theorem freeRun_of_onlyFree {s : ℕ} {T : Set ℕ} (h : firstFree chip.mem = some s)
    (hsize : 1 ≤ data.length ∧ data.length ≤ 65535)
    (honly : OnlyFree chip.mem (cc3dWriteConfig (FlashPart.linear busy) data data.length chip).1.mem
      (issued (FlashPart.linear busy) data chip) T) :
    1 ≤ s ∧ FreeRun chip.mem s (sectorsOf data.length) := by
  obtain ⟨hs, hfree, -⟩ := firstFree_eq_some h
  have hmark : s ∈ T := by
    refine honly.bits s hs fun hsame ↦ hfree (hsame.mp ?_)
    rw [allocated_cc3dWriteConfig busy h hsize.2]
    have hblocks := sectorsOf_pos data.length
    exact Or.inr (Or.inr ⟨le_rfl, by omega⟩)
  have hpos := (honly.free s hmark).1
  refine ⟨hpos, fun k hk ↦ ?_⟩
  have hlen : 1 ≤ (chunk data data.length (512 * k)).length := by
    rw [sectorsOf] at hk
    rw [length_chunk _ _ rfl]
    omega
  -- the block of sector `s + k` is too far away for the bitmap, so its sector is one of `T`
  rcases honly.programs _ ((issued_of_some _ h hsize.2).2 k hk) with hbitmap | ⟨t, ht, hlo, hhi⟩
  · rw [List.length_map] at hbitmap
    omega
  · rw [List.length_map] at hhi
    obtain rfl : t = s + k := by omega
    exact (honly.free _ ht).2

/-- **Where a call stays in free sectors.** It does exactly when the scan finds nothing, or finds a
sector behind the bitmap from which enough sectors are free. -/
theorem cc3dWriteConfig_writesSafely_iff (hsize : 1 ≤ data.length ∧ data.length ≤ 65535) :
    WritesSafely busy data chip ↔
      ∀ s, firstFree chip.mem = some s →
        1 ≤ s ∧ FreeRun chip.mem s (sectorsOf data.length) := by
  constructor
  · rintro (⟨-, T, honly⟩ | ⟨hret, -⟩) s h
    · exact freeRun_of_onlyFree busy h hsize honly
    · rw [cc3dWriteConfig_of_some _ data _ chip h] at hret
      simp at hret
  · intro h
    rcases hscan : firstFree chip.mem with _ | s
    · refine Or.inr ⟨?_, ?_, issued_of_none data _ hscan, fun s hrun ↦ ?_⟩
      · rw [cc3dWriteConfig_of_none _ data _ chip hscan]
      · rw [cc3dWriteConfig_of_none _ data _ chip hscan]
      · obtain ⟨hlt, hfree⟩ := hrun 0 (sectorsOf_pos _)
        exact hfree (firstFree_eq_none hscan hlt)
    · obtain ⟨hpos, hrun⟩ := h s hscan
      refine Or.inl ⟨?_, _, onlyFree_of_freeRun busy hscan hsize.2 hpos hrun⟩
      rw [cc3dWriteConfig_of_some _ data _ chip hscan]

/-- A flash that has been erased, and one whose bitmap marks its own sector as well. -/
def erasedFlash : M25p16 := ⟨fun _ ↦ 0xff, false, 0, []⟩
def freshFlash : M25p16 := ⟨fun a ↦ if a = 0 then 0xfe else 0xff, false, 0, []⟩

theorem firstFree_erased {mem : ℕ → BitVec 8} (h : ∀ a, mem a = 0xff) :
    firstFree mem = some 0 := by
  refine firstFree_eq_some_iff.mpr ⟨by omega, ?_, fun t ht ↦ absurd ht (Nat.not_lt_zero t)⟩
  rw [Allocated, h]
  decide

theorem allocated_freshFlash (t : ℕ) : Allocated freshFlash.mem t ↔ t = 0 := by
  rw [Allocated, freshFlash]
  by_cases hbyte : t / 8 = 0
  · have hlt : t < 8 := by omega
    interval_cases t <;> decide
  · simp only [hbyte, if_false]
    simp
    omega

theorem firstFree_freshFlash : firstFree freshFlash.mem = some 1 := by
  refine firstFree_eq_some_iff.mpr ⟨by omega, ?_, fun t ht ↦ ?_⟩
  · rw [allocated_freshFlash]
    omega
  · rw [allocated_freshFlash]
    omega

/-- Two bytes into a flash whose bitmap marks its own sector. -/
theorem cc3dWriteConfig_writesSafely_two :
    WritesSafely (fun _ ↦ 0) [0x0a, 0x0b] freshFlash := by
  refine (cc3dWriteConfig_writesSafely_iff _ (by decide)).mpr fun s h ↦ ?_
  obtain rfl : s = 1 := by rw [firstFree_freshFlash] at h; simpa using h.symm
  refine ⟨le_rfl, fun k hk ↦ ?_⟩
  have hk0 : k < 1 := hk
  rw [allocated_freshFlash]
  omega

/-- On an erased flash the first free sector is the bitmap's own, and the data goes over it. -/
theorem cc3dWriteConfig_not_writesSafely : ¬WritesSafely (fun _ ↦ 0) [0x0a] erasedFlash := by
  have hscan : firstFree erasedFlash.mem = some 0 := firstFree_erased fun _ ↦ rfl
  rintro (⟨-, T, honly⟩ | ⟨hret, -⟩)
  · have hpos := (freeRun_of_onlyFree _ hscan (by decide) honly).1
    omega
  · rw [cc3dWriteConfig_of_some _ _ _ _ hscan] at hret
    simp at hret

/-! ## Pages -/

/-- Every Page Program stays inside a page, so that the driver reads back what it has written to an
erased area. -/
def PageSafe (data : List (BitVec 8)) (chip : M25p16) : Prop :=
  let part := FlashPart.paged busy
  ∀ p ∈ issued part data chip,
    (∀ i < p.2.length, (p.1 + i) / 256 = p.1 / 256) ∧
      ∀ flash : M25p16, (∀ i < p.2.length, flash.mem (p.1 + i) = 0xff) →
        (serialFlashRead part (serialFlashWrite part flash p.1 (p.2.map (~~~·))) p.1
          p.2.length).2 = p.2.map (~~~·)

/-- A write inside a page reads back. -/
theorem serialFlashRead_write_paged {addr : ℕ} {ds : List (BitVec 8)} (haddr : addr < 2 ^ 24)
    (hpage : addr % 256 + ds.length ≤ 256) (flash : M25p16)
    (herased : ∀ i < ds.length, flash.mem (addr + i) = 0xff) :
    (serialFlashRead (FlashPart.paged busy)
      (serialFlashWrite (FlashPart.paged busy) flash addr (ds.map (~~~·))) addr ds.length).2
        = ds.map (~~~·) := by
  have hprogram : (FlashPart.paged busy).program flash.mem addr ds
      = writeLinear (fun old new : BitVec 8 ↦ old &&& new) flash.mem addr ds :=
    writePaged_eq_writeLinear ds _ _ hpage
  have hinv : (ds.map (~~~·)).map (~~~·) = ds := by simp [Function.comp_def]
  rw [serialFlashWrite_eq _ _ haddr, serialFlashRead_eq _ _ haddr, hinv]
  dsimp only
  rw [hprogram]
  refine List.ext_getElem (by simp) fun i hi _ ↦ ?_
  have hlt : i < ds.length := by simpa using hi
  rw [List.getElem_map, List.getElem_range, List.getElem_map, writeLinear_add _ _ _ hlt,
    herased i hlt]
  exact congrArg (~~~·) (BitVec.allOnes_and)

/-- **Where a call keeps to the pages.** It does exactly when the scan finds nothing, or the data is
at most a page. -/
theorem cc3dWriteConfig_pageSafe_iff (hsize : data.length ≤ 65535) :
    PageSafe busy data chip ↔ firstFree chip.mem = none ∨ data.length ≤ 256 := by
  rcases hscan : firstFree chip.mem with _ | s
  · refine ⟨fun _ ↦ Or.inl rfl, fun _ p hp ↦ ?_⟩
    rw [issued_of_none data _ hscan] at hp
    exact absurd hp List.not_mem_nil
  have hs := (firstFree_eq_some hscan).1
  obtain ⟨hshape, hblock⟩ := issued_of_some (FlashPart.paged busy) hscan hsize
  constructor
  · intro h
    right
    by_contra hlong
    -- the first block begins at a page and does not end in it
    have hstay := (h _ (hblock 0 (sectorsOf_pos _))).1 256 (by
      rw [List.length_map, length_chunk _ _ rfl]
      omega)
    omega
  · rintro (hnone | hshort)
    · exact absurd hnone (by simp)
    have hone := sectorsOf_of_le (by omega : data.length ≤ 512)
    intro p hp
    have hpage : p.1 < 2 ^ 24 ∧ p.1 % 256 + p.2.length ≤ 256 := by
      obtain ⟨k, hk, rfl | ⟨flags, rfl⟩⟩ := hshape p hp
      · rw [List.length_map, length_chunk _ _ rfl]
        omega
      · rw [List.length_singleton]
        omega
    refine ⟨fun i hi ↦ by omega, fun flash herased ↦ ?_⟩
    exact serialFlashRead_write_paged busy hpage.1 hpage.2 flash herased

theorem cc3dWriteConfig_pageSafe_two : PageSafe (fun _ ↦ 0) [0x0a, 0x0b] freshFlash :=
  (cc3dWriteConfig_pageSafe_iff _ (by decide)).mpr (Or.inr (by decide))

/-- One byte more than a page is programmed in one piece. -/
theorem cc3dWriteConfig_not_pageSafe :
    ¬PageSafe (fun _ ↦ 0) (List.replicate 257 0x0a) freshFlash := by
  intro h
  have hlen : (List.replicate 257 (0x0a : BitVec 8)).length = 257 := List.length_replicate
  have hblock := (issued_of_some (FlashPart.paged fun _ ↦ 0) firstFree_freshFlash
    (show (List.replicate 257 (0x0a : BitVec 8)).length ≤ 65535 by omega)).2 0 (sectorsOf_pos _)
  have hstay := (h _ hblock).1 256 (by
    rw [List.length_map, length_chunk _ _ rfl, hlen]
    omega)
  omega

end Martink
