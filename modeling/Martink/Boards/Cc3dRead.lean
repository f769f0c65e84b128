import Martink.Boards.Cc3dWrite

/-!
# Reading the configuration back

`cc3d_read_config` returns what lies in the sector before the first free one. After a history of
successful calls on an erased flash everything from the first free sector on is still erased
(`erasedFrom_writeAll`), so the last configuration is the only one that can be found there.

`cc3dReadConfig_last_iff` says when it is. The reader starts at the *last* sector that was marked,
not at the first sector of the configuration, and on the erased flash the configuration has gone
over the bitmap itself.
-/

namespace Martink

variable (busy : ℕ → ℕ)

/-- Calls in a row, as long as they return `0`. -/
def writeAll (chip : M25p16) : List (List (BitVec 8)) → Option M25p16
  | [] => some chip
  | data :: configs =>
    let r := cc3dWriteConfig (FlashPart.linear busy) data data.length chip
    if r.2 = 0 then writeAll r.1 configs else none

/-- Nothing has been programmed from the first free sector on. -/
def ErasedFrom (mem : ℕ → BitVec 8) : Prop :=
  ∀ s, firstFree mem = some s → ∀ a, 512 * s ≤ a → mem a = 0xff

/-- The condition on the flash and on the data, for each first free sector: on an erased flash the
first byte has to leave the mark of sector 0 alone and sector 1 free; behind the bitmap one free
sector has to follow the only sector of the data. Data that is zero is also found elsewhere. -/
def ReadableFrom (mem : ℕ → BitVec 8) (data : List (BitVec 8)) : ℕ → Prop
  | 0 => if data.length ≤ 512 then data.getD 0 0 &&& 3 = 1 else ∀ b ∈ data, b = 0
  | s + 1 =>
    (data.length ≤ 512 ∧ s + 2 < 4096 ∧ ¬Allocated mem (s + 2)) ∨
      ((∀ b ∈ data, b = 0) ∧
        ∃ t < 4096, s + 1 + sectorsOf data.length ≤ t ∧ ¬Allocated mem t)

/-- The condition on the flash before a call under which the reader finds its data. -/
def Readable (mem : ℕ → BitVec 8) (data : List (BitVec 8)) : Prop :=
  ∃ s, firstFree mem = some s ∧ ReadableFrom mem data s

theorem readable_of_some {mem : ℕ → BitVec 8} {data : List (BitVec 8)} {s : ℕ}
    (h : firstFree mem = some s) : Readable mem data ↔ ReadableFrom mem data s := by
  rw [Readable, h]
  constructor
  · rintro ⟨t, ht, hread⟩
    rwa [Option.some.inj ht]
  · exact fun hread ↦ ⟨s, rfl, hread⟩

section Step

variable {data : List (BitVec 8)} {chip : M25p16} {s s' : ℕ}

/-- The next scan goes past all sectors of the call. -/
theorem firstFree_after (h : firstFree chip.mem = some s) (hsize : data.length ≤ 65535)
    (h' : firstFree (cc3dWriteConfig (FlashPart.linear busy) data data.length chip).1.mem
      = some s') : s + sectorsOf data.length ≤ s' := by
  obtain ⟨-, hfree, -⟩ := firstFree_eq_some h'
  rw [allocated_cc3dWriteConfig busy h hsize] at hfree
  by_contra hlt
  rcases Nat.lt_or_ge s' s with hbefore | hsect
  · exact hfree (Or.inl ((firstFree_eq_some h).2.2 s' hbefore))
  · exact hfree (Or.inr (Or.inr ⟨hsect, by omega⟩))

/-- **One call keeps the invariant.** -/
theorem erasedFrom_cc3dWriteConfig (hinv : ErasedFrom chip.mem) (hsize : data.length ≤ 65535) :
    ErasedFrom (cc3dWriteConfig (FlashPart.linear busy) data data.length chip).1.mem := by
  intro s' h' a ha
  rcases h : firstFree chip.mem with _ | s
  · rw [cc3dWriteConfig_of_none _ data _ chip h] at h' ⊢
    exact absurd h' (by simp [h])
  · have hnext := firstFree_after busy h hsize h'
    have hlen := le_sectorsOf data.length
    have hblocks := sectorsOf_pos data.length
    rw [← hinv s h a (by omega)]
    refine cell_eq fun j hj ↦ ?_
    rw [allocated_cc3dWriteConfig busy h hsize]
    constructor
    · rintro (hold | hdata | hmark)
      · exact hold
      · have := dataBit_range hdata
        omega
      · omega
    · exact Or.inl

/-- Away from the new marks, what the call leaves behind the first free sector is the data. -/
theorem cell_after (hinv : ErasedFrom chip.mem) (h : firstFree chip.mem = some s)
    (hsize : data.length ≤ 65535) {a : ℕ} (ha : 512 * s ≤ a)
    (hmarks : s + sectorsOf data.length ≤ 8 * a) :
    ~~~(cc3dWriteConfig (FlashPart.linear busy) data data.length chip).1.mem a
      = data.getD (a - 512 * s) 0 := by
  apply BitVec.eq_of_getLsbD_eq
  intro j hj
  have herased : ¬Allocated chip.mem (8 * a + j) := by
    rw [allocated_cell a hj, hinv s h a ha]
    simp
  rw [Bool.eq_iff_iff, ← allocated_cell a hj, allocated_cc3dWriteConfig busy h hsize,
    dataBit_cell _ _ _ hj, mul_comm s 512]
  constructor
  · rintro (hold | hdata | hmark)
    · exact absurd hold herased
    · exact hdata.2
    · omega
  · intro hbit
    exact Or.inr (Or.inl ⟨ha, hbit⟩)

end Step

/-- Data that equals its own tail, filled up with zeros, is zero. -/
theorem shifted_eq_iff (data : List (BitVec 8)) {k : ℕ} (hk : 0 < k) :
    ((List.range data.length).map fun i ↦ data.getD (k + i) 0) = data ↔ ∀ b ∈ data, b = 0 := by
  constructor
  · intro h
    have hshift : ∀ i < data.length, data.getD i 0 = data.getD (k + i) 0 := by
      intro i hi
      have hget := congrArg (fun l ↦ l.getD i 0) h
      simpa [hi] using hget.symm
    -- from the end of the data towards its beginning
    have hzero : ∀ n i, data.length ≤ i + n → data.getD i 0 = 0 := by
      intro n
      induction n with
      | zero =>
        intro i hi
        rw [List.getD_eq_getElem?_getD, List.getElem?_eq_none (by omega), Option.getD_none]
      | succ n ih =>
        intro i hi
        rcases Nat.lt_or_ge i data.length with hlt | hge
        · rw [hshift i hlt]
          exact ih (k + i) (by omega)
        · exact ih i (by omega)
    intro b hb
    obtain ⟨i, hi, rfl⟩ := List.mem_iff_getElem.mp hb
    have hget := hzero data.length i (by omega)
    rwa [List.getD_eq_getElem?_getD, List.getElem?_eq_getElem hi, Option.getD_some] at hget
  · intro h
    refine List.ext_getElem (by simp) fun i hi hi' ↦ ?_
    rw [List.getElem_map, List.getElem_range, h _ (List.getElem_mem hi'),
      List.getD_eq_getElem?_getD]
    rcases hnext : data[k + i]? with _ | b
    · rfl
    · exact h b (List.mem_of_getElem? hnext)

section ReadBack

variable {data : List (BitVec 8)} {chip : M25p16} {s s' : ℕ}

/-- The reader finds the data shifted by the sectors between the first free one and its own. -/
theorem cc3dReadConfig_after (hinv : ErasedFrom chip.mem) (h : firstFree chip.mem = some s)
    (hsize : data.length ≤ 65535)
    (h' : firstFree (cc3dWriteConfig (FlashPart.linear busy) data data.length chip).1.mem = some s')
    (hbehind : 2 ≤ s') :
    cc3dReadConfig (FlashPart.linear busy) data.length
        (cc3dWriteConfig (FlashPart.linear busy) data data.length chip).1
      = (0, (List.range data.length).map fun i ↦ data.getD (512 * (s' - 1 - s) + i) 0) := by
  have hnext := firstFree_after busy h hsize h'
  have hblocks := sectorsOf_le hsize
  have hpos := sectorsOf_pos data.length
  rw [cc3dReadConfig_of_some _ _ _ h', if_neg (by omega)]
  refine congrArg (Prod.mk 0) (List.map_congr_left fun i _ ↦ ?_)
  have hindex : (s' - 1) * 512 + i - 512 * s = 512 * (s' - 1 - s) + i := by omega
  rw [cell_after busy hinv h hsize (by omega) (by omega), hindex]

/-- The second sector after a call on an erased flash: its bit belongs to the first byte of the
data. -/
theorem allocated_one_after (hinv : ErasedFrom chip.mem) (h : firstFree chip.mem = some 0)
    (hsize : data.length ≤ 65535) :
    Allocated (cc3dWriteConfig (FlashPart.linear busy) data data.length chip).1.mem 1 ↔
      (data.getD 0 0).getLsbD 1 = true ∨ 512 < data.length := by
  have herased : ¬Allocated chip.mem 1 := by
    rw [Allocated, hinv 0 h _ (by omega)]
    decide
  have hblocks : 1 < sectorsOf data.length ↔ 512 < data.length := by
    rw [sectorsOf]
    omega
  rw [allocated_cc3dWriteConfig busy h hsize, ← hblocks]
  simp [herased, DataBit]

/-- On an erased flash the data lies in the bitmap, and its first byte has got the mark. -/
theorem cc3dReadConfig_after_erased (hinv : ErasedFrom chip.mem)
    (h : firstFree chip.mem = some 0) (hsize : 1 ≤ data.length ∧ data.length ≤ 512)
    (h' : firstFree (cc3dWriteConfig (FlashPart.linear busy) data data.length chip).1.mem
      = some 1) :
    cc3dReadConfig (FlashPart.linear busy) data.length
        (cc3dWriteConfig (FlashPart.linear busy) data data.length chip).1 = (0, data) ↔
      (data.getD 0 0).getLsbD 0 = true := by
  have hle : data.length ≤ 65535 := by omega
  have hone := sectorsOf_of_le hsize.2
  have herased : ¬Allocated chip.mem 0 := by
    rw [Allocated, hinv 0 h _ (by omega)]
    decide
  set after := (cc3dWriteConfig (FlashPart.linear busy) data data.length chip).1
  have hmark : (~~~after.mem 0).getLsbD 0 = true := by
    rw [← allocated_cell 0 (by omega), allocated_cc3dWriteConfig busy h hle]
    exact Or.inr (Or.inr ⟨le_rfl, by omega⟩)
  have hother : ∀ a j, j < 8 → 0 < 8 * a + j →
      (~~~after.mem a).getLsbD j = (data.getD a 0).getLsbD j := by
    intro a j hj hpos
    have hfree : ¬Allocated chip.mem (8 * a + j) := by
      rw [allocated_cell a hj, hinv 0 h a (by omega)]
      simp
    rw [Bool.eq_iff_iff, ← allocated_cell a hj, allocated_cc3dWriteConfig busy h hle,
      dataBit_cell _ _ _ hj, hone]
    simp only [hfree, false_or, zero_mul, zero_le, true_and, Nat.sub_zero]
    constructor
    · rintro (hdata | hmark)
      · exact hdata
      · omega
    · exact Or.inl
  rw [cc3dReadConfig_of_some _ _ _ h', if_neg Nat.one_ne_zero]
  simp only [Nat.sub_self, zero_mul, Nat.zero_add, Prod.mk.injEq, true_and]
  constructor
  · intro hread
    have hget := congrArg (fun l ↦ (l.getD 0 0).getLsbD 0) hread
    have hlt : 0 < data.length := by omega
    rw [← hget]
    simpa [hlt] using hmark
  · intro hbit
    refine List.ext_getElem (by simp) fun a ha ha' ↦ ?_
    have hget : data.getD a 0 = data[a] := by
      rw [List.getD_eq_getElem?_getD, List.getElem?_eq_getElem ha', Option.getD_some]
    rw [List.getElem_map, List.getElem_range, ← hget]
    apply BitVec.eq_of_getLsbD_eq
    intro j hj
    rcases Nat.eq_zero_or_pos (8 * a + j) with hzero | hpos
    · obtain ⟨rfl, rfl⟩ : a = 0 ∧ j = 0 := by omega
      rw [hmark, hbit]
    · exact hother a j hj hpos

theorem and_three_eq_one_iff (b : BitVec 8) :
    b &&& 3 = 1 ↔ b.getLsbD 0 = true ∧ b.getLsbD 1 = false := by
  revert b
  decide

/-- All data zero leaves no bit behind. -/
theorem not_dataBit_of_zero (hzero : ∀ b ∈ data, b = 0) (addr t : ℕ) : ¬DataBit data addr t := by
  rintro ⟨-, hbit⟩
  rw [List.getD_eq_getElem?_getD] at hbit
  rcases hget : data[t / 8 - addr]? with _ | b
  · simp [hget] at hbit
  · simp [hget, hzero b (List.mem_of_getElem? hget)] at hbit

/-- If the call has used up the last free sector, its data cannot be found. -/
theorem not_readable_of_full (hinv : ErasedFrom chip.mem) (hsize : data.length ≤ 65535)
    (h' : firstFree (cc3dWriteConfig (FlashPart.linear busy) data data.length chip).1.mem = none) :
    ¬Readable chip.mem data := by
  rintro ⟨s, h, hread⟩
  have hblocks := sectorsOf_le hsize
  rcases s with _ | s
  · rw [ReadableFrom] at hread
    have hone := (allocated_one_after busy hinv h hsize).mp (firstFree_eq_none h' (by omega))
    split_ifs at hread with hshort
    · rw [and_three_eq_one_iff] at hread
      rcases hone with hone | hlong
      · exact Bool.false_ne_true (hread.2.symm.trans hone)
      · omega
    · have hused := firstFree_eq_none h' (by omega : sectorsOf data.length < 4096)
      rcases (allocated_cc3dWriteConfig busy h hsize _).mp hused with hold | hdata | hmark
      · rw [Allocated, hinv 0 h _ (Nat.zero_le _)] at hold
        simp at hold
      · exact not_dataBit_of_zero hread _ _ hdata
      · omega
  · rw [ReadableFrom] at hread
    have hbehind : ∀ t < 4096, s + 1 + sectorsOf data.length ≤ t → Allocated chip.mem t := by
      intro t ht hafter
      rcases (allocated_cc3dWriteConfig busy h hsize t).mp (firstFree_eq_none h' ht) with
        hold | hdata | hmark
      · exact hold
      · have := dataBit_range hdata
        omega
      · omega
    rcases hread with ⟨hshort, hlt, hfree⟩ | ⟨-, t, ht, hafter, hfree⟩
    · have hone := sectorsOf_of_le hshort
      exact hfree (hbehind _ hlt (by omega))
    · exact hfree (hbehind t ht hafter)

/-- If the reader looks at the first sector of the data, and at no sector of the bitmap, the data
was readable. -/
theorem readable_of_adjacent (h : firstFree chip.mem = some (s + 1))
    (hsize : data.length ≤ 65535)
    (h' : firstFree (cc3dWriteConfig (FlashPart.linear busy) data data.length chip).1.mem
      = some (s + 2)) : Readable chip.mem data := by
  have hnext := firstFree_after busy h hsize h'
  obtain ⟨hlt, hfree, -⟩ := firstFree_eq_some h'
  have hshort : data.length ≤ 512 := by
    rw [sectorsOf] at hnext
    omega
  rw [readable_of_some h, ReadableFrom]
  refine Or.inl ⟨hshort, hlt, fun hold ↦ hfree ?_⟩
  exact (allocated_cc3dWriteConfig busy h hsize _).mpr (Or.inl hold)

/-- If the reader looks further on, the data has to be zero. -/
theorem readable_iff_of_gap (hinv : ErasedFrom chip.mem) (h : firstFree chip.mem = some s)
    (hsize : data.length ≤ 65535)
    (h' : firstFree (cc3dWriteConfig (FlashPart.linear busy) data data.length chip).1.mem = some s')
    (hgap : s + 2 ≤ s') : Readable chip.mem data ↔ ∀ b ∈ data, b = 0 := by
  have halloc := allocated_cc3dWriteConfig busy h hsize
  obtain ⟨hs', hfree', hbefore'⟩ := firstFree_eq_some h'
  rw [readable_of_some h]
  rcases s with _ | s
  · rw [ReadableFrom]
    have hone := (allocated_one_after busy hinv h hsize).mp (hbefore' 1 (by omega))
    split_ifs with hshort
    · have hbit := hone.resolve_right (by omega)
      rw [and_three_eq_one_iff]
      refine iff_of_false (fun hlow ↦ ?_) fun hzero ↦ ?_
      · exact Bool.false_ne_true (hlow.2.symm.trans hbit)
      · refine not_dataBit_of_zero hzero 0 (8 * 0 + 1) ?_
        exact (dataBit_cell _ _ _ (by omega)).mpr ⟨le_rfl, hbit⟩
    · exact Iff.rfl
  · rw [ReadableFrom]
    constructor
    · rintro (⟨hshort, -, hfree⟩ | ⟨hzero, -⟩)
      · have hone := sectorsOf_of_le hshort
        rcases (halloc (s + 2)).mp (hbefore' _ (by omega)) with hold | hdata | hmark
        · exact absurd hold hfree
        · have := dataBit_range hdata
          omega
        · omega
      · exact hzero
    · intro hzero
      refine Or.inr ⟨hzero, s', hs', firstFree_after busy h hsize h', fun hold ↦ hfree' ?_⟩
      exact (halloc s').mpr (Or.inl hold)

/-- One call, and the condition under which the reader finds its data. -/
theorem cc3dReadConfig_write_iff (hinv : ErasedFrom chip.mem)
    (hsize : 1 ≤ data.length ∧ data.length ≤ 65535) (h : firstFree chip.mem = some s) :
    cc3dReadConfig (FlashPart.linear busy) data.length
        (cc3dWriteConfig (FlashPart.linear busy) data data.length chip).1 = (0, data) ↔
      Readable chip.mem data := by
  rcases h' : firstFree (cc3dWriteConfig (FlashPart.linear busy) data data.length chip).1.mem
    with _ | s'
  · rw [cc3dReadConfig_of_none _ _ _ h']
    exact iff_of_false (by simp) (not_readable_of_full busy hinv hsize.2 h')
  have hnext := firstFree_after busy h hsize.2 h'
  have hpos := sectorsOf_pos data.length
  rcases Nat.lt_or_ge s' 2 with hlt | hbehind
  · -- the reader looks at sector 0, so the flash was erased
    obtain ⟨rfl, rfl⟩ : s = 0 ∧ s' = 1 := by omega
    have hone := mt (allocated_one_after busy hinv h hsize.2).mpr (firstFree_eq_some h').2.1
    push Not at hone
    rw [cc3dReadConfig_after_erased busy hinv h ⟨hsize.1, hone.2⟩ h', readable_of_some h,
      ReadableFrom, if_pos hone.2, and_three_eq_one_iff]
    simpa using fun _ ↦ hone.1
  · rw [cc3dReadConfig_after busy hinv h hsize.2 h' hbehind, Prod.mk.injEq, and_iff_right rfl]
    rcases Nat.eq_or_lt_of_le (by omega : s + 1 ≤ s') with rfl | hgap
    · obtain ⟨r, rfl⟩ : ∃ r, s = r + 1 := Nat.exists_eq_add_of_le' (by omega)
      refine iff_of_true ?_ (readable_of_adjacent busy h hsize.2 h')
      refine List.ext_getElem (by simp) fun i hi hi' ↦ ?_
      simp [hi']
    · rw [shifted_eq_iff data (by omega), readable_iff_of_gap busy hinv h hsize.2 h' hgap]

end ReadBack

/-! ## Histories -/

theorem erasedFrom_of_erased {mem : ℕ → BitVec 8} (h : ∀ a, mem a = 0xff) : ErasedFrom mem :=
  fun _ _ a _ ↦ h a

/-- A history of calls keeps the invariant. -/
theorem erasedFrom_writeAll (configs : List (List (BitVec 8))) :
    ∀ {chip after : M25p16}, (∀ c ∈ configs, c.length ≤ 65535) → ErasedFrom chip.mem →
      writeAll busy chip configs = some after → ErasedFrom after.mem := by
  induction configs with
  | nil =>
    intro chip after _ hinv h
    rwa [← Option.some.inj h]
  | cons data configs ih =>
    intro chip after hsizes hinv h
    rw [List.forall_mem_cons] at hsizes
    rw [writeAll] at h
    split_ifs at h
    exact ih hsizes.2 (erasedFrom_cc3dWriteConfig busy hinv hsizes.1) h

/-- **Reading the last configuration back.** After a history of successful calls on an erased flash,
the reader returns the last configuration exactly when the flash before the last call and the data
meet `Readable`. -/
theorem cc3dReadConfig_last_iff {chip before after : M25p16} {configs : List (List (BitVec 8))}
    {data : List (BitVec 8)} (herased : ∀ a, chip.mem a = 0xff)
    (hsizes : ∀ c ∈ configs, c.length ≤ 65535) (hbefore : writeAll busy chip configs = some before)
    (hsize : 1 ≤ data.length ∧ data.length ≤ 65535)
    (hafter : cc3dWriteConfig (FlashPart.linear busy) data data.length before = (after, 0)) :
    cc3dReadConfig (FlashPart.linear busy) data.length after = (0, data) ↔
      Readable before.mem data := by
  have hinv := erasedFrom_writeAll busy configs hsizes (erasedFrom_of_erased herased) hbefore
  rcases h : firstFree before.mem with _ | s
  · rw [cc3dWriteConfig_of_none _ data _ before h] at hafter
    simp at hafter
  · have hwrite := cc3dReadConfig_write_iff busy hinv hsize h
    rwa [hafter] at hwrite

/-- A first configuration whose first byte keeps the mark and leaves sector 1 free. -/
theorem cc3dReadConfig_last_five :
    let r := cc3dWriteConfig (FlashPart.linear fun _ ↦ 0) [0x05] 1 erasedFlash
    cc3dReadConfig (FlashPart.linear fun _ ↦ 0) 1 r.1 = (0, [0x05]) := by
  intro r
  have herased : ∀ a, erasedFlash.mem a = 0xff := fun _ ↦ rfl
  have hscan : firstFree erasedFlash.mem = some 0 := firstFree_erased herased
  have hret : r = (r.1, 0) := by
    rw [show r = _ from cc3dWriteConfig_of_some _ _ _ _ hscan]
  have hsize : 1 ≤ [(0x05 : BitVec 8)].length ∧ [(0x05 : BitVec 8)].length ≤ 65535 := by decide
  have hsizes : ∀ c ∈ ([] : List (List (BitVec 8))), c.length ≤ 65535 := by simp
  refine (cc3dReadConfig_last_iff (fun _ ↦ 0) herased hsizes rfl hsize hret).mpr ?_
  rw [readable_of_some hscan, ReadableFrom]
  decide

/-- On an erased flash a configuration goes over the bitmap. `0x0a` marks sector 1 there, and the
reader finds the erased byte of that sector. -/
theorem cc3dReadConfig_erased_ne :
    let r := cc3dWriteConfig (FlashPart.linear fun _ ↦ 0) [0x0a] 1 erasedFlash
    r.2 = 0 ∧ cc3dReadConfig (FlashPart.linear fun _ ↦ 0) 1 r.1 ≠ (0, [0x0a]) := by
  have hscan : firstFree erasedFlash.mem = some 0 := firstFree_erased fun _ ↦ rfl
  refine ⟨?_, fun hread ↦ ?_⟩
  · rw [cc3dWriteConfig_of_some _ _ _ _ hscan]
  · have hinv : ErasedFrom erasedFlash.mem := erasedFrom_of_erased fun _ ↦ rfl
    have hsize : 1 ≤ [(0x0a : BitVec 8)].length ∧ [(0x0a : BitVec 8)].length ≤ 65535 := by decide
    have hreadable := (cc3dReadConfig_write_iff _ hinv hsize hscan).mp hread
    rw [readable_of_some hscan, ReadableFrom] at hreadable
    exact absurd hreadable (by decide)

end Martink
