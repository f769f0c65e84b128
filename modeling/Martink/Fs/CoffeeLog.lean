import Martink.Base.Word
import Martink.Fs.CfsCoffee

/-!
# Micro logs

A file that is written to again is not changed. `cfs-coffee.c` puts the new data in the records of a
log, each for one region of the file, and a table at the beginning of the log says which. The last
record of a region is the one that counts: `lookup` finds it, and so does the code, which searches
the table in batches and backwards.
-/

namespace Martink

namespace Coffee

def logTableLimit : ℕ := 16

/-! ## The table -/

/-- The inner loop of `get_record_index`, over the first entries of a batch at `base`. -/
def batchMatch (mem : Memory) (base region : ℕ) : ℕ → Option ℕ
  | 0 => none
  | i + 1 =>
    if ((word16 mem (base + 2 * i)).toNat : ℤ) - 1 = region then some i
      else batchMatch mem base region i

/-- The outer loop, with at most `n` turns. The last argument is `match_index`. -/
def recordIndexLoop (mem : Memory) (searchRecords region : ℕ) : ℕ → ℕ → ℕ → ℕ → ℤ → ℤ
  | 0, _, _, _, matchIndex => matchIndex
  | n + 1, base, processed, batchSize, matchIndex =>
    if processed < searchRecords ∧ matchIndex < 0 then
      let batchSize := if searchRecords < batchSize + processed then searchRecords - processed
      else batchSize
      let base := base - 2 * batchSize
      let matchIndex :=
        match batchMatch mem base region batchSize with
        | some i => s16 (searchRecords - processed - (batchSize - i))
        | none => matchIndex
      recordIndexLoop mem searchRecords region n base (processed + batchSize) batchSize matchIndex
    else matchIndex

def getRecordIndex (mem : Memory) (logPage searchRecords region : ℕ) : ℤ :=
  recordIndexLoop mem searchRecords region searchRecords
    (absoluteOffset logPage (2 * searchRecords)) 0
    (if logTableLimit < searchRecords then logTableLimit else searchRecords) (-1)

/-- The first entry of a batch that is zero, or the size of the batch. -/
def batchFree (mem : Memory) (base processed batchSize : ℕ) : ℕ :=
  match (List.range batchSize).find? fun i ↦ word16 mem (base + 2 * i) = 0 with
  | some i => i + processed
  | none => batchSize

/-- The loop of `find_next_record`, with at most `n` turns. A batch in which an entry is free does
not end it. -/
def nextRecordLoop (mem : Memory) (logPage logRecords preferred : ℕ) : ℕ → ℕ → ℕ → ℕ
  | 0, _, logRecord => logRecord
  | n + 1, processed, logRecord =>
    if processed < logRecords then
      let batchSize := if preferred ≤ logRecords - processed then preferred
          else logRecords - processed
      nextRecordLoop mem logPage logRecords preferred n (processed + batchSize)
        (batchFree mem (absoluteOffset logPage (2 * processed)) processed batchSize)
    else logRecord

/-- `find_next_record`; the record count of the file is negative when it is not known. -/
def findNextRecord (mem : Memory) (recordCount : ℤ) (logPage logRecords : ℕ) : ℕ :=
  if 0 ≤ recordCount then recordCount.toNat
  else nextRecordLoop mem logPage logRecords
    (if logTableLimit < logRecords then logTableLimit else logRecords)
    logRecords 0 logRecords

/-- An entry of the table. -/
def indexAt (mem : Memory) (logPage j : ℕ) : ℕ :=
  (word16 mem (absoluteOffset logPage (2 * j))).toNat

/-- The last of the first `k` records that is for a region. -/
def lookup (mem : Memory) (logPage region : ℕ) : ℕ → Option ℕ
  | 0 => none
  | k + 1 => if indexAt mem logPage k = region + 1 then some k else lookup mem logPage region k

section Table

variable {mem : Memory} {logPage region k n : ℕ}

theorem lookup_eq_some {j : ℕ} (h : lookup mem logPage region k = some j) :
    j < k ∧ indexAt mem logPage j = region + 1 := by
  induction k with
  | zero => exact absurd h (by simp [lookup])
  | succ k ih =>
    rw [lookup] at h
    split_ifs at h with hk
    · obtain rfl := Option.some.inj h
      exact ⟨Nat.lt_succ_self _, hk⟩
    · exact ⟨(ih h).1.trans (Nat.lt_succ_self k), (ih h).2⟩

theorem lookup_congr {mem' : Memory} {logPage' : ℕ}
    (h : ∀ j < k, indexAt mem logPage j = indexAt mem' logPage' j) :
    lookup mem logPage region k = lookup mem' logPage' region k := by
  induction k with
  | zero => rfl
  | succ k ih => rw [lookup, lookup, h k (Nat.lt_succ_self k), ih fun j hj ↦
    h j (hj.trans (Nat.lt_succ_self k))]

theorem batchMatch_lt {base b i : ℕ} (h : batchMatch mem base region b = some i) : i < b := by
  induction b with
  | zero => exact absurd h (by simp [batchMatch])
  | succ b ih =>
    rw [batchMatch] at h
    split_ifs at h
    · exact (Option.some.inj h) ▸ Nat.lt_succ_self b
    · exact (ih h).trans (Nat.lt_succ_self b)

/-- One batch of the search. -/
theorem lookup_batch (lo i : ℕ) : lookup mem logPage region (lo + i)
    = match batchMatch mem (absoluteOffset logPage (2 * lo)) region i with
      | some i => some (lo + i)
      | none => lookup mem logPage region lo := by
  induction i with
  | zero => rfl
  | succ i ih =>
    have hentry : (((word16 mem (absoluteOffset logPage (2 * lo) + 2 * i)).toNat : ℤ) - 1
        = region) ↔
        indexAt mem logPage (lo + i) = region + 1 := by
      rw [indexAt, absoluteOffset, absoluteOffset, Nat.mul_add, ← Nat.add_assoc]
      omega
    rw [← Nat.add_assoc, lookup, batchMatch, ih]
    simp only [hentry]
    split_ifs <;> rfl

theorem recordIndexLoop_of_nonneg {search n base processed batchSize : ℕ} {matchIndex : ℤ}
    (h : 0 ≤ matchIndex) :
    recordIndexLoop mem search region n base processed batchSize matchIndex = matchIndex := by
  cases n with
  | zero => rfl
  | succ n => rw [recordIndexLoop, if_neg fun hmore ↦ absurd hmore.2 (not_lt.mpr h)]

/-- The index of a record as `get_record_index` returns it. -/
def indexOf : Option ℕ → ℤ
  | none => -1
  | some j => j

theorem recordIndexLoop_eq {search : ℕ} (hsearch : search ≤ 32768) : ∀ {n processed batchSize : ℕ},
    processed ≤ search → search ≤ processed + n → 0 < batchSize ∨ search = 0 →
    recordIndexLoop mem search region n
      (absoluteOffset logPage (2 * (search - processed))) processed
    batchSize (-1)
      = indexOf (lookup mem logPage region (search - processed)) := by
  intro n
  induction n with
  | zero =>
    intro processed batchSize hle hn hbatch
    rw [show search - processed = 0 by omega]
    rfl
  | succ n ih =>
    intro processed batchSize hle hn hbatch
    rw [recordIndexLoop]
    by_cases hmore : processed < search
    · rw [if_pos ⟨hmore, by decide⟩]
      dsimp only
      generalize hb : (if search < batchSize + processed then search - processed else batchSize) = b
      have hbpos : 0 < b ∧ b ≤ search - processed := by
        rw [← hb]
        split_ifs <;> omega
      have hsplit : search - processed = (search - (processed + b)) + b := by omega
      have hbase : absoluteOffset logPage (2 * (search - processed)) - 2 * b
          = absoluteOffset logPage (2 * (search - (processed + b))) := by
        simp only [absoluteOffset]
        omega
      rw [hbase, hsplit, lookup_batch]
      rcases hmatch : batchMatch mem
          (absoluteOffset logPage (2 * (search - (processed + b)))) region b
        with _ | i
      · exact ih (by omega) (by omega) (Or.inl hbpos.1)
      · have hi := batchMatch_lt hmatch
        have hindex : s16 ((search : ℤ) - processed - (b - i))
          = ((search - (processed + b) + i : ℕ) : ℤ) := by
          rw [s16_of_range (by omega) (by omega)]
          omega
        dsimp only
        rw [hindex, recordIndexLoop_of_nonneg (Int.natCast_nonneg _)]
        rfl
    · rw [if_neg fun h ↦ hmore h.1, show search - processed = 0 by omega]
      rfl

/-- **The search finds the last record of a region.** -/
theorem getRecordIndex_eq {search : ℕ} (hsearch : search ≤ 32768) :
    getRecordIndex mem logPage search region = indexOf (lookup mem logPage region search) := by
  refine recordIndexLoop_eq hsearch (Nat.zero_le _) (Nat.le_add_left _ _) ?_
  split_ifs with h
  · exact Or.inl (by decide)
  · omega

theorem batchFree_eq {processed b : ℕ} (hused : ∀ j < k, indexAt mem logPage j ≠ 0)
    (hfree : ∀ j, k ≤ j → j < processed + b → indexAt mem logPage j = 0) :
    batchFree mem (absoluteOffset logPage (2 * processed)) processed b
      = if k < processed + b ∧ 0 < b then max k processed else b := by
  have hentry : ∀ i, word16 mem (absoluteOffset logPage (2 * processed) + 2 * i) = 0 ↔
      indexAt mem logPage (processed + i) = 0 := by
    intro i
    rw [indexAt, absoluteOffset, absoluteOffset, Nat.mul_add, ← Nat.add_assoc]
    exact BitVec.toNat_eq.trans (by simp)
  rw [batchFree]
  simp only [hentry]
  rcases hfind : (List.range b).find? (fun i ↦ decide (indexAt mem logPage (processed + i) = 0))
    with _ | i
  · rw [List.find?_eq_none] at hfind
    refine (if_neg fun h ↦ ?_).symm
    refine hfind (max k processed - processed) (List.mem_range.mpr (by omega)) (decide_eq_true ?_)
    exact hfree _ (by omega) (by omega)
  · rw [List.find?_range_eq_some] at hfind
    obtain ⟨hzero, hi, hbefore⟩ := hfind
    have hik : k ≤ processed + i := by
      by_contra hlt
      exact hused _ (by omega) (of_decide_eq_true hzero)
    have hi := List.mem_range.mp hi
    rw [if_pos ⟨by omega, by omega⟩]
    dsimp only
    by_contra hne
    have hnot := hbefore (max k processed - processed) (by omega)
    exact absurd (hfree (processed + (max k processed - processed)) (by omega) (by omega))
      (by simpa using hnot)

theorem nextRecordLoop_eq {p : ℕ} (hp : 0 < p) (hused : ∀ j < k, indexAt mem logPage j ≠ 0)
    (hfree : ∀ j, k ≤ j → j < n → indexAt mem logPage j = 0) : ∀ {turns processed logRecord : ℕ},
    processed < n → n ≤ processed + turns → nextRecordLoop mem logPage n p turns processed logRecord
      = if k < n then max k (processed + (n - processed - 1) / p * p)
      else n - (processed + (n - processed - 1) / p * p)
    := by
  intro turns
  induction turns with
  | zero => intro processed logRecord hlt hn; omega
  | succ turns ih =>
    intro processed logRecord hlt hn
    rw [nextRecordLoop, if_pos hlt]
    dsimp only
    by_cases hlast : p < n - processed
    · rw [if_pos hlast.le, ih (by omega) (by omega)]
      have hdiv : (n - processed - 1) / p * p = p + (n - (processed + p) - 1) / p * p := by
        rw [show n - processed - 1 = n - (processed + p) - 1 + p by omega, Nat.add_div_right _ hp,
          Nat.succ_mul]
        omega
      rw [hdiv, Nat.add_assoc]
    · have hb : (if p ≤ n - processed then p else n - processed)
        = n - processed := by split_ifs <;> omega
      have hzero : (n - processed - 1) / p = 0 := Nat.div_eq_of_lt (by omega)
      rw [hb, show processed + (n - processed) = n by omega,
        batchFree_eq hused fun j hj hjn ↦ hfree j hj (by omega), hzero]
      have hdone : ∀ r, nextRecordLoop mem logPage n p turns n r = r := by
        intro r
        cases turns with
        | zero => rfl
        | succ turns => rw [nextRecordLoop, if_neg (lt_irrefl n)]
      rw [hdone, Nat.zero_mul, Nat.add_zero]
      simp only [show processed + (n - processed) = n by omega,
        show 0 < n - processed by omega, and_true]

/-- **The next record, when the count is not known.** In a table of one batch it is the first that
is free. In a longer one only the last batch counts, and a table that is full has room. -/
theorem findNextRecord_eq {recordCount : ℤ} (hcount : recordCount < 0) (hk : k ≤ n)
    (hused : ∀ j < k, indexAt mem logPage j ≠ 0)
    (hfree : ∀ j, k ≤ j → j < n → indexAt mem logPage j = 0) :
    findNextRecord mem recordCount logPage n = if n ≤ logTableLimit then k
      else if k < n then max k ((n - 1) / logTableLimit * logTableLimit)
      else n - (n - 1) / logTableLimit * logTableLimit := by
  rw [findNextRecord, if_neg (not_le.mpr hcount)]
  rcases Nat.eq_zero_or_pos n with rfl | hn
  · rw [Nat.le_zero.mp hk]
    rfl
  by_cases hone : n ≤ logTableLimit
  · rw [if_neg (not_lt.mpr hone), if_pos hone, nextRecordLoop_eq hn hused hfree hn (by omega),
      Nat.div_eq_of_lt (by omega)]
    split_ifs <;> omega
  · rw [if_pos (not_le.mp hone), if_neg hone,
      nextRecordLoop_eq (by decide) hused hfree hn (by omega), Nat.zero_add, Nat.sub_zero]

theorem findNextRecord_zero : findNextRecord (fun _ ↦ 0) (-1) 0 17 = 16 :=
  findNextRecord_eq (by decide) (Nat.zero_le _)
    (fun _ h ↦ absurd h (Nat.not_lt_zero _)) fun _ _ _ ↦ by
    simp [indexAt, word16]

end Table

end Coffee

end Martink
