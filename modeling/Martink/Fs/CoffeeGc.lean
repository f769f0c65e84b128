import Martink.Fs.CoffeeTiles

/-!
# What the garbage collector sees

`get_sector_status` counts the pages of one sector, and it remembers by how many pages the last file
of the sector goes on into the next ones. Called for one sector after the other, it counts what is
there: `covered` says how many pages of a sector lie in tiles of a kind.
-/

namespace Martink

namespace Coffee

namespace Tile

def isActive : Tile → Bool
  | file hdr => hdr.active
  | _ => false

/-- What the collector may erase: pages of removed files, and isolated pages. -/
def isObsolete : Tile → Bool
  | file hdr => !hdr.active
  | isolated => true
  | free _ => false

end Tile

/-- `get_sector_status` for one sector after the other. -/
def statusAt (mem : Memory) : ℕ → ℕ × SectorStatus × Skip
  | 0 => getSectorStatus mem 0 ⟨0, false⟩
  | k + 1 => getSectorStatus mem (k + 1) (statusAt mem k).2.2

section Status

variable {mem : Memory} {ts : List Tile} {a b n p : ℕ}

/-- The pages of a kind in a sector that begins at page `a`. -/
abbrev count (P : Tile → Bool) (a : ℕ) (p : ℕ) (ts : List Tile) : ℕ :=
  covered Tile.pages P a (a + pagesPerSector) p ts

/-- The counters, when the tiles up to page `p` are counted. What is too much has been counted with
the last tile. -/
structure Counted (a p : ℕ) (done : List Tile) (st : SectorStatus) (last : Bool) : Prop where
  /-- The active pages. -/
  active : st.active = count Tile.isActive a 0 done + if last then p - (a + pagesPerSector) else 0
  /-- The obsolete pages. -/
  obsolete : st.obsolete = count Tile.isObsolete a 0 done + if last then 0
    else p - (a + pagesPerSector)
  /-- The free pages. -/
  free : st.free = count Tile.isFree a 0 done
  /-- All pages have been counted. -/
  total : st.active + st.obsolete + st.free = p - a

/-- The tile that goes on behind page `b`, if one does. -/
def Crosses (b p : ℕ) (done : List Tile) (last : Bool) : Prop :=
  p = b ∨ ∃ pre t, done = pre ++ [t] ∧ (pre.map Tile.pages).sum < b ∧ t.isFree = false ∧
    t.isActive = last

theorem kind_cases (t : Tile) : (t.isActive, t.isObsolete, t.isFree) ∈
    [(true, false, false), (false, true, false), (false, false, true)] := by
  cases t with
  | free n => simp [Tile.isActive, Tile.isObsolete, Tile.isFree]
  | isolated => simp [Tile.isActive, Tile.isObsolete, Tile.isFree]
  | file hdr => cases h : hdr.active <;> simp [Tile.isActive, Tile.isObsolete, Tile.isFree, h]

/-- A tile is counted in one of the counters. -/
theorem statusLoop_tile {t : Tile} {st : SectorStatus} {last : Bool} (ht : IsTile mem p t)
    (hlt : p < b) :
    statusLoop mem b (n + 1) p st last =
      if t.isActive then
        statusLoop mem b n (p + t.pages) { st with active := st.active + t.pages } true
      else if t.isObsolete then
        statusLoop mem b n (p + t.pages) { st with obsolete := st.obsolete + t.pages } false
      else ({ st with free := b - p }, false) := by
  rw [statusLoop, if_pos hlt]
  cases t with
  | free k =>
    rw [readHeader_clean ht.2.2 ht.1]
    rfl
  | isolated =>
    have hactive : (readHeader mem p).active = false := by simp [FileHeader.active, ht.2]
    simp [hactive, ht.2, Tile.isActive, Tile.isObsolete, Tile.pages]
  | file hdr =>
    obtain ⟨hhdr, halloc, hiso, -⟩ := ht
    by_cases hactive : hdr.active = true
    · simp [hhdr, hactive, Tile.isActive, Tile.pages]
    · have hobsolete : hdr.obsolete = true := by simpa
        [FileHeader.active, halloc, hiso] using hactive
      simp [hhdr, hactive, hiso, hobsolete, Tile.isActive, Tile.isObsolete, Tile.pages]

theorem statusLoop_done (h : b ≤ p) (st : SectorStatus) (last : Bool) :
    statusLoop mem b n p st last = (st, last) := by
  rcases n with _ | n
  · rfl
  · exact if_neg (not_lt.mpr h)

/-- A tile that begins in the sector adds to the count of its kind. -/
theorem count_concat {P : Tile → Bool} {t : Tile} {done : List Tile}
    (hp : p = (done.map Tile.pages).sum)
    (ha : a ≤ p) : count P a 0 (done ++ [t])
      = count P a 0 done + if P t then min (p + t.pages) (a + pagesPerSector) - p else 0 := by
  rw [count, covered_append, covered_singleton, Nat.zero_add, ← hp, max_eq_left ha]

theorem sum_concat {t : Tile} {done : List Tile} (hp : p = (done.map Tile.pages).sum) :
    p + t.pages = ((done ++ [t]).map Tile.pages).sum := by
  rw [List.map_append, List.sum_append, ← hp]
  rfl

/-- **The loop of `get_sector_status`** counts the tiles that begin in the sector. -/
theorem statusLoop_counted (rest : List Tile) :
    ∀ {n p : ℕ} {done : List Tile} {st : SectorStatus} {last : Bool},
    ts = done ++ rest → p = (done.map Tile.pages).sum → Row mem p rest pageCount → a ≤ p →
    a % pagesPerSector = 0 → a + pagesPerSector ≤ pageCount →
      a + pagesPerSector ≤ p + n → st.free = 0 →
    Counted a p done st last → (a + pagesPerSector ≤ p → Crosses (a + pagesPerSector) p done last) →
    ∃ q done' rest', ts = done' ++ rest' ∧ q = (done'.map Tile.pages).sum ∧
      Row mem q rest' pageCount ∧
      a + pagesPerSector ≤ q ∧ Counted a q done' (statusLoop mem (a + pagesPerSector) n p st last).1
        (statusLoop mem (a + pagesPerSector) n p st last).2 ∧
      Crosses (a + pagesPerSector) q done' (statusLoop mem (a + pagesPerSector) n p st last).2 ∧
      ((statusLoop mem (a + pagesPerSector) n p st last).1.free = 0 ∨ q = a + pagesPerSector) := by
  induction rest with
  | nil =>
    rintro n p done st last hts hp rfl ha hmod hend hn hfree hcounted hcross
    rw [statusLoop_done hend]
    exact ⟨_, done, [], hts, hp, rfl, hend, hcounted, hcross hend, Or.inl hfree⟩
  | cons t rest ih =>
    rintro n p done st last hts hp ⟨ht, hrow⟩ ha hmod hend hn hfree hcounted hcross
    rcases lt_or_ge p (a + pagesPerSector) with hlt | hge
    · obtain ⟨n, rfl⟩ : ∃ k, n = k + 1 := ⟨n - 1, by omega⟩
      have hpages := ht.pages_pos
      have hts' : ts = (done ++ [t]) ++ rest := by rw [hts, List.append_assoc]; rfl
      have hp' := sum_concat (t := t) hp
      have hcount := fun P ↦ count_concat (P := P) (t := t) hp ha
      obtain ⟨hactive, hobsolete, hfreed, htotal⟩ := hcounted
      -- nothing is too much so far
      have hover : p - (a + pagesPerSector) = 0 := by omega
      simp only [hover, ite_self, Nat.add_zero] at hactive hobsolete
      rw [statusLoop_tile ht hlt]
      have hkind := kind_cases t
      simp only [List.mem_cons, Prod.mk.injEq, List.not_mem_nil, or_false] at hkind
      rcases hkind with ⟨ha', ho', hf'⟩ | ⟨ha', ho', hf'⟩ | ⟨ha', ho', hf'⟩
      · rw [ha', if_pos rfl]
        refine ih hts' hp' hrow (by omega) hmod hend (by omega) hfree ⟨?_, ?_, ?_, ?_⟩
          fun _ ↦ Or.inr ⟨done, t, rfl, hp ▸ hlt, hf', ha'⟩
        all_goals simp only [hcount, ha', ho', hf', if_true, Bool.false_eq_true, if_false]
        all_goals omega
      · rw [ha', ho', if_neg Bool.false_ne_true, if_pos rfl]
        refine ih hts' hp' hrow (by omega) hmod hend (by omega) hfree ⟨?_, ?_, ?_, ?_⟩
          fun _ ↦ Or.inr ⟨done, t, rfl, hp ▸ hlt, hf', ha'⟩
        all_goals simp only [hcount, ha', ho', hf', if_true, Bool.false_eq_true, if_false]
        all_goals omega
      · rw [ha', ho', if_neg Bool.false_ne_true, if_neg Bool.false_ne_true]
        have hsector : p + t.pages = a + pagesPerSector := by
          cases t with
          | isolated | file => exact absurd hf' (by simp [Tile.isFree])
          | free k =>
            rw [Tile.pages, ht.2.1]
            simp only [sectorEnd, pagesPerSector] at *
            omega
        refine ⟨p + t.pages, done ++ [t], rest, hts', hp', hrow, hsector.ge, ⟨?_, ?_, ?_, ?_⟩,
          Or.inl hsector, Or.inr hsector⟩
        all_goals simp only [hcount, ha', ho', hf', if_true, Bool.false_eq_true, if_false]
        all_goals omega
    · rw [statusLoop_done hge]
      exact ⟨p, done, t :: rest, hts, hp, ⟨ht, hrow⟩, hge, hcounted, hcross hge, Or.inl hfree⟩

/-- What is known before the status of sector `k`: the last tile that has been counted, and by how
much it goes on. -/
structure Before (mem : Memory) (ts : List Tile) (k : ℕ) (skip : Skip) : Prop where
  /-- The tiles that have been counted end where the count goes on, and the rest is a row from
  there. -/
  split : ∃ done rest, ts = done ++ rest ∧
    k * pagesPerSector + skip.pages = (done.map Tile.pages).sum ∧
    Row mem (k * pagesPerSector + skip.pages) rest pageCount ∧
    Crosses (k * pagesPerSector) (k * pagesPerSector + skip.pages) done skip.active

/-- The status of a sector is what is there. -/
def Exact (ts : List Tile) (a : ℕ) (st : SectorStatus) : Prop :=
  st.active = count Tile.isActive a 0 ts ∧ st.obsolete = count Tile.isObsolete a 0 ts ∧
    st.free = count Tile.isFree a 0 ts

/-- The pages of a tile that goes on over the beginning of a sector. -/
theorem count_crossing {pre : List Tile} {t : Tile} (hpre : (pre.map Tile.pages).sum < a)
    (hp : p = ((pre ++ [t]).map Tile.pages).sum) (P : Tile → Bool) :
    count P a 0 (pre ++ [t]) = if P t then min p (a + pagesPerSector) - a else 0 := by
  have hsum : (pre.map Tile.pages).sum + t.pages = ((pre ++ [t]).map Tile.pages).sum :=
    sum_concat rfl
  rw [count, covered_append, covered_before pre (by omega), Nat.zero_add,
    covered_singleton, Nat.zero_add, max_eq_right hpre.le, hsum, ← hp]

theorem count_append_behind {done rest : List Tile}
    (hp : a + pagesPerSector ≤ (done.map Tile.pages).sum)
    (P : Tile → Bool) : count P a 0 (done ++ rest) = count P a 0 done := by
  rw [count, covered_append, covered_behind rest (by omega), Nat.add_zero]

theorem sector_facts {k : ℕ} (hk : k < sectorCount) :
    (k + 1) * pagesPerSector = k * pagesPerSector + pagesPerSector ∧
      k * pagesPerSector + pagesPerSector ≤ pageCount ∧
        k * pagesPerSector % pagesPerSector = 0 := by
  simp only [sectorCount, pagesPerSector, pageCount] at *
  omega

/-- A sector that lies in one tile. -/
theorem getSectorStatus_whole {k : ℕ} {skip : Skip} (hk : k < sectorCount)
    (h : Before mem ts k skip)
    (hzero : k = 0 → skip = ⟨0, false⟩) (hwhole : pagesPerSector ≤ skip.pages) :
    Exact ts (k * pagesPerSector) (getSectorStatus mem k skip).2.1 ∧
      Before mem ts (k + 1) (getSectorStatus mem k skip).2.2 := by
  obtain ⟨done, rest, hts, hp, hrow, hcross⟩ := h.split
  obtain ⟨hnext, hend, hmod⟩ := sector_facts hk
  have hskip : (if k = 0 then ⟨0, false⟩ else skip) = skip := ite_eq_right_iff.mpr fun hk0 ↦
    (hzero hk0).symm
  obtain hsame | ⟨pre, t, rfl, hpre, hfree, hactive⟩ := hcross
  · exact absurd hsame (by simp only [pagesPerSector] at *; omega)
  have hcount : ∀ P : Tile → Bool, count P (k * pagesPerSector) 0 ts
      = if P t then pagesPerSector else 0 :=
    fun P ↦ by
      rw [hts, count_append_behind (by omega), count_crossing hpre hp, min_eq_right (by omega),
        Nat.add_sub_cancel_left]
  have hrest : k * pagesPerSector + skip.pages
    = (k + 1) * pagesPerSector + (skip.pages - pagesPerSector) := by
    omega
  have hbefore : Before mem ts (k + 1) ⟨skip.pages - pagesPerSector, skip.active⟩ :=
    ⟨pre ++ [t], rest, hts, hrest ▸ hp, hrest ▸ hrow,
      Or.inr ⟨pre, t, rfl, by omega, hfree, hactive⟩⟩
  have hkind := kind_cases t
  simp only [hactive, hfree, List.mem_cons, Prod.mk.injEq, List.not_mem_nil, or_false, and_true,
    and_false,
    Bool.false_eq_true] at hkind
  rw [getSectorStatus, hskip]
  simp only [if_pos hwhole, Exact, hcount, hactive, hfree]
  rcases hkind with ⟨hlast, hobs⟩ | ⟨hlast, hobs⟩ <;> rw [hlast] at hbefore <;>
    simp [hlast, hobs, hbefore]

/-- A sector in which a tile begins. -/
theorem getSectorStatus_part {k : ℕ} {skip : Skip} (hk : k < sectorCount) (h : Before mem ts k skip)
    (hzero : k = 0 → skip = ⟨0, false⟩) (hpart : skip.pages < pagesPerSector) :
    Exact ts (k * pagesPerSector) (getSectorStatus mem k skip).2.1 ∧
      Before mem ts (k + 1) (getSectorStatus mem k skip).2.2 := by
  obtain ⟨done, rest, hts, hp, hrow, hcross⟩ := h.split
  obtain ⟨hnext, hend, hmod⟩ := sector_facts hk
  have hskip : (if k = 0 then ⟨0, false⟩ else skip) = skip := ite_eq_right_iff.mpr fun hk0 ↦
    (hzero hk0).symm
  have hover : k * pagesPerSector + skip.pages - (k * pagesPerSector + pagesPerSector) = 0 := by
    omega
  -- what is left of the tile before is counted first
  have hcounted : Counted (k * pagesPerSector) (k * pagesPerSector + skip.pages) done
      (if skip.active then ⟨skip.pages, 0, 0⟩ else ⟨0, skip.pages, 0⟩) skip.active := by
    rcases hcross with hsame | ⟨pre, t, rfl, hpre, hfree, hactive⟩
    · have hnone : ∀ P : Tile → Bool, count P (k * pagesPerSector) 0 done = 0 := fun P ↦
        covered_before done (by omega)
      have hpages : skip.pages = 0 := by omega
      constructor <;> simp [hnone, hpages]
    · have hkind := kind_cases t
      simp only [hactive, hfree, List.mem_cons, Prod.mk.injEq, List.not_mem_nil, or_false, and_true,
        and_false,
        Bool.false_eq_true] at hkind
      have hcount := count_crossing hpre hp
      rw [min_eq_left (by omega), Nat.add_sub_cancel_left] at hcount
      rcases hkind with ⟨hlast, hobs⟩ | ⟨hlast, hobs⟩ <;> rw [hlast] at hactive <;>
        constructor <;> simp [hcount, hlast, hobs, hactive, hfree, hover]
  have hfree : (if skip.active then (⟨skip.pages, 0, 0⟩ : SectorStatus)
      else ⟨0, skip.pages, 0⟩).free
    = 0 := by
    split_ifs <;> rfl
  obtain ⟨q, done', rest', hts', hq, hrow', hge, ⟨hactive, hobsolete, hfreed, htotal⟩,
      hcross', hlast⟩ :=
    statusLoop_counted (n := pagesPerSector) rest hts hp hrow (Nat.le_add_right _ _) hmod hend
      (by omega) hfree
      hcounted fun h ↦ by omega
  have hcount : ∀ P : Tile → Bool, count P (k * pagesPerSector) 0 ts
    = count P (k * pagesPerSector) 0 done' :=
    fun P ↦ by rw [hts', count_append_behind (by omega)]
  rw [getSectorStatus, hskip]
  simp only [if_neg (not_le.mpr hpart), Exact, hcount]
  generalize statusLoop mem _ _ _ _ _ = r at *
  have hexcess : r.1.active + r.1.obsolete + r.1.free - pagesPerSector
      = q - (k * pagesPerSector + pagesPerSector) := by omega
  rw [hexcess]
  have hnext' : (k + 1) * pagesPerSector + (q - (k * pagesPerSector + pagesPerSector)) = q := by
    omega
  refine ⟨?_, done', rest', hts', hnext'.trans hq, by rwa [hnext'], by rwa [hnext', hnext]⟩
  -- what is too much has been counted with the last tile, which is not free
  by_cases hpos : 0 < q - (k * pagesPerSector + pagesPerSector)
  · rcases hr : r.2 with _ | _
    · simp only [hr, if_pos hpos, Bool.false_eq_true, if_false] at hactive hobsolete ⊢
      exact ⟨by omega, by omega, hfreed⟩
    · simp only [hr, if_pos hpos, if_true] at hactive hobsolete ⊢
      exact ⟨by omega, by omega, hfreed⟩
  · have hzero : q - (k * pagesPerSector + pagesPerSector) = 0 := by omega
    simp only [hzero, ite_self, Nat.add_zero] at hactive hobsolete
    simp only [if_neg hpos]
    exact ⟨hactive, hobsolete, hfreed⟩

theorem statusAt_before (hrow : Row mem 0 ts pageCount) {k : ℕ} (hk : k < sectorCount) :
    Exact ts (k * pagesPerSector) (statusAt mem k).2.1 ∧
      Before mem ts (k + 1) (statusAt mem k).2.2 := by
  have hstep : ∀ k skip, k < sectorCount → Before mem ts k skip → (k = 0 → skip = ⟨0, false⟩) →
      Exact ts (k * pagesPerSector) (getSectorStatus mem k skip).2.1 ∧
        Before mem ts (k + 1) (getSectorStatus mem k skip).2.2 := fun k skip hk h hzero ↦ by
    rcases lt_or_ge skip.pages pagesPerSector with hpart | hwhole
    · exact getSectorStatus_part hk h hzero hpart
    · exact getSectorStatus_whole hk h hzero hwhole
  induction k with
  | zero => exact hstep 0 _ hk ⟨[], ts, rfl, rfl, hrow, Or.inl rfl⟩ fun _ ↦ rfl
  | succ k ih => exact hstep (k + 1) _ hk (ih (by omega)).2 fun h ↦ absurd h (by simp)

/-- **The status of every sector is exact.** -/
theorem statusAt_exact (hrow : Row mem 0 ts pageCount) {k : ℕ} (hk : k < sectorCount) :
    Exact ts (k * pagesPerSector) (statusAt mem k).2.1 := (statusAt_before hrow hk).1

/-- The header of a file that fills the storage. -/
def fullHeader : FileHeader :=
  { FileHeader.zero with
    maxPages := 32768
    flags := flagValid ||| flagAllocated }

def full : Memory := writeHeader .cc3d (fun _ ↦ 0) fullHeader 0

theorem row_full : Row full 0 [.file fullHeader] pageCount := by
  have hread : readHeader full 0 = fullHeader := by
    rw [full, readHeader_writeHeader fun i hi ↦ BitVec.zero_and ..]
    rfl
  exact ⟨⟨hread, by decide, by decide, by decide⟩, rfl⟩

theorem statusAt_exact_full : Exact [.file fullHeader] (1 * pagesPerSector) (statusAt full 1).2.1 :=
  statusAt_exact row_full (by decide)

/-- The collector leaves a storage alone in which every sector with garbage has a page of a file
too. -/
theorem collectGarbage_eq_self (m : Medium) {s : Store} (hrow : Row s.mem 0 ts pageCount)
    (hall : ∀ k < sectorCount, count Tile.isObsolete (k * pagesPerSector) 0 ts = 0 ∨
      0 < count Tile.isActive (k * pagesPerSector) 0 ts) : collectGarbage m true s = s := by
  have hloop : ∀ n k skip, k + n = sectorCount → getSectorStatus s.mem k skip = statusAt s.mem k →
      collectGarbageLoop m true n k skip s = s := by
    intro n
    induction n with
    | zero => exact fun _ _ _ _ ↦ rfl
    | succ n ih =>
      intro k skip hk hskip
      obtain ⟨⟨hactive, hobsolete, -⟩, -⟩ := @statusAt_before _ _ hrow k (by omega)
      have hnext := ih (k + 1) (statusAt s.mem k).2.2 (by omega) rfl
      rw [collectGarbageLoop, hskip, hactive, hobsolete]
      rcases hall k (by omega) with hnone | hsome
      · simp [hnone, hnext]
      · simp [hsome, hnext]
  exact hloop sectorCount 0 _ (Nat.zero_add _) rfl

theorem collectGarbage_eq_self_full :
    collectGarbage .cc3d true ⟨full, 0, false⟩ = ⟨full, 0, false⟩ := by
  refine collectGarbage_eq_self .cc3d row_full fun k hk ↦ Or.inr ?_
  have hactive : Tile.isActive (.file fullHeader) = true := by decide
  have hpages : Tile.pages (.file fullHeader) = 32768 := by decide
  rw [count, covered_singleton, if_pos hactive, hpages]
  simp only [sectorCount, pagesPerSector] at *
  omega

end Status

end Coffee

end Martink
