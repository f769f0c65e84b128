import Martink.Base.Tiling
import Martink.Fs.CfsCoffee

/-!
# The pages of the storage

The storage is a row of tiles: the files, the isolated pages, and the free ends of sectors. The
loops of `cfs-coffee.c` go from tile to tile.
-/

namespace Martink

namespace Coffee

/-- What `next_file` makes one step over. The pages of a free tile are the rest of its sector. -/
inductive Tile
  | free (n : ℕ)
  | isolated
  | file (hdr : FileHeader)

namespace Tile

def pages : Tile → ℕ
  | free n => n
  | isolated => 1
  | file hdr => hdr.pages

def isFree : Tile → Bool
  | free _ => true
  | _ => false

def hasName (name : ℕ → BitVec 8) : Tile → Bool
  | file hdr => hdr.hasName name
  | _ => false

end Tile

def sectorEnd (page : ℕ) : ℕ := (page + pagesPerSector) / pagesPerSector * pagesPerSector

/-- The bytes of `n` pages are zero. -/
def Clean (mem : Memory) (page n : ℕ) : Prop :=
  ∀ a, page * pageSize ≤ a → a < (page + n) * pageSize → mem a = 0

def IsTile (mem : Memory) (page : ℕ) : Tile → Prop
  | .free n => 0 < n ∧ page + n = sectorEnd page ∧ Clean mem page n
  | .isolated => (readHeader mem page).allocated = true ∧ (readHeader mem page).isolated = true
  | .file hdr =>
    readHeader mem page = hdr ∧ hdr.allocated = true ∧ hdr.isolated = false ∧ 0 < hdr.pages

/-- The tiles from one page up to another. -/
abbrev Row (mem : Memory) : ℕ → List Tile → ℕ → Prop := Tiles (IsTile mem) Tile.pages

section Tiles

variable {mem mem' : Memory} {page p q : ℕ} {t : Tile} {ts : List Tile} {name : ℕ → BitVec 8}

theorem readHeader_clean {n : ℕ} (h : Clean mem page n) (hn : 0 < n) :
    readHeader mem page = .zero := by
  refine (FileHeader.ofBytes_congr (g := fun _ ↦ 0) fun i hi ↦ h _ (by omega) ?_).trans rfl
  simp only [headerSize, pageSize] at *
  omega

theorem IsTile.pages_pos (h : IsTile mem page t) : 0 < t.pages := by
  cases t with
  | free n => exact h.1
  | isolated => exact Nat.one_pos
  | file hdr => exact h.2.2.2

/-- A tile is known by its bytes. -/
theorem IsTile.congr (h : IsTile mem page t)
    (hmem : ∀ a, page * pageSize ≤ a → a < (page + t.pages) * pageSize → mem a = mem' a) :
    IsTile mem' page t := by
  have hpos := h.pages_pos
  have hhdr : readHeader mem page = readHeader mem' page :=
    readHeader_congr fun i hi ↦ hmem _ (by omega) (by
    simp only [headerSize, pageSize] at *
    omega)
  cases t with
  | free n => exact ⟨h.1, h.2.1, fun a hlo hhi ↦ (hmem a hlo hhi).symm.trans (h.2.2 a hlo hhi)⟩
  | isolated => rwa [IsTile, ← hhdr]
  | file hdr => exact ⟨hhdr ▸ h.1, h.2⟩

theorem Row.congr (h : Row mem p ts q)
    (hmem : ∀ a, p * pageSize ≤ a → a < q * pageSize → mem a = mem' a) :
    Row mem' p ts q :=
  Tiles.imp (fun _ _ hlo hhi ht ↦ ht.congr fun a ha ha' ↦
    hmem a ((Nat.mul_le_mul_right _ hlo).trans ha) (ha'.trans_le (Nat.mul_le_mul_right _ hhi))) h

theorem row_zero {mem : Memory} (n : ℕ) : ∀ k,
    (∀ a < (k + n) * pagesPerSector * pageSize, mem a = 0) →
    Row mem (k * pagesPerSector) (List.replicate n (.free pagesPerSector))
    ((k + n) * pagesPerSector) := by
  induction n with
  | zero => exact fun _ _ ↦ rfl
  | succ n ih =>
    intro k hzero
    have hnext := ih (k + 1) (by rwa [Nat.add_right_comm])
    refine ⟨⟨by decide, ?_, fun a _ ha ↦ hzero a (ha.trans_le (Nat.mul_le_mul_right _ ?_))⟩, ?_⟩
    · simp only [sectorEnd, pagesPerSector]
      omega
    · simp only [pagesPerSector]
      omega
    · rwa [Nat.succ_mul, Nat.add_right_comm] at hnext

/-- **One step of a scan** goes to the next tile. -/
theorem IsTile.nextFile (h : IsTile mem page t) :
    nextFile page (readHeader mem page) = page + t.pages := by
  cases t with
  | free n => rw [readHeader_clean h.2.2 h.1, Tile.pages, h.2.1]; rfl
  | isolated => simp [Coffee.nextFile, FileHeader.free, h.1, h.2, Tile.pages]
  | file hdr =>
    obtain ⟨hhdr, halloc, hiso, -⟩ := h
    simp [Coffee.nextFile, FileHeader.free, hhdr, halloc, hiso, Tile.pages]

theorem IsTile.hasName (h : IsTile mem page t) :
    (readHeader mem page).hasName name = t.hasName name := by
  cases t with
  | free n => rw [readHeader_clean h.2.2 h.1]; rfl
  | isolated => simp [FileHeader.hasName, FileHeader.active, h.2, Tile.hasName]
  | file hdr => rw [h.1]; rfl

/-- **The search for a file** returns the first one that matches, and fails only if there is
none. -/
theorem findFileLoop_eq (ts : List Tile) : ∀ {n p : ℕ}, Row mem p ts pageCount → ts.length ≤ n →
    (findFileLoop mem name n p = none ∧ ∀ t ∈ ts, t.hasName name = false) ∨
    ∃ pre hdr post, ts = pre ++ .file hdr :: post ∧ hdr.hasName name = true ∧
      (∀ t ∈ pre, t.hasName name = false) ∧
        findFileLoop mem name n p = some (p + (pre.map Tile.pages).sum) := by
  induction ts with
  | nil =>
    rintro n p rfl -
    refine Or.inl ⟨?_, fun t ht ↦ absurd ht List.not_mem_nil⟩
    rcases n with _ | n
    · rfl
    · exact if_neg (lt_irrefl _)
  | cons t ts ih =>
    rintro (_ | n) p ⟨ht, hrow⟩ hlen
    · exact absurd hlen (by simp)
    have hlt : p < pageCount := (Nat.lt_add_of_pos_right ht.pages_pos).trans_le hrow.le
    rw [findFileLoop, if_pos hlt]
    simp only [ht.hasName, ht.nextFile]
    rcases hmatch : t.hasName name with _ | _
    · rw [if_neg (by simp)]
      rcases ih hrow (Nat.le_of_succ_le_succ hlen) with ⟨hnone, hall⟩ |
        ⟨pre, hdr, post, rfl, hhdr, hpre, hloop⟩
      · exact Or.inl ⟨hnone, List.forall_mem_cons.mpr ⟨hmatch, hall⟩⟩
      · refine Or.inr ⟨t :: pre, hdr, post, rfl, hhdr, List.forall_mem_cons.mpr ⟨hmatch, hpre⟩, ?_⟩
        rw [hloop, List.map_cons, List.sum_cons, Nat.add_assoc]
    · rw [if_pos rfl]
      cases t with
      | free | isolated => exact absurd hmatch (by simp [Tile.hasName])
      | file hdr => exact Or.inr ⟨[], hdr, ts, rfl, hmatch, by simp, by simp⟩

end Tiles

/-! ## Free pages -/

/-- A page of a free tile. -/
def FreePage (lo : ℕ) (ts : List Tile) (page : ℕ) : Prop :=
  ∃ p n, TileAt Tile.pages lo ts p (.free n) ∧ p ≤ page ∧ page < p + n

/-- There are `amount` free pages from `start` on, and one more in the storage. -/
def Fits (lo : ℕ) (ts : List Tile) (amount start : ℕ) : Prop :=
  start + amount < pageCount ∧ ∀ page, start ≤ page → page < start + amount → FreePage lo ts page

/-- Where pages are found: in free tiles, of which the last one begins before the end of the
pages. -/
structure Found (mem : Memory) (lo : ℕ) (ts : List Tile) (amount start : ℕ) : Prop where
  /-- The free tiles among the others. -/
  split : ∃ pre mid post e, ts = pre ++ mid ++ post ∧ Row mem lo pre start ∧ Row mem start mid e ∧
    Row mem e post pageCount ∧ (∀ t ∈ mid, t.isFree = true) ∧ start + amount ≤ e ∧
    (start + amount < e → sectorEnd (start + amount) = e)
  /-- The pages end before the storage does. -/
  lt : start + amount < pageCount

section Free

variable {mem : Memory} {lo p s n amount : ℕ} {t : Tile} {all : List Tile}

theorem not_freePage (ht : TileAt Tile.pages lo all p t) (hfree : t.isFree = false)
    {q : ℕ} (hlo : p ≤ q)
    (hhi : q < p + t.pages) : ¬FreePage lo all q := by
  rintro ⟨p', n, htile, hlo', hhi'⟩
  rcases ht.separate htile with h | h | ⟨-, rfl⟩
  · omega
  · rw [Tile.pages] at h
    omega
  · exact absurd hfree (by simp [Tile.isFree])

theorem sectorEnd_eq {x : ℕ} (hlo : p ≤ x) (hhi : x < sectorEnd p) : sectorEnd x = sectorEnd p := by
  simp only [sectorEnd, pagesPerSector] at *
  omega

theorem IsTile.free_eq (h : IsTile mem p t) : (readHeader mem p).free = t.isFree := by
  cases t with
  | free n => rw [readHeader_clean h.2.2 h.1]; rfl
  | isolated => simp [FileHeader.free, h.1, Tile.isFree]
  | file hdr => simp [FileHeader.free, h.1, h.2.1, Tile.isFree]

/-- The loop of `find_contiguous_pages` at page `p`, with `start` as its local variable: it has
passed the tiles `done` and then the free tiles `run` from `s` on. -/
structure Searching (mem : Memory) (lo amount : ℕ) (done run ts : List Tile) (s p : ℕ)
    (start : Option ℕ) : Prop where
  /-- The tiles up to the run. -/
  passed : Row mem lo done s
  /-- The tiles of the run. -/
  row : Row mem s run p
  /-- The tiles that are left. -/
  rest : Row mem p ts pageCount
  /-- The run is free. -/
  free : ∀ t ∈ run, t.isFree = true
  /-- It has begun, if the pages it needs are in the storage, or it is empty. -/
  start : start = none ∧ run = [] ∨ start = some s ∧ s + amount < pageCount
  /-- It is too short so far. -/
  short : p < s + amount
  /-- No pages fit before it. -/
  before : ∀ x, lo ≤ x → x < s → ¬Fits lo (done ++ run ++ ts) amount x

section Search

variable {done run ts : List Tile} {start : Option ℕ}

/-- Where the pages after the run do not fit into the storage, none do. -/
theorem Searching.not_fits (h : Searching mem lo amount done run ts s p start)
    (hroom : pageCount ≤ s + amount) {x : ℕ} (hx : lo ≤ x) :
    ¬Fits lo (done ++ run ++ ts) amount x := by
  intro hfits
  rcases lt_or_ge x s with hlt | hge
  · exact h.before x hx hlt hfits
  · exact absurd hfits.1 (by omega)

theorem Searching.tileAt (h : Searching mem lo amount done run (t :: ts) s p start) :
    TileAt Tile.pages lo (done ++ run ++ t :: ts) p t := by
  refine ⟨done ++ run, ts, rfl, ?_⟩
  rw [List.map_append, List.sum_append, ← Nat.add_assoc, ← h.passed.eq_add, ← h.row.eq_add]

/-- A tile that is not free ends the run, and no pages that fit reach into it. -/
theorem Searching.taken (h : Searching mem lo amount done run (t :: ts) s p start)
    (hamount : 0 < amount)
    (hkind : t.isFree = false) :
    Searching mem lo amount (done ++ run ++ [t]) [] ts (p + t.pages) (p + t.pages) none := by
  have ht := h.rest.1
  have hs : lo ≤ s := h.passed.le
  have hp : s ≤ p := h.row.le
  have hpages := ht.pages_pos
  have hshort := h.short
  refine ⟨?_, rfl, h.rest.2, by simp, Or.inl ⟨rfl, rfl⟩, by omega, fun x hx hlt hfits ↦ ?_⟩
  · exact tiles_append.mpr ⟨p, tiles_append.mpr ⟨s, h.passed, h.row⟩, ht, rfl⟩
  rw [List.append_nil, List.append_assoc _ [t]] at hfits
  rcases lt_or_ge x s with hbefore | hge
  · exact h.before x hx hbefore hfits
  · -- a page of the tile is among those that would have to be free
    exact not_freePage h.tileAt hkind (q := max x p) (le_max_right _ _) (by omega)
      (hfits.2 _ (by omega) (by omega))

theorem Searching.run_concat (h : Searching mem lo amount done run (t :: ts) s p start) :
    Row mem s (run ++ [t]) (p + t.pages) := tiles_append.mpr ⟨p, h.row, h.rest.1, rfl⟩

theorem Searching.free_concat (h : Searching mem lo amount done run (t :: ts) s p start)
    (hkind : t.isFree = true) : ∀ u ∈ run ++ [t], u.isFree = true := by
  intro u hu
  rcases List.mem_append.mp hu with hu | hu
  · exact h.free u hu
  · rwa [List.mem_singleton.mp hu]

/-- A free tile makes the run longer. -/
theorem Searching.longer (h : Searching mem lo amount done run (t :: ts) s p start)
    (hkind : t.isFree = true) (hroom : s + amount < pageCount) (hshort : p + t.pages < s + amount) :
    Searching mem lo amount done (run ++ [t]) ts s (p + t.pages) (some s) := by
  refine ⟨h.passed, h.run_concat, h.rest.2, h.free_concat hkind, Or.inr ⟨rfl, hroom⟩, hshort, ?_⟩
  simpa using h.before

/-- A free tile makes the run long enough. -/
theorem Searching.found {k : ℕ} (h : Searching mem lo amount done run (.free k :: ts) s p start)
    (hroom : s + amount < pageCount) (henough : s + amount ≤ p + k) :
    Found mem lo (done ++ run ++ .free k :: ts) amount s := by
  refine ⟨⟨done, run ++ [.free k], ts, p + k, by simp, h.passed, h.run_concat, h.rest.2,
    h.free_concat rfl, henough, fun hend ↦ ?_⟩, hroom⟩
  have hsector := h.rest.1.2.1
  rw [sectorEnd_eq h.short.le (hsector ▸ hend), hsector]

end Search

/-- **The loop** finds the first pages that fit, or there are none. -/
theorem contiguousLoop_spec (hamount : 0 < amount) (ts : List Tile) :
    ∀ {n s p : ℕ} {start : Option ℕ} {done run : List Tile}, all = done ++ run ++ ts →
    Searching mem lo amount done run ts s p start → ts.length ≤ n →
    (contiguousLoop mem amount n start p = none ∧ ∀ x, lo ≤ x → ¬Fits lo all amount x) ∨
      ∃ x, contiguousLoop mem amount n start p = some x ∧ Found mem lo all amount x ∧
        ∀ y, lo ≤ y → y < x → ¬Fits lo all amount y := by
  induction ts with
  | nil =>
    rintro n s p start done run rfl h -
    have hend : p = pageCount := h.rest
    refine Or.inl ⟨?_, fun x hx ↦ h.not_fits (hend ▸ h.short.le) hx⟩
    rcases n with _ | n
    · rfl
    · exact if_neg (by omega)
  | cons t ts ih =>
    rintro (_ | n) s p start done run rfl h hlen
    · exact absurd hlen (by simp)
    have ht := h.rest.1
    have hlt : p < pageCount := (Nat.lt_add_of_pos_right ht.pages_pos).trans_le h.rest.2.le
    rw [contiguousLoop, if_pos hlt]
    simp only [ht.nextFile, ht.free_eq]
    cases t with
    | isolated | file =>
      exact ih (by simp) (h.taken hamount rfl) (Nat.le_of_succ_le_succ hlen)
    | free k =>
      have hfirst : start.getD p = s := by
        rcases h.start with ⟨rfl, rfl⟩ | ⟨rfl, -⟩
        · exact h.row.symm
        · rfl
      rw [if_pos (show (Tile.free k).isFree = true from rfl), hfirst]
      by_cases hbreak : start = none ∧ pageCount ≤ s + amount
      · rw [if_pos hbreak]
        exact Or.inl ⟨rfl, fun x hx ↦ h.not_fits hbreak.2 hx⟩
      have hroom : s + amount < pageCount := by
        rcases h.start with ⟨rfl, -⟩ | ⟨-, hroom⟩
        · simpa using hbreak
        · exact hroom
      rw [if_neg hbreak]
      split_ifs with henough
      · exact Or.inr ⟨s, rfl, h.found hroom henough, h.before⟩
      · exact ih (by simp) (h.longer rfl hroom (not_le.mp henough)) (Nat.le_of_succ_le_succ hlen)

theorem FreePage.cons {page : ℕ} (h : FreePage (lo + t.pages) all page) :
    FreePage lo (t :: all) page := by
  obtain ⟨p, n, htile, hlo, hhi⟩ := h
  exact ⟨p, n, tileAt_cons.mpr (Or.inr htile), hlo, hhi⟩

theorem freePage_of_row (ts : List Tile) : ∀ {p q page : ℕ}, Row mem p ts q →
    (∀ t ∈ ts, t.isFree = true) →
    p ≤ page → page < q → FreePage p ts page := by
  induction ts with
  | nil =>
    rintro p q page rfl - hlo hhi
    omega
  | cons t ts ih =>
    rintro p q page ⟨ht, hrow⟩ hfree hlo hhi
    cases t with
    | isolated | file => exact absurd (hfree _ List.mem_cons_self) (by simp [Tile.isFree])
    | free n =>
      rcases lt_or_ge page (p + n) with hlt | hge
      · exact ⟨p, n, tileAt_cons.mpr (Or.inl ⟨rfl, rfl⟩), hlo, hlt⟩
      · exact (ih hrow (fun u hu ↦ hfree u (List.mem_cons_of_mem _ hu)) hge hhi).cons

theorem FreePage.append {page : ℕ} {ts us : List Tile} (h : FreePage lo ts page) :
    FreePage lo (ts ++ us) page := by
  obtain ⟨p, n, htile, hin⟩ := h
  exact ⟨p, n, tileAt_append.mpr (Or.inl htile), hin⟩

theorem freePage_append_right {page : ℕ} {ts us : List Tile}
    (h : FreePage (lo + (ts.map Tile.pages).sum) us page) : FreePage lo (ts ++ us) page := by
  obtain ⟨p, n, htile, hin⟩ := h
  exact ⟨p, n, tileAt_append.mpr (Or.inr htile), hin⟩

theorem Found.fits {ts : List Tile} (h : Found mem lo ts amount s) : Fits lo ts amount s := by
  obtain ⟨pre, mid, post, e, rfl, hpre, hmid, -, hfree, hle, -⟩ := h.split
  refine ⟨h.lt, fun page hlo hhi ↦ ?_⟩
  rw [List.append_assoc]
  refine freePage_append_right (FreePage.append ?_)
  rw [← hpre.eq_add]
  exact freePage_of_row mid hmid hfree hlo (by omega)

/-- The allocation finds the first pages that are free, or there are none. -/
theorem findContiguousPages_spec {ts : List Tile} (hrow : Row mem lo ts pageCount)
    (hamount : 0 < amount) :
    ((findContiguousPages mem lo amount).1 = none ∧ ∀ x, lo ≤ x → ¬Fits lo ts amount x) ∨
      ∃ x, findContiguousPages mem lo amount = (some x, if x = lo then x + amount else lo) ∧
        Found mem lo ts amount x ∧ ∀ y, lo ≤ y → y < x → ¬Fits lo ts amount y := by
  have hlen : ts.length ≤ pageCount :=
    (Nat.le_add_left _ _).trans (hrow.length_le fun _ _ ht ↦ ht.pages_pos)
  have hstart : Searching mem lo amount [] [] ts lo lo none :=
    ⟨rfl, rfl, hrow, by simp, Or.inl ⟨rfl, rfl⟩, by omega, fun x hx hlt ↦ absurd hlt (by omega)⟩
  rw [findContiguousPages]
  rcases contiguousLoop_spec hamount ts rfl hstart hlen with
      ⟨hnone, hall⟩ | ⟨x, hsome, hfound, hbefore⟩
  · exact Or.inl ⟨by rw [hnone], hall⟩
  · exact Or.inr ⟨x, by rw [hsome], hfound, hbefore⟩

theorem Found.le {ts : List Tile} (h : Found mem lo ts amount s) : lo ≤ s := by
  obtain ⟨pre, mid, post, e, -, hpre, -⟩ := h.split
  exact hpre.le

/-- **The pages that are found** are free, and they are the first that are. Nothing is found only if
none are, or if they would be the last of the storage. -/
theorem findContiguousPages_eq_some_iff {ts : List Tile} (hrow : Row mem lo ts pageCount)
    (hamount : 0 < amount) {start : ℕ} : (findContiguousPages mem lo amount).1 = some start ↔
      lo ≤ start ∧ Fits lo ts amount start ∧ ∀ y, lo ≤ y → y < start → ¬Fits lo ts amount y := by
  rcases findContiguousPages_spec hrow hamount with ⟨hnone, hall⟩ | ⟨x, hsome, hfound, hbefore⟩
  · rw [hnone]
    exact ⟨fun h ↦ absurd h (by simp), fun ⟨hlo, hfits, _⟩ ↦ absurd hfits (hall start hlo)⟩
  · rw [hsome]
    constructor
    · intro h
      obtain rfl : x = start := Option.some.inj h
      exact ⟨hfound.le, hfound.fits, hbefore⟩
    · rintro ⟨hstart, hfits, hleast⟩
      refine congrArg some (le_antisymm ?_ ?_) <;> by_contra hlt
      · exact hbefore start hstart (by omega) hfits
      · exact hleast x hfound.le (by omega) hfound.fits

theorem findContiguousPages_eq_some_iff_zero : (findContiguousPages (fun _ ↦ 0) 0 9).1 = some 0 ↔
    0 ≤ 0 ∧ Fits 0 (List.replicate sectorCount (.free pagesPerSector)) 9 0 ∧
      ∀ y, 0 ≤ y → y < 0 → ¬Fits 0 (List.replicate sectorCount (.free pagesPerSector)) 9 y :=
  findContiguousPages_eq_some_iff (row_zero sectorCount 0 fun _ _ ↦ rfl) (by decide)

theorem clean_of_row (ts : List Tile) : ∀ {p q : ℕ}, Row mem p ts q → (∀ t ∈ ts, t.isFree = true) →
    ∀ a, p * pageSize ≤ a → a < q * pageSize → mem a = 0 := by
  induction ts with
  | nil =>
    rintro p q rfl - a hlo hhi
    omega
  | cons t ts ih =>
    rintro p q ⟨ht, hrow⟩ hfree a hlo hhi
    cases t with
    | isolated | file => exact absurd (hfree _ List.mem_cons_self) (by simp [Tile.isFree])
    | free n =>
      rcases lt_or_ge a ((p + n) * pageSize) with hlt | hge
      · exact ht.2.2 a hlo hlt
      · exact ih hrow (fun u hu ↦ hfree u (List.mem_cons_of_mem _ hu)) a hge hhi

/-- The pages that are found are zero. -/
theorem Found.clean {ts : List Tile} (h : Found mem lo ts amount s) : Clean mem s amount := by
  obtain ⟨pre, mid, post, e, -, -, hmid, -, hfree, hle, -⟩ := h.split
  exact fun a hlo hhi ↦
    clean_of_row mid hmid hfree a hlo (hhi.trans_le (Nat.mul_le_mul_right _ hle))

theorem not_tileAt_file {ts : List Tile} (hfree : ∀ t ∈ ts, t.isFree = true) {hdr : FileHeader} :
    ¬TileAt Tile.pages lo ts p (.file hdr) := by
  rintro ⟨pre, post, rfl, -⟩
  exact absurd (hfree (.file hdr) (by simp)) (by simp [Tile.isFree])

/-- **A file in the pages that are found.** It is one more tile, and what is left of the sector is
free. -/
theorem Found.allocate {lo' x : ℕ} {before ts : List Tile} {mem' : Memory} {hdr : FileHeader}
    (h : Found mem lo ts amount x) (hbefore : Row mem lo' before lo)
    (hhdr : readHeader mem' x = hdr)
    (hkind : hdr.allocated = true ∧ hdr.isolated = false) (hamount : hdr.pages = amount)
    (hpos : 0 < amount)
    (hout : ∀ a, a < x * pageSize ∨ x * pageSize + headerSize ≤ a → mem' a = mem a) :
    ∃ ts', Row mem' lo' ts' pageCount ∧ Boundary Tile.pages lo' ts' lo ∧
      Boundary Tile.pages lo' ts' (x + amount) ∧ ∀ q u, TileAt Tile.pages lo' ts' q (.file u) ↔
        q = x ∧ u = hdr ∨ TileAt Tile.pages lo' (before ++ ts) q (.file u) := by
  obtain ⟨pre, mid, post, e, rfl, hpre, hmid, hpost, hfree, hle, hend⟩ := h.split
  have hclean := clean_of_row mid hmid hfree
  have hfile : IsTile mem' x (.file hdr) := ⟨hhdr, hkind.1, hkind.2, hamount ▸ hpos⟩
  have hbehind : ∀ a, (x + amount) * pageSize ≤ a → mem a = mem' a := fun a ha ↦
    (hout a (Or.inr (by simp only [pageSize, headerSize] at *; omega))).symm
  obtain ⟨rest, hrest, hrestFree⟩ : ∃ rest, Row mem' (x + amount) rest e ∧
      ∀ t ∈ rest, t.isFree = true := by
    rcases hle.lt_or_eq with hlt | heq
    · refine ⟨[.free (e - (x + amount))],
        ⟨⟨by omega, ?_, fun a hlo hhi ↦ ?_⟩, ?_⟩, by simp [Tile.isFree]⟩
      · rw [hend hlt]
        omega
      · rw [← hbehind a hlo]
        refine hclean a ((Nat.mul_le_mul_right _ (Nat.le_add_right x amount)).trans hlo) ?_
        rwa [Nat.add_sub_cancel' hle] at hhi
      · simp only [Tile.pages, tiles_nil]
        omega
    · exact ⟨[], heq, by simp⟩
  have hbefore' : Row mem' lo' before lo := Row.congr hbefore fun a _ ha ↦
    (hout a (Or.inl (ha.trans_le (Nat.mul_le_mul_right _ hpre.le)))).symm
  have hpre' : Row mem' lo pre x := Row.congr hpre fun a _ ha ↦ (hout a (Or.inl ha)).symm
  have hpost' : Row mem' e post pageCount := Row.congr hpost fun a ha _ ↦
    hbehind a ((Nat.mul_le_mul_right _ hle).trans ha)
  have hmid' : Row mem' x (.file hdr :: rest) e := ⟨hfile, by rwa [Tile.pages, hamount]⟩
  have hall := tiles_append.mpr ⟨lo, hbefore',
    tiles_append.mpr ⟨x, hpre', tiles_append.mpr ⟨e, hmid', hpost'⟩⟩⟩
  refine ⟨_, hall, hbefore'.boundary, ?_, fun q u ↦ ?_⟩
  · have hcut : Row mem' lo' (before ++ (pre ++ [.file hdr])) (x + amount) :=
      tiles_append.mpr ⟨lo, hbefore', tiles_append.mpr
        ⟨x, hpre', hfile, by rw [Tile.pages, hamount]; rfl⟩⟩
    have hboundary : Boundary Tile.pages lo' (before ++ (pre ++ [.file hdr]) ++ (rest ++ post))
      (x + amount) :=
      hcut.boundary
    simpa using hboundary
  · have hlo := hbefore.eq_add
    have hx := hpre.eq_add
    have he := hmid'.eq_add
    have he' := hmid.eq_add
    simp only [List.append_assoc, tileAt_append, ← hlo, ← hx, ← he, ← he', tileAt_cons,
      not_tileAt_file hrestFree,
      not_tileAt_file hfree, Tile.file.injEq]
    tauto

end Free

/-! ## The end of a file -/

section FileEnd

variable (mem : Memory)

theorem lastNonzero_spec (page n : ℕ) :
    (lastNonzero mem page n = none ∧ ∀ j < n, mem (page * pageSize + j) = 0) ∨
      ∃ i < n, lastNonzero mem page n = some i ∧ mem (page * pageSize + i) ≠ 0 ∧
        ∀ j < n, i < j → mem (page * pageSize + j) = 0 := by
  induction n with
  | zero => exact Or.inl ⟨rfl, by simp⟩
  | succ n ih =>
    rw [lastNonzero]
    split_ifs with hbyte
    · exact Or.inr ⟨n, Nat.lt_succ_self n, rfl, hbyte, by omega⟩
    · have hlast : mem (page * pageSize + n) = 0 := not_not.mp hbyte
      rcases ih with ⟨hnone, hall⟩ | ⟨i, hi, hsome, hi', hall⟩
      · exact Or.inl ⟨hnone, Nat.forall_lt_succ_right.mpr ⟨hall, hlast⟩⟩
      · exact Or.inr ⟨i, hi.trans (Nat.lt_succ_self n), hsome, hi',
          Nat.forall_lt_succ_right.mpr ⟨hall, fun _ ↦ hlast⟩⟩

/-- A file of `n` pages ends behind its last byte that is not zero. -/
structure EndsAt (start n k : ℕ) : Prop where
  /-- The bytes from `k` on are zero. -/
  zero : ∀ i, k ≤ i → headerSize + i < n * pageSize → mem (absoluteOffset start i) = 0
  /-- The one before is not. -/
  last : k = 0 ∨ headerSize + k ≤ n * pageSize ∧ mem (absoluteOffset start (k - 1)) ≠ 0

theorem fileEndLoop_endsAt (start n : ℕ) : EndsAt mem start n (fileEndLoop mem start n) := by
  induction n with
  | zero => exact ⟨fun i _ hi ↦ absurd hi (by simp), Or.inl rfl⟩
  | succ n ih =>
    -- the bytes of the file in the page that is looked at
    have hoffset : ∀ i, n * pageSize ≤ headerSize + i →
        absoluteOffset start i = (start + n) * pageSize + (headerSize + i - n * pageSize) :=
          fun i hi ↦ by
      rw [absoluteOffset, Nat.add_mul]
      omega
    rw [fileEndLoop]
    rcases lastNonzero_spec mem (start + n) pageSize with
        ⟨hnone, hall⟩ | ⟨i, hi, hsome, hbyte, hall⟩
    · rw [hnone]
      refine ⟨fun j hj hlt ↦ ?_, ih.last.imp_right fun h ↦ ⟨?_, h.2⟩⟩
      · rcases lt_or_ge (headerSize + j) (n * pageSize) with hin | hout
        · exact ih.zero j hj hin
        · rw [hoffset j hout]
          exact hall _ (by rw [Nat.succ_mul] at hlt; omega)
      · exact h.1.trans (Nat.mul_le_mul_right _ (Nat.le_succ n))
    · simp only [hsome]
      have hzero : ∀ j, i < headerSize + j - n * pageSize → headerSize + j < (n + 1) * pageSize →
          mem (absoluteOffset start j) = 0 := fun j hj hlt ↦ by
        rw [hoffset j (by omega)]
        exact hall _ (by rw [Nat.succ_mul] at hlt; omega) hj
      split_ifs with hheader
      · refine ⟨fun j _ hlt ↦ hzero j ?_ hlt, Or.inl rfl⟩
        rw [hheader.1]
        omega
      · have hpast : headerSize ≤ i + n * pageSize := by
          simp only [headerSize, pageSize] at *
          omega
        refine ⟨fun j hj hlt ↦ hzero j (by omega) hlt, Or.inr ⟨?_, ?_⟩⟩
        · rw [Nat.succ_mul]
          omega
        · rw [hoffset _ (by omega), show headerSize + (1 + i + n * pageSize - headerSize - 1) - n
          * pageSize = i
            by omega]
          exact hbyte

/-- **The end of a file** is behind its last byte that is not zero, wherever it was written to. -/
theorem fileEnd_eq_iff (start k : ℕ) :
    fileEnd mem start = k ↔ EndsAt mem start (readHeader mem start).pages k := by
  have hend := fileEndLoop_endsAt mem start (readHeader mem start).pages
  refine ⟨fun h ↦ h ▸ hend, fun h ↦ ?_⟩
  rw [fileEnd]
  refine le_antisymm ?_ ?_ <;> by_contra hlt
  · rcases hend.last with hzero | ⟨hle, hbyte⟩
    · omega
    · exact hbyte (h.zero _ (by omega) (by omega))
  · rcases h.last with hzero | ⟨hle, hbyte⟩
    · omega
    · exact hbyte (hend.zero _ (by omega) (by omega))

end FileEnd

end Coffee

end Martink
