import Martink.Fs.CoffeeHeader

/-!
# The Coffee file system

`cfs-coffee.c` keeps each file in a run of pages. The header in the first page says how many there
are, and nothing else does: to find a file the code goes from header to header. A free page means
that the rest of its sector is free.

The loops over the storage have at most as many turns as there are pages.
-/

namespace Martink

namespace Coffee

variable (m : Medium)

/-! ## Scanning -/

/-- `next_file`. -/
def nextFile (page : ℕ) (hdr : FileHeader) : ℕ :=
  if hdr.free then (page + pagesPerSector) / pagesPerSector * pagesPerSector
  else if hdr.isolated then page + 1
  else page + hdr.pages

/-- The second loop of `find_file`, with at most `n` turns. -/
def findFileLoop (mem : Memory) (name : ℕ → BitVec 8) : ℕ → ℕ → Option ℕ
  | 0, _ => none
  | n + 1, page =>
    if page < pageCount then
      let hdr := readHeader mem page
      if hdr.hasName name then some page else findFileLoop mem name n (nextFile page hdr)
    else none

/-- The loop of `find_contiguous_pages`, with at most `n` turns. The second argument is `start`. -/
def contiguousLoop (mem : Memory) (amount : ℕ) : ℕ → Option ℕ → ℕ → Option ℕ
  | 0, _, _ => none
  | n + 1, start, page =>
    if page < pageCount then
      let hdr := readHeader mem page
      if hdr.free then
        let first := start.getD page
        -- only when the start is new are the remaining pages counted
        if start = none ∧ pageCount ≤ first + amount then none
        else
          let page := nextFile page hdr
          if first + amount ≤ page then some first
            else contiguousLoop mem amount n (some first) page
      else contiguousLoop mem amount n none (nextFile page hdr)
    else none

/-- `find_contiguous_pages`: the page, if it is not `INVALID_PAGE`, and `next_free` afterwards. -/
def findContiguousPages (mem : Memory) (nextFree amount : ℕ) : Option ℕ × ℕ :=
  match contiguousLoop mem amount pageCount none nextFree with
  | none => (none, nextFree)
  | some start => (some start, if start = nextFree then start + amount else nextFree)

/-- The offset of a byte in a page that is not zero, the last of the first `n`. -/
def lastNonzero (mem : Memory) (page : ℕ) : ℕ → Option ℕ
  | 0 => none
  | i + 1 => if mem (page * pageSize + i) ≠ 0 then some i else lastNonzero mem page i

/-- The loop of `file_end` over the first `n` pages of the file, from the last of them on. -/
def fileEndLoop (mem : Memory) (start : ℕ) : ℕ → ℕ
  | 0 => 0
  | page + 1 =>
    match lastNonzero mem (start + page) pageSize with
    | none => fileEndLoop mem start page
    | some i => if page = 0 ∧ i < headerSize then 0 else 1 + i + page * pageSize - headerSize

def fileEnd (mem : Memory) (start : ℕ) : ℕ := fileEndLoop mem start (readHeader mem start).pages

/-- `page_count`. -/
def pagesFor (size : ℕ) : ℕ := (size + headerSize + pageSize - 1) / pageSize

/-! ## Garbage collection -/

/-- `struct sector_status`. -/
structure SectorStatus where
  /-- The pages of files. -/
  active : ℕ
  /-- The pages of files that were removed, and those that are isolated. -/
  obsolete : ℕ
  /-- The pages that were not given away. -/
  free : ℕ

/-- The static variables of `get_sector_status`: `skip_pages` and `last_pages_are_active`. -/
structure Skip where
  /-- How many pages of the next sector belong to the last file. -/
  pages : ℕ
  /-- Whether that file is active. -/
  active : Bool

/-- The loop of `get_sector_status`, with at most `n` turns. -/
def statusLoop (mem : Memory) (sectorEnd : ℕ) : ℕ → ℕ → SectorStatus → Bool → SectorStatus × Bool
  | 0, _, st, last => (st, last)
  | n + 1, page, st, last =>
    if page < sectorEnd then
      let hdr := readHeader mem page
      if hdr.active then
        statusLoop mem sectorEnd n (page + hdr.pages)
          { st with active := st.active + hdr.pages } true
      else if hdr.isolated then
        statusLoop mem sectorEnd n (page + 1) { st with obsolete := st.obsolete + 1 } false
      else if hdr.obsolete then
        statusLoop mem sectorEnd n (page + hdr.pages)
          { st with obsolete := st.obsolete + hdr.pages } false
      else ({ st with free := sectorEnd - page }, false)
    else (st, last)

/-- `get_sector_status`: how many pages of the next sector are to be isolated, the status, and the
static variables afterwards. -/
def getSectorStatus (mem : Memory) (sector : ℕ) (skip : Skip) : ℕ × SectorStatus × Skip :=
  let skip := if sector = 0 then ⟨0, false⟩ else skip
  if pagesPerSector ≤ skip.pages then
    let rest := skip.pages - pagesPerSector
    if skip.active then (0, ⟨pagesPerSector, 0, 0⟩, ⟨rest, true⟩)
    else (if pagesPerSector ≤ rest then 0 else rest, ⟨0, pagesPerSector, 0⟩, ⟨rest, false⟩)
  else
    let start := sector * pagesPerSector
    let r := statusLoop mem (start + pagesPerSector) pagesPerSector (start + skip.pages)
      (if skip.active then ⟨skip.pages, 0, 0⟩ else ⟨0, skip.pages, 0⟩) skip.active
    let st := r.1
    let excess := st.active + st.obsolete + st.free - pagesPerSector
    let st :=
      if 0 < excess then
        if r.2 then { st with active := pagesPerSector - st.obsolete }
        else { st with obsolete := pagesPerSector - st.active }
      else st
    (if r.2 ∨ pagesPerSector ≤ excess then 0 else excess, st, ⟨excess, r.2⟩)

/-- The storage, and `next_free` and `gc_wait`. -/
structure Store where
  /-- The bytes of the storage. -/
  mem : Memory
  /-- Where the search for free pages begins. -/
  nextFree : ℕ
  /-- The garbage collection waits for a file to be removed. -/
  gcWait : Bool

def isolatePages (mem : Memory) (start skipPages : ℕ) : Memory :=
  (List.range skipPages).foldl (fun mem page ↦
    writeHeader m mem { FileHeader.zero with flags := flagAllocated ||| flagIsolated }
      (start + page)) mem

/-- The loop of `collect_garbage` over `n` sectors. -/
def collectGarbageLoop (greedy : Bool) : ℕ → ℕ → Skip → Store → Store
  | 0, _, _, s => s
  | n + 1, sector, skip, s =>
    let r := getSectorStatus s.mem sector skip
    let st := r.2.1
    if 0 < st.active then collectGarbageLoop greedy n (sector + 1) r.2.2 s
    else if (!greedy ∧ st.free = 0) ∨ (greedy ∧ 0 < st.obsolete) then
      let firstPage := sector * pagesPerSector
      let mem := if 0 < r.1 then isolatePages m s.mem (firstPage + pagesPerSector) r.1 else s.mem
      let s := { s with mem := m.erase mem sector, nextFree := min firstPage s.nextFree }
      if !greedy ∧ 0 < r.1 then s else collectGarbageLoop greedy n (sector + 1) r.2.2 s
    else collectGarbageLoop greedy n (sector + 1) r.2.2 s

def collectGarbage (greedy : Bool) (s : Store) : Store :=
  collectGarbageLoop m greedy sectorCount 0 ⟨0, false⟩ s

/-! ## Allocating and removing -/

/-- The header that `reserve` writes. -/
def newHeader (name : ℕ → BitVec 8) (pages : ℕ) (flags : BitVec 8) : FileHeader :=
  { FileHeader.zero with
    name := fun i ↦ if i.val < 19 then name i else 0
    maxPages := BitVec.ofNat 32 pages
    flags := flagAllocated ||| flags }

/-- `reserve` once it is known that the file is new, as far as the storage goes: the page, and the
storage afterwards. -/
def reservePages (s : Store) (name : ℕ → BitVec 8) (pages : ℕ) (flags : BitVec 8) :
    Option ℕ × Store :=
  let write (page nextFree : ℕ) (s : Store) : Option ℕ × Store :=
    (some page, { s with
      mem := writeHeader m s.mem (newHeader name pages flags) page
      nextFree := nextFree })
  match findContiguousPages s.mem s.nextFree pages with
  | (some page, nextFree) => write page nextFree s
  | (none, _) =>
    if s.gcWait then (none, s)
    else
      let s := collectGarbage m true s
      match findContiguousPages s.mem s.nextFree pages with
      | (some page, nextFree) => write page nextFree s
      | (none, _) => (none, { s with gcWait := true })

/-- `adjust_log_config`: the size of a record, and the number of records. -/
def adjustLogConfig (hdr : FileHeader) : ℕ × ℕ :=
  let logRecordSize := if hdr.logRecordSize = 0 then pageSize else hdr.logRecordSize.toNat
  (logRecordSize, if hdr.logRecords = 0 then logSize / logRecordSize else hdr.logRecords.toNat)

/-- `create_log` for the file at `page`, as far as the storage goes: the page of the log. -/
def createLog (s : Store) (page : ℕ) : Option ℕ × Store :=
  let hdr := readHeader s.mem page
  let (logRecordSize, logRecords) := adjustLogConfig hdr
  match reservePages m s hdr.nameAt (pagesFor (logRecords * (2 + logRecordSize))) flagLog with
  | (none, s) => (none, s)
  | (some logPage, s) =>
    let hdr := { hdr with flags := hdr.flags ||| flagModified, logPage := BitVec.ofNat 32 logPage }
    (some logPage, { s with mem := writeHeader m s.mem hdr page })

/-- The header of a file that is removed is marked. -/
def markObsolete (s : Store) (page : ℕ) : Store :=
  let hdr := readHeader s.mem page
  { s with
    mem := writeHeader m s.mem { hdr with flags := hdr.flags ||| flagObsolete } page
    gcWait := false }

/-- `remove_by_page(page, 0, …)`, as far as the storage goes. -/
def removeFile (s : Store) (page : ℕ) : Option Store :=
  if (readHeader s.mem page).active then some (markObsolete m s page) else none

/-- `remove_by_page(page, REMOVE_LOG, …)`. The header is the one from before its log was removed. -/
def removeWithLog (s : Store) (page : ℕ) : Option Store :=
  let hdr := readHeader s.mem page
  if hdr.active then
    if hdr.modified then
      (removeFile m s hdr.logPage.toNat).map fun s ↦
        { s with mem := writeHeader m s.mem { hdr with flags := hdr.flags ||| flagObsolete } page }
    else some (markObsolete m s page)
  else none

end Coffee

end Martink
