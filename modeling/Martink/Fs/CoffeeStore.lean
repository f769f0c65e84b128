import Martink.Base.Outcome
import Martink.Fs.CoffeeTiles

/-!
# Files that do not touch each other

What the storage is for is a map from pages to files: a file has its header and its bytes, and what
is done to one file leaves the others alone. `Holds` says that a storage is such a map, and each
function of `cfs-coffee.c` that writes keeps it so, as long as no garbage is collected.
-/

namespace Martink

namespace Coffee

/-- A file, with the bytes behind its header. -/
structure CoffeeFile where
  /-- The header. -/
  hdr : FileHeader
  /-- The bytes. -/
  data : ℕ → BitVec 8

/-- The files by their first pages. -/
abbrev Files := ℕ → Option CoffeeFile

/-- What happens to the storage, with the pages that were found. -/
inductive StoreOp
  | reserve (name : ℕ → BitVec 8) (size page : ℕ)
  | createLog (name : ℕ → BitVec 8) (page logPage : ℕ)
  | remove (name : ℕ → BitVec 8) (page : ℕ)
  | write (name : ℕ → BitVec 8) (page offset : ℕ) (bytes : List (BitVec 8))
  | writeLog (name : ℕ → BitVec 8) (page offset : ℕ) (bytes : List (BitVec 8))

/-- Bytes that lie in a file, and in one page of the chip. -/
def InFile (m : Medium) (hdr : FileHeader) (page offset length : ℕ) : Prop :=
  headerSize + offset + length ≤ hdr.pages * pageSize ∧
    absoluteOffset page offset % m.page + length ≤ m.page

instance (m : Medium) (hdr : FileHeader) (page offset length : ℕ) :
    Decidable (InFile m hdr page offset length) := inferInstanceAs (Decidable (_ ∧ _))

namespace Store

variable (m : Medium) (s : Store)

/-- The page of a file, as `find_file` finds it in the storage. -/
def find (name : ℕ → BitVec 8) : Option ℕ := findFileLoop s.mem name pageCount 0

/-- What an operation does, if the pages are those that the code finds, and if it finds them without
collecting garbage. -/
def step : StoreOp → Option Store
  | .reserve name size page =>
    if (findContiguousPages s.mem s.nextFree (pagesFor size)).1 = some page then
      some (reservePages m s name (pagesFor size) 0).2
    else none
  | .createLog name page logPage =>
    let hdr := readHeader s.mem page
    let (logRecordSize, logRecords) := adjustLogConfig hdr
    if s.find name = some page ∧ hdr.modified = false ∧
        (findContiguousPages s.mem s.nextFree (pagesFor (logRecords * (2 + logRecordSize)))).1
          = some logPage then
      some (createLog m s page).2
    else none
  | .remove name page => if s.find name = some page then removeWithLog m s page else none
  | .write name page offset bytes =>
    if s.find name = some page ∧ InFile m (readHeader s.mem page) page offset bytes.length then
      some { s with mem := m.write s.mem (absoluteOffset page offset) bytes }
    else none
  | .writeLog name page offset bytes =>
    let hdr := readHeader s.mem page
    let logPage := hdr.logPage.toNat
    if s.find name = some page ∧ hdr.modified = true ∧
        InFile m (readHeader s.mem logPage) logPage offset bytes.length then
      some { s with mem := m.write s.mem (absoluteOffset logPage offset) bytes }
    else none

end Store

namespace Files

variable (m : Medium) (fs : Files)

/-- A change of one file. -/
def change (page : ℕ) (f : CoffeeFile → CoffeeFile) : Files :=
  Function.update fs page ((fs page).map f)

/-- A new file, in which every byte is zero. -/
def add (page : ℕ) (hdr : FileHeader) : Files :=
  Function.update fs page (some ⟨hdr.valid, fun _ ↦ 0⟩)

def mark (flag : BitVec 8) (logPage : Option (BitVec 32)) (f : CoffeeFile) : CoffeeFile :=
  let hdr :=
    { f.hdr with flags := f.hdr.flags ||| flag, logPage := logPage.getD f.hdr.logPage }
  { f with hdr := hdr.valid }

def obsolete (page : ℕ) : Files := fs.change page (mark flagObsolete none)

def put (page offset : ℕ) (bytes : List (BitVec 8)) : Files :=
  fs.change page fun f ↦ { f with data := writeLinear m.combine f.data offset bytes }

/-- The page of the log of a file. -/
def logPage (page : ℕ) : ℕ := ((fs page).map fun f ↦ f.hdr.logPage.toNat).getD 0

def isModified (page : ℕ) : Bool := ((fs page).map fun f ↦ f.hdr.modified).getD false

/-- What an operation does to the files. -/
def step : StoreOp → Files
  | .reserve name size page => fs.add page (newHeader name (pagesFor size) 0)
  | .createLog _ page logPage =>
    match fs page with
    | none => fs
    | some f =>
      let (logRecordSize, logRecords) := adjustLogConfig f.hdr
      (fs.add logPage (newHeader f.hdr.nameAt (pagesFor (logRecords * (2 + logRecordSize)))
        flagLog)).change page
        (mark flagModified (some (BitVec.ofNat 32 logPage)))
  | .remove _ page =>
    if fs.isModified page then (fs.obsolete (fs.logPage page)).obsolete page else fs.obsolete page
  | .write _ page offset bytes => fs.put m page offset bytes
  | .writeLog _ page offset bytes => fs.put m (fs.logPage page) offset bytes

end Files

/-- The storage holds the files. -/
structure Holds (s : Store) (fs : Files) : Prop where
  /-- The storage is a row of tiles, of which the files are some, and the search for free pages
  begins at one. -/
  row : ∃ ts, Row s.mem 0 ts pageCount ∧ Boundary Tile.pages 0 ts s.nextFree ∧
    ∀ p hdr, TileAt Tile.pages 0 ts p (.file hdr) ↔ ∃ f, fs p = some f ∧ f.hdr = hdr
  /-- The bytes of a file are in its pages. -/
  data : ∀ p f, fs p = some f → ∀ i, headerSize + i < f.hdr.pages * pageSize →
    s.mem (absoluteOffset p i) = f.data i
  /-- A file that has been modified has a log. -/
  log : ∀ p f, fs p = some f →
    if f.hdr.modified then ∃ g, fs f.hdr.logPage.toNat = some g ∧ g.hdr.log = true
      else f.hdr.logPage = 0

theorem pagesFor_pos (size : ℕ) : 0 < pagesFor size := by
  simp only [pagesFor, headerSize, pageSize]
  omega

namespace Holds

variable {m : Medium} {s s' : Store} {fs : Files} {p q : ℕ} {f g : CoffeeFile}

theorem isTile (h : Holds s fs) (hf : fs p = some f) :
    IsTile s.mem p (.file f.hdr) ∧ p + f.hdr.pages ≤ pageCount := by
  obtain ⟨ts, hrow, -, hfiles⟩ := h.row
  obtain ⟨htile, -, hle⟩ := hrow.isTile ((hfiles p f.hdr).mpr ⟨f, hf, rfl⟩)
  exact ⟨htile, hle⟩

/-- **Two files do not overlap.** -/
theorem separate (h : Holds s fs) (hf : fs p = some f) (hg : fs q = some g) (hne : q ≠ p) :
    q + g.hdr.pages ≤ p ∨ p + f.hdr.pages ≤ q := by
  obtain ⟨ts, -, -, hfiles⟩ := h.row
  rcases ((hfiles q g.hdr).mpr ⟨g, hg, rfl⟩).separate ((hfiles p f.hdr).mpr ⟨f, hf, rfl⟩)
      with h | h | h
  · exact Or.inl h
  · exact Or.inr h
  · exact absurd h.1 hne

/-- **A change of one file** leaves the others alone. -/
theorem change (h : Holds s fs) (hf : fs p = some f) {f' : CoffeeFile}
    (hnext : s'.nextFree = s.nextFree)
    (hhdr : readHeader s'.mem p = f'.hdr) (hpages : f'.hdr.pages = f.hdr.pages)
    (hkind : f'.hdr.allocated = true ∧ f'.hdr.isolated = false)
    (hout : ∀ a, a < p * pageSize ∨ (p + f.hdr.pages) * pageSize ≤ a → s'.mem a = s.mem a)
    (hdata : ∀ i, headerSize + i < f.hdr.pages * pageSize → s'.mem (absoluteOffset p i) = f'.data i)
    (hkeep : f.hdr.log = true → f'.hdr.log = true) (hlog : if f'.hdr.modified then
      ∃ g, fs f'.hdr.logPage.toNat = some g ∧ g.hdr.log = true else f'.hdr.logPage = 0) :
    Holds s' (Function.update fs p (some f')) where
  row := by
    obtain ⟨ts, hrow, hboundary, hfiles⟩ := h.row
    have htile := (h.isTile hf).1
    have hsame : (Tile.file f'.hdr).pages = (Tile.file f.hdr).pages := hpages
    have hnew : IsTile s'.mem p (.file f'.hdr) := ⟨hhdr, hkind.1, hkind.2, hpages ▸ htile.pages_pos⟩
    obtain ⟨ts', hrow', hsizes, hat⟩ := hrow.replace
      (fun _ _ ht ↦ ht.pages_pos) ((hfiles p f.hdr).mpr ⟨f, hf, rfl⟩) hsame
      hnew (fun x u hu hx ↦ hu.congr fun a hlo hhi ↦ by
        refine (hout a ?_).symm
        rcases hx with hx | hx
        · exact Or.inl (hhi.trans_le (Nat.mul_le_mul_right _ hx))
        · exact Or.inr ((Nat.mul_le_mul_right _ hx).trans hlo))
    refine ⟨ts', hrow', ?_, fun q hdr ↦ ?_⟩
    · rw [Boundary, hsizes, hnext]
      exact hboundary
    · rw [hat, hfiles, Function.update_apply]
      by_cases hq : q = p
      · simp [hq, eq_comm]
      · simp [hq]
  data q g hg i hi := by
    rw [Function.update_apply] at hg
    split_ifs at hg with hq
    · cases hg
      rw [hq]
      exact hdata i (hpages ▸ hi)
    · rw [← h.data q g hg i hi]
      refine hout _ ?_
      have hsep := h.separate hf hg hq
      simp only [absoluteOffset, pageSize] at *
      omega
  log q g hg := by
    have hstill : ∀ x, (∃ g, fs x = some g ∧ g.hdr.log = true) →
        ∃ g, Function.update fs p (some f') x = some g ∧ g.hdr.log = true := by
      rintro x ⟨u, hu, hlogged⟩
      by_cases hx : x = p
      · subst hx
        obtain rfl := Option.some.inj (hf.symm.trans hu)
        exact ⟨f', Function.update_self .., hkeep hlogged⟩
      · exact ⟨u, by rw [Function.update_of_ne hx, hu], hlogged⟩
    have hold : if g.hdr.modified then ∃ g', fs g.hdr.logPage.toNat = some g' ∧ g'.hdr.log = true
        else g.hdr.logPage = 0 := by
      rw [Function.update_apply] at hg
      split_ifs at hg with hq
      · cases hg
        exact hlog
      · exact h.log q g hg
    split_ifs at hold ⊢
    · exact hstill _ hold
    · exact hold

theorem newHeader_valid (name : ℕ → BitVec 8) {pages : ℕ} {flags : BitVec 8} (hlt : pages < 2 ^ 32)
    (hflags : flags = 0 ∨ flags = flagLog) :
    (newHeader name pages flags).valid.pages = pages ∧
      (newHeader name pages flags).valid.allocated = true ∧
      (newHeader name pages flags).valid.isolated = false ∧
      (newHeader name pages flags).valid.modified = false ∧
      (newHeader name pages flags).valid.logPage = 0 := by
  have hflag : ∀ flag, (newHeader name pages flags).valid.checkFlag flag
      = decide ((flagAllocated ||| flags ||| flagValid) &&& flag ≠ 0) := fun _ ↦ rfl
  refine ⟨(BitVec.toNat_ofNat pages 32).trans (Nat.mod_eq_of_lt hlt), ?_⟩
  simp only [FileHeader.allocated, FileHeader.isolated, FileHeader.modified, hflag]
  rcases hflags with rfl | rfl <;> exact ⟨by decide, by decide, by decide, rfl⟩

/-- No file begins in free pages. -/
theorem eq_none_of_clean (h : Holds s fs) {pages : ℕ} (hclean : Clean s.mem p pages)
    (hpages : 0 < pages) :
    fs p = none := by
  rcases hfile : fs p with _ | f
  · rfl
  · have htile := (h.isTile hfile).1
    rw [IsTile, readHeader_clean hclean hpages] at htile
    exact absurd htile.2.1 (by rw [← htile.1]; decide)

/-- A header that is written to free pages. -/
theorem readHeader_writeHeader_of_clean {mem : Memory} {pages : ℕ} (hclean : Clean mem p pages)
    (hpages : 0 < pages) (hdr : FileHeader) :
    readHeader (writeHeader m mem hdr p) p = hdr.valid := by
  refine readHeader_writeHeader fun i hi ↦ ?_
  rw [hclean _ (by omega) (by simp only [pageSize, headerSize] at *; omega)]
  simp

/-- A new file has no log, and it is not the log of another. -/
theorem log_add (h : Holds s fs) (hnew : fs p = none) {hdr : FileHeader}
    (hmod : hdr.valid.modified = false) (hzero : hdr.valid.logPage = 0)
    (hg : fs.add p hdr q = some g) :
    if g.hdr.modified then ∃ g', fs.add p hdr g.hdr.logPage.toNat = some g' ∧ g'.hdr.log = true
    else g.hdr.logPage = 0 := by
  rw [Files.add, Function.update_apply] at hg
  split_ifs at hg with hq
  · obtain rfl := Option.some.inj hg
    rw [hmod, if_neg Bool.false_ne_true, hzero]
  · have hold := h.log q g hg
    split_ifs at hold ⊢
    · obtain ⟨g', hg', hlogged⟩ := hold
      have hne : g.hdr.logPage.toNat ≠ p := fun heq ↦ by
        rw [heq, hnew] at hg'
        exact absurd hg' (by simp)
      exact ⟨g', (Function.update_of_ne hne ..).trans hg', hlogged⟩
    · exact hold

/-- **A new file** is one that was not there. -/
theorem add (h : Holds s fs) {name : ℕ → BitVec 8} {pages page : ℕ} {flags : BitVec 8}
    (hpages : 0 < pages)
    (hflags : flags = 0 ∨ flags = flagLog)
    (hfind : (findContiguousPages s.mem s.nextFree pages).1 = some page) :
    fs page = none ∧ (reservePages m s name pages flags).1 = some page ∧
      Holds (reservePages m s name pages flags).2 (fs.add page (newHeader name pages flags)) := by
  obtain ⟨ts, hrow, hboundary, hfiles⟩ := h.row
  obtain ⟨us, vs, rfl, hus, hvs⟩ := hrow.cut hboundary
  rcases findContiguousPages_spec hvs hpages with ⟨hnone, -⟩ | ⟨x, hsome, hfound, -⟩
  · exact absurd (hnone.symm.trans hfind) (by simp)
  obtain rfl : x = page := by
    rw [hsome] at hfind
    exact Option.some.inj hfind
  have hlt : pages < 2 ^ 32 := by
    have hfits := hfound.lt
    simp only [pageCount] at hfits
    omega
  obtain ⟨hsize, halloc, hiso, hmod, hzero⟩ := newHeader_valid name hlt hflags
  have hclean := hfound.clean
  have hnew := h.eq_none_of_clean hclean hpages
  set hdr := newHeader name pages flags
  have hwritten := readHeader_writeHeader_of_clean (m := m) hclean hpages hdr
  have hreserve : reservePages m s name pages flags
      = (some x, ⟨writeHeader m s.mem hdr x, if x = s.nextFree then x + pages
        else s.nextFree, s.gcWait⟩) := by
    rw [reservePages, hsome]
  obtain ⟨ts', hrow', hlo, hend, hat⟩ := hfound.allocate hus hwritten ⟨halloc, hiso⟩ hsize hpages
    fun a ha ↦ writeHeader_of_notMem ha
  rw [hreserve]
  refine ⟨hnew, rfl, ⟨ts', hrow', ?_, fun q u ↦ ?_⟩, fun q g hg i hi ↦ ?_,
    fun q g ↦ h.log_add hnew hmod hzero⟩
  · dsimp only
    split_ifs
    · exact hend
    · exact hlo
  · rw [hat, hfiles, Files.add, Function.update_apply]
    by_cases hq : q = x
    · subst hq
      simp [hnew, eq_comm]
    · simp [hq]
  · rw [Files.add, Function.update_apply] at hg
    split_ifs at hg with hq
    · subst hq
      obtain rfl := Option.some.inj hg
      change writeHeader m s.mem hdr q (absoluteOffset q i) = 0
      simp only [hsize] at hi
      rw [writeHeader_absoluteOffset]
      refine hclean _ ?_ ?_ <;> simp only [absoluteOffset, pageSize, headerSize] at * <;> omega
    · rw [← h.data q g hg i hi]
      refine writeHeader_of_notMem ?_
      -- the new file and the old one are both tiles
      have hsep := ((hat q g.hdr).mpr (Or.inr ((hfiles q g.hdr).mpr ⟨g, hg, rfl⟩))).separate
        ((hat x hdr.valid).mpr (Or.inl ⟨rfl, rfl⟩))
      simp only [Tile.pages, hsize, absoluteOffset, pageSize, headerSize] at *
      omega

theorem checkFlag_mark (flag flag' : BitVec 8) (logPage : Option (BitVec 32)) (f : CoffeeFile) :
    (Files.mark flag logPage f).hdr.checkFlag flag'
      = (f.hdr.checkFlag flag' || decide (flag &&& flag' ≠ 0) ||
        decide (flagValid &&& flag' ≠ 0)) := by
  rw [← FileHeader.checkFlag_or, ← FileHeader.checkFlag_or]
  rfl

/-- **A header is written again** with one flag more, and with the page of a log if it had none. -/
theorem mark (h : Holds s fs) (hf : fs p = some f) {flag : BitVec 8} {logPage : Option (BitVec 32)}
    (hzero : logPage = none ∨ f.hdr.logPage = 0) (hflag : flag &&& flagIsolated = 0)
    (hnext : s'.nextFree = s.nextFree) (hmem : s'.mem = writeHeader m s.mem
      { f.hdr with flags := f.hdr.flags ||| flag, logPage := logPage.getD f.hdr.logPage } p)
    (hlog : if (Files.mark flag logPage f).hdr.modified then
      ∃ g, fs (Files.mark flag logPage f).hdr.logPage.toNat = some g ∧ g.hdr.log = true
      else (Files.mark flag logPage f).hdr.logPage = 0) :
    Holds s' (fs.change p (Files.mark flag logPage)) := by
  obtain ⟨⟨hhdr, halloc, hiso, hpos⟩, hle⟩ := h.isTile hf
  rw [Files.change, hf, Option.map_some]
  refine h.change hf hnext ?_ rfl ⟨?_, ?_⟩ (fun a ha ↦ ?_) (fun i hi ↦ ?_) (fun hl ↦ ?_) hlog
  · rw [hmem]
    refine readHeader_writeHeader_of_le hhdr ?_
    have hpage : f.hdr.logPage = 0 ∨ f.hdr.logPage = logPage.getD f.hdr.logPage := by
      rcases hzero with rfl | hzero
      · exact Or.inr rfl
      · exact Or.inl hzero
    have hle := f.hdr.le_update (flag ||| flagValid) hpage
    rwa [← BitVec.or_assoc] at hle
  · rw [FileHeader.allocated, checkFlag_mark, ← FileHeader.allocated, halloc]
    rfl
  · rw [FileHeader.isolated, checkFlag_mark, ← FileHeader.isolated, hiso]
    simp [hflag]
    decide
  · rw [hmem]
    refine writeHeader_of_notMem ?_
    simp only [pageSize, headerSize] at *
    omega
  · rw [hmem, writeHeader_absoluteOffset]
    exact h.data p f hf i hi
  · rw [FileHeader.log, checkFlag_mark, ← FileHeader.log, hl]
    rfl

/-- **Bytes are written** into one file. -/
theorem put (h : Holds s fs) (hf : fs p = some f) {offset : ℕ} {bytes : List (BitVec 8)}
    (hin : InFile m f.hdr p offset bytes.length) :
    Holds { s with mem := m.write s.mem (absoluteOffset p offset) bytes }
      (fs.put m p offset bytes) := by
  obtain ⟨⟨hhdr, halloc, hiso, hpos⟩, hle⟩ := h.isTile hf
  have hlinear : m.write s.mem (absoluteOffset p offset) bytes
      = writeLinear m.combine s.mem (absoluteOffset p offset) bytes :=
    writePaged_eq_writeLinear _ _ _ hin.2
  have hsize := hin.1
  rw [Files.put, Files.change, hf, Option.map_some, hlinear]
  refine h.change hf rfl ?_ rfl ⟨halloc, hiso⟩ (fun a ha ↦ ?_) (fun i hi ↦ ?_) id (h.log p f hf)
  · refine (readHeader_congr fun i hi ↦ writeLinear_of_notMem _ _ _ (Or.inl ?_)).trans hhdr
    rw [absoluteOffset]
    omega
  · refine writeLinear_of_notMem _ _ _ ?_
    simp only [absoluteOffset, pageSize, headerSize] at *
    omega
  · exact writeLinear_base bytes (p * pageSize + headerSize) offset (h.data p f hf i hi)

/-- **A file is found by its name** if there is one, and then it is the first. -/
theorem find_eq_some_iff (h : Holds s fs) {name : ℕ → BitVec 8} {page : ℕ} :
    s.find name = some page ↔
    (∃ f, fs page = some f ∧ f.hdr.hasName name = true) ∧
      ∀ q < page, ∀ g, fs q = some g → g.hdr.hasName name = false := by
  obtain ⟨ts, hrow, -, hfiles⟩ := h.row
  have hlen : ts.length ≤ pageCount :=
    (Nat.le_add_left _ _).trans (hrow.length_le fun _ _ ht ↦ ht.pages_pos)
  rw [Store.find]
  rcases findFileLoop_eq ts hrow hlen with ⟨hnone, hall⟩ | ⟨pre, hdr, post, rfl, hname, hpre, hsome⟩
  · rw [hnone]
    refine ⟨fun hfind ↦ absurd hfind (by simp), ?_⟩
    rintro ⟨⟨f, hf, hname⟩, -⟩
    obtain ⟨pre, post, rfl, -⟩ := (hfiles page f.hdr).mpr ⟨f, hf, rfl⟩
    have hnot := hall (.file f.hdr) (by simp)
    rw [Tile.hasName, hname] at hnot
    exact absurd hnot (by simp)
  · obtain ⟨f, hf, rfl⟩ := (hfiles _ hdr).mp ⟨pre, post, rfl, rfl⟩
    have hleast : ∀ q < 0 + (pre.map Tile.pages).sum, ∀ g, fs q = some g →
      g.hdr.hasName name = false := by
      intro q hq g hg
      rcases tileAt_append.mp ((hfiles q g.hdr).mpr ⟨g, hg, rfl⟩) with ⟨as, bs, rfl, -⟩ | hbehind
      · exact hpre (.file g.hdr) (by simp)
      · exact absurd hbehind.le (by omega)
    rw [hsome]
    constructor
    · intro hfind
      obtain rfl := Option.some.inj hfind
      exact ⟨⟨f, hf, hname⟩, hleast⟩
    · rintro ⟨⟨g, hg, hgname⟩, hbefore⟩
      refine congrArg some (le_antisymm ?_ ?_) <;> by_contra hlt
      · exact absurd hgname (by rw [hleast page (by omega) g hg]; simp)
      · exact absurd hname (by rw [hbefore _ (by omega) f hf]; simp)

/-- What the search finds, with what the storage says about it. -/
theorem exists_of_find (h : Holds s fs) {name : ℕ → BitVec 8} {page : ℕ}
    (hfind : s.find name = some page) :
    ∃ f, fs page = some f ∧ readHeader s.mem page = f.hdr ∧ f.hdr.active = true ∧
      f.hdr.log = false := by
  obtain ⟨⟨f, hf, hname⟩, -⟩ := h.find_eq_some_iff.mp hfind
  simp only [FileHeader.hasName, Bool.and_eq_true, Bool.not_eq_true'] at hname
  exact ⟨f, hf, (h.isTile hf).1.1, hname.1.1, hname.1.2⟩

theorem obsolete (h : Holds s fs) (hf : fs p = some f) (hnext : s'.nextFree = s.nextFree)
    (hmem : s'.mem = writeHeader m s.mem { f.hdr with flags := f.hdr.flags ||| flagObsolete } p) :
    Holds s' (fs.obsolete p) := by
  refine h.mark hf (Or.inl rfl) rfl hnext hmem ?_
  have hmod : (Files.mark flagObsolete none f).hdr.modified = f.hdr.modified := by
    rw [FileHeader.modified, checkFlag_mark]
    exact (Bool.or_false _).trans (Bool.or_false _)
  rw [hmod]
  exact h.log p f hf

/-- A log that is made, and the header of its file. -/
theorem createLog (h : Holds s fs) (name : ℕ → BitVec 8) {page logPage : ℕ} (hf : fs page = some f)
    (hmod : f.hdr.modified = false) (hfind : (findContiguousPages s.mem s.nextFree
      (pagesFor ((adjustLogConfig f.hdr).2 * (2 + (adjustLogConfig f.hdr).1)))).1 = some logPage) :
    Holds (createLog m s page).2 (fs.step m (.createLog name page logPage)) := by
  obtain ⟨hnew, hres, hadd⟩ := @add m s fs h f.hdr.nameAt _ _ _ (pagesFor_pos _) (Or.inr rfl) hfind
  have hne : page ≠ logPage := fun heq ↦ by
    rw [← heq, hf] at hnew
    exact absurd hnew (by simp)
  have hzero : f.hdr.logPage = 0 := by
    have hlog := h.log page f hf
    rwa [hmod, if_neg Bool.false_ne_true] at hlog
  rw [Coffee.createLog, (h.isTile hf).1.1, Files.step, hf]
  rcases hconfig : adjustLogConfig f.hdr with ⟨logRecordSize, logRecords⟩
  rw [hconfig] at hadd hres
  simp only [hconfig] at hadd hres ⊢
  rcases hreserve : reservePages m s f.hdr.nameAt
      (pagesFor (logRecords * (2 + logRecordSize))) flagLog
    with ⟨o, s₁⟩
  rw [hreserve] at hadd hres
  obtain rfl : o = some logPage := hres
  dsimp only at hadd ⊢
  set hdr := newHeader f.hdr.nameAt (pagesFor (logRecords * (2 + logRecordSize))) flagLog
  have hfile : fs.add logPage hdr logPage = some ⟨hdr.valid, fun _ ↦ 0⟩ := Function.update_self ..
  have hlt : logPage < 2 ^ 32 := by
    have hle := (hadd.isTile hfile).2
    simp only [pageCount] at hle
    omega
  have hf₁ : fs.add logPage hdr page = some f := (Function.update_of_ne hne ..).trans hf
  have hto : (BitVec.ofNat 32 logPage).toNat = logPage :=
    (BitVec.toNat_ofNat logPage 32).trans (Nat.mod_eq_of_lt hlt)
  have hmodified : (Files.mark flagModified (some (BitVec.ofNat 32 logPage)) f).hdr.modified
      = true := by
    have hbit : decide (flagModified &&& flagModified ≠ 0) = true := by decide
    rw [FileHeader.modified, checkFlag_mark, hbit, Bool.or_true, Bool.true_or]
  have hlog : decide ((flagAllocated ||| flagLog ||| flagValid) &&& flagLog ≠ 0) = true := by decide
  have hlogged : ∃ g, fs.add logPage hdr (BitVec.ofNat 32 logPage).toNat = some g ∧
      g.hdr.log = true :=
    ⟨_, (congrArg (fs.add logPage hdr) hto).trans hfile, hlog⟩
  exact hadd.mark hf₁ (Or.inr hzero) rfl rfl rfl (by rwa [hmodified, if_pos rfl])

/-- A file that is removed, with its log if it has one. -/
theorem remove (h : Holds s fs) (name : ℕ → BitVec 8) {page : ℕ} (hf : fs page = some f)
    (hactive : f.hdr.active = true) (hlog : f.hdr.log = false)
    (hremove : removeWithLog m s page = some s') : Holds s' (fs.step m (.remove name page)) := by
  have hhdr := (h.isTile hf).1.1
  have hmod : fs.isModified page = f.hdr.modified := by rw [Files.isModified, hf]; rfl
  have hpage : fs.logPage page = f.hdr.logPage.toNat := by rw [Files.logPage, hf]; rfl
  rw [removeWithLog, hhdr, if_pos hactive] at hremove
  rw [Files.step, hmod, hpage]
  have hlogged := h.log page f hf
  split_ifs at hremove hlogged ⊢ with hmodified
  · obtain ⟨g, hg, hglog⟩ := hlogged
    obtain ⟨s₁, hs₁, rfl⟩ := Option.map_eq_some_iff.mp hremove
    rw [removeFile] at hs₁
    split_ifs at hs₁
    obtain rfl := Option.some.inj hs₁
    -- the log is not the file, which is not a log
    have hne : page ≠ f.hdr.logPage.toNat := fun heq ↦ by
      rw [← heq, hf] at hg
      obtain rfl := Option.some.inj hg
      exact absurd hglog (by rw [hlog]; exact Bool.false_ne_true)
    have h₁ : Holds (markObsolete m s f.hdr.logPage.toNat) (fs.obsolete f.hdr.logPage.toNat) :=
      h.obsolete hg rfl (by rw [markObsolete, (h.isTile hg).1.1])
    have hf₁ : fs.obsolete f.hdr.logPage.toNat page = some f := by
      rw [Files.obsolete, Files.change, Function.update_of_ne hne, hf]
    exact h₁.obsolete hf₁ rfl rfl
  · obtain rfl := Option.some.inj hremove
    exact h.obsolete hf rfl (by rw [markObsolete, hhdr])

/-- **Every operation does to the storage what it does to the files.** -/
theorem step (h : Holds s fs) {op : StoreOp} (hstep : s.step m op = some s') :
    Holds s' (fs.step m op) := by
  cases op with
  | reserve name size page =>
    simp only [Store.step] at hstep
    split_ifs at hstep with hfind
    obtain rfl := Option.some.inj hstep
    exact (h.add (pagesFor_pos size) (Or.inl rfl) hfind).2.2
  | createLog name page logPage =>
    simp only [Store.step] at hstep
    split_ifs at hstep with hguard
    obtain rfl := Option.some.inj hstep
    obtain ⟨f, hf, hhdr, -⟩ := h.exists_of_find hguard.1
    rw [hhdr] at hguard
    exact h.createLog name hf hguard.2.1 hguard.2.2
  | remove name page =>
    simp only [Store.step] at hstep
    split_ifs at hstep with hfind
    obtain ⟨f, hf, -, hactive, hlog⟩ := h.exists_of_find hfind
    exact h.remove name hf hactive hlog hstep
  | write name page offset bytes =>
    simp only [Store.step] at hstep
    split_ifs at hstep with hguard
    obtain rfl := Option.some.inj hstep
    obtain ⟨f, hf, hhdr, -⟩ := h.exists_of_find hguard.1
    rw [hhdr] at hguard
    exact h.put hf hguard.2
  | writeLog name page offset bytes =>
    simp only [Store.step] at hstep
    split_ifs at hstep with hguard
    obtain rfl := Option.some.inj hstep
    obtain ⟨f, hf, hhdr, -⟩ := h.exists_of_find hguard.1
    rw [hhdr] at hguard
    have hpage : fs.logPage page = f.hdr.logPage.toNat := by rw [Files.logPage, hf]; rfl
    have hlogged := h.log page f hf
    rw [if_pos hguard.2.1] at hlogged
    obtain ⟨g, hg, -⟩ := hlogged
    rw [hhdr, Files.step, hpage]
    rw [(h.isTile hg).1.1] at hguard
    exact h.put hg hguard.2.2

end Holds

/-! ## Formatting -/

section Format

variable (m : Medium)

end Format

end Coffee

end Martink
