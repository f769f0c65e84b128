import Martink.Fs.CoffeeLogIo
import Martink.Fs.CoffeeStore

/-!
# A file is an array of bytes

What `cfs_read` and `cfs_write` are for: a file is a row of bytes with an end, a write replaces some
of them and may move the end, and a read returns them. Where they are kept is not seen. As long as a
file is only appended to they are in its own pages, and the first write in front of its end makes a
log.
-/

namespace Martink

namespace Coffee

/-- What a file is to the programs that use it. -/
structure ByteFile where
  /-- The bytes. -/
  data : ℕ → BitVec 8
  /-- How many of them the file has. -/
  length : ℕ

def ByteFile.write (b : ByteFile) (w : ℕ × List (BitVec 8)) : ByteFile :=
  ⟨replaced b.data w.1 w.2, max b.length (w.1 + w.2.length)⟩

/-- The pages of the log of a file. -/
def logPages (hdr : FileHeader) : ℕ := pagesFor (hdr.records * (2 + hdr.recordSize))

/-- A write from an offset that is not behind the end, which returns the size it was given. If it
makes a log, then there is room without collecting garbage. -/
def writeStep (m : Medium) (n : ℕ) (p : Store × File) (w : ℕ × List (BitVec 8)) :
    Option (Store × File) :=
  let room := (findContiguousPages p.1.mem p.1.nextFree
      (logPages (readHeader p.1.mem p.2.page))).1.isSome
  if w.1 ≤ p.2.fileEnd ∧ (p.2.modified ∨ p.2.fileEnd ≤ w.1 ∨ room) then
    match cfsWrite m n p.1 p.2 w.1 w.2 with
    | .ok (r, s, file, _) => if r = w.2.length then some (s, file) else none
    | .error _ => none
  else none

section Log

variable {m : Medium} {s : Store} {fs : Files} {file : File} {f : CoffeeFile} {limit : ℕ}

/-- The counter of the chip does not turn inside of the storage. -/
def Medium.Linear (m : Medium) : Prop := pageCount * pageSize ≤ m.page

theorem Medium.Linear.mod_add_le (hm : m.Linear) {a len : ℕ}
    (hle : a + len ≤ pageCount * pageSize) :
    a % m.page + len ≤ m.page :=
  (Nat.add_le_add_right (Nat.mod_le a m.page) len).trans (hle.trans hm)

/-- The header of a file that has been given a log. -/
def withLog (hdr : FileHeader) (logPage : ℕ) : FileHeader :=
  { hdr with flags := hdr.flags ||| flagModified, logPage := BitVec.ofNat 32 logPage }

theorem createLog_eq (m : Medium) (s : Store) (page : ℕ) : createLog m s page
    = match reservePages m s (readHeader s.mem page).nameAt
        (logPages (readHeader s.mem page)) flagLog with
      | (none, s) => (none, s)
      | (some logPage, s₁) =>
        (some logPage, { s₁ with
          mem := writeHeader m s₁.mem (withLog (readHeader s.mem page) logPage) page }) := rfl

theorem recordSize_lt (hdr : FileHeader) : hdr.recordSize < 65536 := by
  rw [FileHeader.recordSize, adjustLogConfig]
  dsimp only
  split_ifs
  · decide
  · exact hdr.logRecordSize.isLt

theorem logPages_lt {hdr : FileHeader} (h : hdr.records < 32768) : logPages hdr < 2 ^ 32 := by
  have hmul := Nat.mul_le_mul h.le (Nat.add_le_add_left (recordSize_lt hdr).le 2)
  simp only [logPages, pagesFor, headerSize, pageSize]
  omega

/-- The log fits into its pages. -/
theorem logPages_spec (hdr : FileHeader) :
    headerSize + hdr.records * (2 + hdr.recordSize) ≤ logPages hdr * pageSize := by
  simp only [logPages, pagesFor, headerSize, pageSize]
  omega

/-- The log ends within its pages. -/
theorem recordAt_records_le (hdr : FileHeader) :
    recordAt hdr hdr.records ≤ (hdr.logPage.toNat + logPages hdr) * pageSize := by
  have hlast : recordAt hdr hdr.records
      = absoluteOffset hdr.logPage.toNat (hdr.records * (2 + hdr.recordSize)) := by
    rw [recordAt, absoluteOffset, absoluteOffset]
    ring
  have hspec := logPages_spec hdr
  rw [hlast, absoluteOffset, Nat.add_mul]
  omega

/-- A log in pages of the storage that are not those of its file. -/
theorem logRoom_of_pages (hm : m.Linear) {hdr : FileHeader} {page : ℕ}
    (hrecords : hdr.records < 32768)
    (hle : hdr.logPage.toNat + logPages hdr ≤ pageCount)
    (hsep : hdr.logPage.toNat + logPages hdr ≤ page ∨ page + hdr.pages ≤ hdr.logPage.toNat)
    (hlimit : headerSize + limit = hdr.pages * pageSize) : LogRoom m hdr page limit := by
  have hlast := recordAt_records_le hdr
  have hend := Nat.mul_le_mul_right pageSize hle
  refine ⟨hrecords, ?_, fun j hj ↦ ⟨hm.mod_add_le ?_, hm.mod_add_le ?_⟩⟩
  · rcases hsep with hbefore | hbehind
    · exact Or.inr (hlast.trans (Nat.mul_le_mul_right _ hbefore))
    · refine Or.inl ?_
      have hfile := Nat.mul_le_mul_right pageSize hbehind
      rw [Nat.add_mul, ← hlimit] at hfile
      rw [entryAt, absoluteOffset, absoluteOffset]
      omega
  · exact (entryAt_add_le hj _).trans (hlast.trans hend)
  · exact (recordAt_add_le hdr hj).trans (hlast.trans hend)

/-- The table and the records of a log without data are zero. -/
theorem zero_of_logData {mem : Memory} {hdr : FileHeader}
    (hdata : ∀ i, headerSize + i < logPages hdr * pageSize →
      mem (absoluteOffset hdr.logPage.toNat i) = 0)
    {a : ℕ} (hlo : entryAt hdr 0 ≤ a) (hhi : a < recordAt hdr hdr.records) : mem a = 0 := by
  obtain ⟨i, rfl⟩ := Nat.exists_eq_add_of_le hlo
  have hlast := hhi.trans_le (recordAt_records_le hdr)
  rw [entryAt, absoluteOffset, Nat.add_mul] at hlast
  exact hdata i (by omega)

theorem modified_withLog (f : CoffeeFile) (logPage : ℕ) :
    (withLog f.hdr logPage).valid.modified = true := by
  have hmark := Holds.checkFlag_mark flagModified flagModified (some (BitVec.ofNat 32 logPage)) f
  rw [show decide (flagModified &&& flagModified ≠ 0) = true by decide, Bool.or_true,
    Bool.true_or] at hmark
  exact hmark

/-- The log that is made is one more file, and the header of its own file has changed. -/
theorem Holds.exists_createLog (h : Holds s fs) (hf : fs file.page = some f)
    (hmod : f.hdr.modified = false) (hrecords : f.hdr.records < 32768) {logPage : ℕ}
    (hfind : (findContiguousPages s.mem s.nextFree (logPages f.hdr)).1 = some logPage) :
    (Coffee.createLog m s file.page).1 = some logPage ∧ file.page ≠ logPage ∧
      ∃ fs' g, Holds (Coffee.createLog m s file.page).2 fs' ∧ g.pages = logPages f.hdr ∧
        fs' file.page = some ⟨(withLog f.hdr logPage).valid, f.data⟩ ∧
        fs' logPage = some ⟨g, fun _ ↦ 0⟩ := by
  have hhdr := (h.isTile hf).1.1
  obtain ⟨hnew, hres, -⟩ := @add m s fs h f.hdr.nameAt _ _ _ (pagesFor_pos _) (Or.inr rfl) hfind
  have hne : file.page ≠ logPage := fun heq ↦ by
    rw [← heq, hf] at hnew
    exact absurd hnew (by simp)
  refine ⟨?_, hne, fs.step m (.createLog (fun _ ↦ 0) file.page logPage),
    (newHeader f.hdr.nameAt (logPages f.hdr) flagLog).valid, h.createLog (fun _ ↦ 0) hf hmod hfind,
    (newHeader_valid _ (logPages_lt hrecords) (Or.inr rfl)).1, ?_, ?_⟩
  · rw [createLog_eq, hhdr]
    rcases hreserve : reservePages m s f.hdr.nameAt (logPages f.hdr) flagLog with ⟨o, s₁⟩
    rw [logPages] at hreserve
    rw [hreserve] at hres
    obtain rfl : o = some logPage := hres
    rfl
  all_goals
    have hstep : fs.step m (.createLog (fun _ ↦ 0) file.page logPage)
        = (fs.add logPage (newHeader f.hdr.nameAt (logPages f.hdr) flagLog)).change file.page
          (Files.mark flagModified (some (BitVec.ofNat 32 logPage))) := by
      rw [Files.step, hf]
      rfl
    rw [hstep, Files.change]
  · rw [Function.update_self, Files.add, Function.update_of_ne hne, hf]
    rfl
  · rw [Function.update_of_ne hne.symm, Files.add, Function.update_self]

/-- **A log that is made** is empty, and the file holds what it did. -/
theorem Holds.hasLog_createLog (hm : m.Linear) (h : Holds s fs) (hf : fs file.page = some f)
    (hmod : f.hdr.modified = false) (hrecords : f.hdr.records < 32768)
    (hlimit : headerSize + limit = f.hdr.pages * pageSize) {logPage : ℕ}
    (hfind : (findContiguousPages s.mem s.nextFree (logPages f.hdr)).1 = some logPage) :
    (Coffee.createLog m s file.page).1 = some logPage ∧
      HasLog m (Coffee.createLog m s file.page).2 { file with modified := true, recordCount := 0 }
        (withLog f.hdr logPage).valid limit f.data := by
  obtain ⟨hfst, hne, fs', g, hholds, hpages, hfile, hlog⟩ := h.exists_createLog (m := m) hf hmod
    hrecords hfind
  have hsep := hholds.separate hfile hlog hne.symm
  have hle := (hholds.isTile hlog).2
  have hzero := hholds.data _ _ hlog
  dsimp only at hsep hle hzero
  rw [hpages] at hsep hle hzero
  have hto : (withLog f.hdr logPage).valid.logPage.toNat = logPage := by
    refine (BitVec.toNat_ofNat logPage 32).trans (Nat.mod_eq_of_lt ?_)
    simp only [pageCount] at hle
    omega
  refine ⟨hfst, rfl, 0, ⟨?_, (hholds.isTile hfile).1.1, modified_withLog f logPage, Nat.zero_le _,
    fun a ha ↦ ?_⟩, Or.inl rfl, fun i hi ↦ hholds.data _ _ hfile i ?_⟩
  · exact logRoom_of_pages hm hrecords (hto.symm ▸ hle) (hto.symm ▸ hsep) hlimit
  · -- the entries and the records lie in the pages that were zero
    set hdr := (withLog f.hdr logPage).valid
    have htable : entryAt hdr 0 ≤ entryAt hdr hdr.records := Nat.le_add_right _ _
    have hfirst := recordAt_zero hdr
    have hrecord : recordAt hdr 0 ≤ recordAt hdr hdr.records := recordAt_le (Nat.zero_le _)
    have hdata (i : ℕ) (hi : headerSize + i < logPages hdr * pageSize) :
        (Coffee.createLog m s file.page).2.mem (absoluteOffset hdr.logPage.toNat i) = 0 := by
      rw [hto]
      exact hzero i hi
    exact zero_of_logData hdata (by omega) (by omega)
  · exact (Nat.add_lt_add_left hi headerSize).trans_eq hlimit

theorem HasLog.congr {hdr : FileHeader} {data data' : ℕ → BitVec 8}
    (h : HasLog m s file hdr limit data)
    (hdata : ∀ i < limit, data i = data' i) : HasLog m s file hdr limit data' := by
  obtain ⟨hmodified, k, hlogged, hcount, hcontent⟩ := h
  exact ⟨hmodified, k, hlogged, hcount, fun i hi ↦ (hcontent i hi).trans (hdata i hi)⟩

/-- **The first page of a log** is written as if the log had been there. -/
theorem writeLogPage_createLog {hdr : FileHeader} (hhdr : readHeader s.mem file.page = hdr)
    (hmod : hdr.modified = false) {logPage : ℕ} {s' : Store}
    (hcreate : createLog m s file.page = (some logPage, s'))
    (hlog : HasLog m s' { file with modified := true, recordCount := 0 }
    (withLog hdr logPage).valid limit f.data)
    (hrecords : 0 < hdr.records) (offset : ℕ) (buf : List (BitVec 8)) (size : ℕ) :
    writeLogPage m s file offset buf size
      = writeLogPage m s' { file with modified := true, recordCount := 0 } offset buf size := by
  obtain ⟨-, k, hlogged, -⟩ := hlog
  have hleft : writeLogPage m s file offset buf size
      = (writeRecord m s' { file with modified := true }
      (withLog hdr logPage) 0 offset buf size).map fun r ↦ (some r.1, r.2) := by
    rw [writeLogPage, hhdr]
    simp only [hmod, hcreate]
    rfl
  rw [hleft, writeLogPage, hlogged.read, if_pos hlogged.modified]
  exact (if_neg (not_le.mpr hrecords)).symm

theorem writeLoop_createLog {hdr : FileHeader} (hhdr : readHeader s.mem file.page = hdr)
    (hmod : hdr.modified = false) {logPage : ℕ} {s' : Store}
    (hcreate : createLog m s file.page = (some logPage, s'))
    (hlog : HasLog m s' { file with modified := true, recordCount := 0 }
    (withLog hdr logPage).valid limit f.data)
    (hrecords : 0 < hdr.records) (n offset : ℕ) (d : BitVec 8) (ds : List (BitVec 8)) :
    writeLoop m n s file offset (d :: ds)
      = writeLoop m n s' { file with modified := true, recordCount := 0 } offset (d :: ds) := by
  cases n with
  | zero => rfl
  | succ n =>
    have hfirst := writeLogPage_createLog hhdr hmod hcreate hlog hrecords offset (d :: ds)
      ((ds.length + 1) % 65536)
    rw [writeLoop, writeLoop, hfirst]

end Log

/-! ## Runs -/

/-- The file is in its own pages, and what lies behind its end has not been written. -/
structure Plain (s : Store) (file : File) (limit : ℕ) (data : ℕ → BitVec 8) : Prop where
  /-- The open file has no log. -/
  modified : file.modified = false
  /-- The storage holds the file without a log, and with the bytes. -/
  files : ∃ fs, Holds s fs ∧ ∃ f, fs file.page = some f ∧ f.hdr.modified = false ∧
    0 < f.hdr.records ∧ f.hdr.records < 32768 ∧ limit ≤ 65535 * f.hdr.recordSize ∧
    headerSize + limit = f.hdr.pages * pageSize ∧ ∀ i < limit, f.data i = data i
  /-- They are zero behind the end. -/
  behind : ∀ i, file.fileEnd ≤ i → i < limit → data i = 0

/-- The open file is an array of bytes. -/
structure IsBytes (m : Medium) (p : Store × File) (b : ByteFile) : Prop where
  /-- The ends agree. -/
  length : p.2.fileEnd = b.length
  /-- They are within the pages of the file. -/
  fits : headerSize + b.length ≤ p.2.maxPages * pageSize
  /-- The bytes are in the pages, or also in a log. -/
  data : ∃ limit, headerSize + limit = p.2.maxPages * pageSize ∧
    (Plain p.1 p.2 limit b.data ∨ ∃ hdr, limit ≤ 65535 * hdr.recordSize ∧
      HasLog m p.1 p.2 hdr limit b.data)

section Run

variable {m : Medium} {s s' : Store} {file file' : File} {limit : ℕ} {data : ℕ → BitVec 8}

/-- **Reading a file returns its bytes.** -/
theorem IsBytes.cfsRead {b : ByteFile} (h : IsBytes m (s, file) b) {n offset size : ℕ}
    (hn : size ≤ n)
    (hsize : size < 65536) (hend : offset + size ≤ b.length) :
    Coffee.cfsRead s.mem file n offset size = some (bytesAt b.data offset size) := by
  obtain ⟨hlength, hfits, limit, hlimit, hdata⟩ := h
  dsimp only at hlength hfits hlimit hdata
  rcases hdata with hplain | ⟨hdr, hregion, hlog⟩
  · obtain ⟨fs, hholds, f, hf, -, -, -, -, hpages, hdata⟩ := hplain.files
    rw [Coffee.cfsRead, hplain.modified, if_neg Bool.false_ne_true, if_neg (by omega)]
    refine congrArg some (List.map_congr_left fun i hi ↦ ?_)
    have hi := List.mem_range.mp hi
    rw [← hdata _ (by omega), ← hholds.data _ _ hf _ (by omega)]
    exact congrArg s.mem (Nat.add_assoc _ _ _)
  · obtain ⟨hmodified, k, hlogged, hcount, hdata⟩ := hlog
    have hlt := hlogged.room.records_lt
    have hle := hlogged.le
    have hsearch : searched hdr file.recordCount = k ∨
        searched hdr file.recordCount = hdr.records := by
      rcases hcount with hknown | ⟨hneg, -⟩
      · exact Or.inl (by rw [hknown, searched_natCast])
      · exact Or.inr (if_pos hneg)
    have hread := hlogged.read
    rw [cfsRead_of_modified hmodified, hread, Nat.min_eq_left (by omega),
      readLoop_eq rfl (by omega) hn hsize (by omega)]
    refine congrArg some (List.map_congr_left fun i hi ↦ ?_)
    have hi := List.mem_range.mp hi
    rw [← hdata _ (by omega), content, content]
    rcases hsearch with hk | hall
    · rw [hk]
    · rw [hall, hlogged.lookup_of_le hle le_rfl]

/-- Bytes that are appended. -/
theorem Plain.append (hm : m.Linear) (h : Plain s file limit data) {offset : ℕ}
    {buf : List (BitVec 8)}
    (hoffset : offset = file.fileEnd) (hfits : offset + buf.length ≤ limit) :
    Plain { s with mem := m.write s.mem (absoluteOffset file.page offset) buf }
      { file with fileEnd := max file.fileEnd (offset + buf.length) } limit
        (replaced data offset buf) := by
  obtain ⟨fs, hholds, f, hf, hmod, hpos, hlt, hregion, hpages, hdata⟩ := h.files
  have hle := (hholds.isTile hf).2
  have hin : InFile m f.hdr file.page offset buf.length := by
    refine ⟨by omega, hm.mod_add_le ?_⟩
    simp only [absoluteOffset, pageSize, headerSize, pageCount] at *
    omega
  refine ⟨h.modified, ⟨_, hholds.put hf hin,
    ⟨f.hdr, writeLinear m.combine f.data offset buf⟩, ?_, hmod, hpos, hlt,
    hregion, hpages, fun i hi ↦ ?_⟩, fun i hi hlim ↦ ?_⟩
  · rw [Files.put, Files.change, Function.update_self, hf]
    rfl
  · rw [replaced_apply]
    split_ifs with hat
    · obtain ⟨j, rfl⟩ := Nat.exists_eq_add_of_le hat.1
      have hj : j < buf.length := by omega
      dsimp only
      rw [writeLinear_add buf _ _ hj, hdata _ hi, h.behind _ (by omega) hi, combine_zero]
      simp only [Nat.add_sub_cancel_left]
    · rw [← hdata i hi]
      exact writeLinear_of_notMem _ _ _ (by omega)
  · dsimp only at hi
    rw [replaced_apply, dif_neg (by omega)]
    exact h.behind i (by omega) hlim

/-- **A write through a log**, which may be made as the loop begins. -/
theorem HasLog.cfsWrite {s₁ : Store} {file₁ : File} {hdr : FileHeader} {b : ByteFile}
    (h : HasLog m s₁ file₁ hdr limit b.data) (hregion : limit ≤ 65535 * hdr.recordSize)
    (hlimit : headerSize + limit = file₁.maxPages * pageSize) (hlength : file₁.fileEnd = b.length)
    (hfits : b.length ≤ limit) {n offset offset' : ℕ} {buf : List (BitVec 8)} {r : ℤ}
    (hend : offset + buf.length ≤ limit) (hoffset : offset ≤ file₁.fileEnd)
    (hloop : Coffee.writeLoop m n s file offset buf = Coffee.writeLoop m n s₁ file₁ offset buf)
    (hlog : file.modified ∨ offset < file.fileEnd)
    (hwrite : Coffee.cfsWrite m n s file offset buf = .ok (r, s', file', offset')) :
    IsBytes m (s', file') (b.write (offset, buf)) := by
  rw [Coffee.cfsWrite, hloop, if_pos hlog] at hwrite
  split_ifs at hwrite
  rcases hrun : Coffee.writeLoop m n s₁ file₁ offset buf with stop | ⟨s₂, file₂, offset₂, rest⟩ <;>
    rw [hrun] at hwrite
  · cases hwrite
  · obtain ⟨rfl, hoffset₂, hlogged, hfile⟩ := h.writeLoop (by omega) hoffset hrun
    have hfileEnd : file₂.fileEnd = max file₁.fileEnd offset₂ := by rw [hfile]
    have hmaxPages : file₂.maxPages = file₁.maxPages := by rw [hfile]
    have hle : ¬file₂.fileEnd < offset₂ := by omega
    simp only [ne_eq, not_true_eq_false, false_and, if_false, if_neg hle] at hwrite
    cases hwrite
    refine ⟨?_, ?_, limit, ?_, Or.inr ⟨hdr, hregion, hlogged⟩⟩
    · simp only [ByteFile.write]
      omega
    · simp only [ByteFile.write, hmaxPages]
      omega
    · simp only [hmaxPages]
      exact hlimit

/-- **A write at the end** of a file that was only appended to. -/
theorem Plain.cfsWrite_end (hm : m.Linear) {b : ByteFile} (h : Plain s file limit b.data)
    (hlimit : headerSize + limit = file.maxPages * pageSize) (hlength : file.fileEnd = b.length)
    {n offset offset' : ℕ} {buf : List (BitVec 8)} {r : ℤ} (hoffset : offset = file.fileEnd)
    (hend : offset + buf.length ≤ limit)
    (hwrite : Coffee.cfsWrite m n s file offset buf = .ok (r, s', file', offset')) :
    IsBytes m (s', file') (b.write (offset, buf)) := by
  have hlog : ¬(file.modified = true ∨ offset < file.fileEnd) := by
    rw [h.modified]
    simp [hoffset]
  rw [Coffee.cfsWrite, if_neg hlog] at hwrite
  split_ifs at hwrite
  cases hwrite
  refine ⟨?_, ?_, limit, hlimit, Or.inl (h.append hm hoffset hend)⟩ <;>
  · simp only [ByteFile.write]
    omega

/-- **A write before the end** makes the log, if there is something to write. -/
theorem Plain.cfsWrite_before (hm : m.Linear) {b : ByteFile} (h : Plain s file limit b.data)
    (hlimit : headerSize + limit = file.maxPages * pageSize) (hlength : file.fileEnd = b.length)
    (hfits : b.length ≤ limit) {n offset offset' : ℕ} {buf : List (BitVec 8)} {r : ℤ}
    (hoffset : offset < file.fileEnd) (hend : offset + buf.length ≤ limit)
    (hfound : (findContiguousPages s.mem s.nextFree
      (logPages (readHeader s.mem file.page))).1.isSome)
    (hwrite : Coffee.cfsWrite m n s file offset buf = .ok (r, s', file', offset')) :
    IsBytes m (s', file') (b.write (offset, buf)) := by
  obtain _ | ⟨d, ds⟩ := buf
  · have hrun : writeLoop m n s file offset [] = .ok (s, file, offset, []) := by cases n <;> rfl
    rw [Coffee.cfsWrite, if_pos (Or.inr hoffset), hrun] at hwrite
    split_ifs at hwrite
    simp only [ne_eq, not_true_eq_false, false_and, if_false, if_neg (not_lt.mpr hoffset.le),
      max_eq_left hoffset.le] at hwrite
    cases hwrite
    have hsame : b.write (offset, []) = ⟨b.data, b.length⟩ :=
      congrArg (ByteFile.mk b.data) (max_eq_left (show offset + 0 ≤ b.length by omega))
    rw [hsame]
    exact ⟨hlength, by dsimp only; omega, limit, hlimit, Or.inl h⟩
  · obtain ⟨fs, hholds, f, hf, hmod, hpos, hlt, hregion, hpages, hdata⟩ := h.files
    have hhdr := (hholds.isTile hf).1.1
    rw [hhdr] at hfound
    obtain ⟨logPage, hfind⟩ := Option.isSome_iff_exists.mp hfound
    obtain ⟨hfst, hmade⟩ := hholds.hasLog_createLog hm hf hmod hlt hpages hfind
    have hcreate : createLog m s file.page = (some logPage, (createLog m s file.page).2) :=
      Prod.ext hfst rfl
    have hloop := writeLoop_createLog hhdr hmod hcreate hmade hpos n offset d ds
    exact (hmade.congr hdata).cfsWrite hregion hlimit hlength hfits hend hoffset.le hloop
      (Or.inr hoffset) hwrite

/-- The call in a step. -/
theorem exists_cfsWrite_of_writeStep {n : ℕ} {p' : Store × File} {w : ℕ × List (BitVec 8)}
    (hstep : writeStep m n (s, file) w = some p') :
    w.1 ≤ file.fileEnd ∧ (file.modified ∨ file.fileEnd ≤ w.1 ∨
      (findContiguousPages s.mem s.nextFree (logPages (readHeader s.mem file.page))).1.isSome) ∧
    ∃ r offset', Coffee.cfsWrite m n s file w.1 w.2 = .ok (r, p'.1, p'.2, offset') := by
  rw [writeStep] at hstep
  dsimp only at hstep
  split_ifs at hstep with hguard
  refine ⟨hguard.1, hguard.2, ?_⟩
  rcases hwrite : Coffee.cfsWrite m n s file w.1 w.2 with stop | ⟨r, s', file', offset'⟩ <;>
    rw [hwrite] at hstep
  · cases hstep
  · dsimp only at hstep
    split_ifs at hstep
    cases hstep
    exact ⟨r, offset', rfl⟩

/-- **One write.** -/
theorem IsBytes.step (hm : m.Linear) {p p' : Store × File} {b : ByteFile}
    (h : IsBytes m p b) {n : ℕ}
    {w : ℕ × List (BitVec 8)} (hstep : writeStep m n p w = some p') : IsBytes m p' (b.write w) := by
  obtain ⟨s, file⟩ := p
  obtain ⟨s', file'⟩ := p'
  obtain ⟨offset, buf⟩ := w
  obtain ⟨hoffset, hguard, r, offset', hwrite⟩ := exists_cfsWrite_of_writeStep hstep
  obtain ⟨hlength, hfits, limit, hlimit, hdata⟩ := h
  dsimp only at hlength hfits hlimit hdata hoffset hguard hwrite
  have hle : b.length ≤ limit := by omega
  have hend : offset + buf.length ≤ limit := by
    have hroom := hwrite
    rw [Coffee.cfsWrite] at hroom
    split_ifs at hroom <;> omega
  rcases hdata with hplain | ⟨hdr, hregion, hlogged⟩
  · rcases hoffset.lt_or_eq with hlt | heq
    · have hmodified : ¬file.modified = true := by
        rw [hplain.modified]
        exact Bool.false_ne_true
      have hfound := (hguard.resolve_left hmodified).resolve_left (not_le.mpr hlt)
      exact hplain.cfsWrite_before hm hlimit hlength hle hlt hend hfound hwrite
    · exact hplain.cfsWrite_end hm hlimit hlength heq hend hwrite
  · exact hlogged.cfsWrite hregion hlimit hlength hle hend hoffset rfl (Or.inl hlogged.1) hwrite

end Run

end Coffee

end Martink
