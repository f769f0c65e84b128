import Martink.Fs.CoffeeLog

/-!
# Reading and writing with a log

`cfs_read` and `cfs_write` of `cfs-coffee.c`, once the file descriptor is known to be good. Both go
over a file that has a log in pieces, none of which goes past a region. A piece is read from the
last record of its region, and from the file if there is none. A piece is written to a new record,
after what the region holds besides has been copied into it.

Where the code would go on with a merged file, or copies through a null pointer, the model stops and
says so.
-/

namespace Martink

namespace Coffee

/-- `struct file`, without its reference count. -/
structure File where
  /-- The first page. -/
  page : ℕ
  /-- The number of its pages. -/
  maxPages : ℕ
  /-- The end, in bytes. -/
  fileEnd : ℕ
  /-- How many records its log has, or -1. -/
  recordCount : ℤ
  /-- It has a log. -/
  modified : Bool

/-- Where the model ends. `turns` is a loop that does not. -/
inductive LogStop
  | merge | nullRead | turns
deriving DecidableEq

/-- `modify_log_buffer`: the region, and the offset and the size in it. -/
def modifyLogBuffer (logRecordSize offset size : ℕ) : ℕ × ℕ × ℕ :=
  (offset / logRecordSize % 65536, offset % logRecordSize,
    min size (logRecordSize - offset % logRecordSize))

/-- `read_log_page`: the address that is read, if there is a record, and the size. -/
def readLogPage (mem : Memory) (hdr : FileHeader) (recordCount : ℤ) (offset size : ℕ) :
    Option ℕ × ℕ :=
  let (logRecordSize, logRecords) := adjustLogConfig hdr
  let (region, offset, size) := modifyLogBuffer logRecordSize offset size
  let searchRecords := if recordCount < 0 then logRecords else recordCount.toNat
  let matchIndex := getRecordIndex mem hdr.logPage.toNat searchRecords region
  (if matchIndex < 0 then none
    else some (absoluteOffset hdr.logPage.toNat (2 * logRecords) + matchIndex.toNat * logRecordSize
      + offset), size)

/-- The loop of `cfs_read`, with at most `n` turns. The size of a piece is a `uint16_t`. -/
def readLoop (mem : Memory) (hdr : FileHeader) (file : File) : ℕ → ℕ → ℕ → Option (List (BitVec 8))
  | _, _, 0 => some []
  | 0, _, _ + 1 => none
  | n + 1, offset, bytesLeft + 1 =>
    let r := readLogPage mem hdr file.recordCount offset ((bytesLeft + 1) % 65536)
    let base := r.1.getD (absoluteOffset file.page offset)
    (readLoop mem hdr file n (offset + r.2) (bytesLeft + 1 - r.2)).map (bytesAt mem base r.2 ++ ·)

/-- `cfs_read` from an offset that is not behind the end. -/
def cfsRead (mem : Memory) (file : File) (n offset size : ℕ) : Option (List (BitVec 8)) :=
  let size := if file.fileEnd < offset + size then file.fileEnd - offset else size
  if file.modified then readLoop mem (readHeader mem file.page) file n offset size
  else some (bytesAt mem (absoluteOffset file.page offset) size)

variable (m : Medium)

/-- The end of `write_log_page`: the entry of the table and the record are written. -/
def putRecord (s : Store) (logPage logRecords logRecord logRecordSize region : ℕ)
    (copyBuf : List (BitVec 8)) :
    Store :=
  let entry := BitVec.ofNat 16 (region + 1)
  let mem := m.write s.mem (absoluteOffset logPage 0 + 2 * logRecord)
      [byteOf entry 0, byteOf entry 1]
  { s with mem :=
      m.write mem (absoluteOffset logPage 0 + 2 * logRecords + logRecord * logRecordSize) copyBuf }

/-- `memcpy` into a buffer. -/
def copied (buf : List (BitVec 8)) (offset : ℕ) (bytes : List (BitVec 8)) : List (BitVec 8) :=
  buf.take offset ++ bytes ++ buf.drop (offset + bytes.length)

/-- `write_log_page` once there is a log. `hdr` is the header of the file, and the record that is
written is the next one. -/
def writeRecord (s : Store) (file : File) (hdr : FileHeader) (logRecord : ℕ) (offset : ℕ)
    (buf : List (BitVec 8)) (size : ℕ) : Except LogStop (ℕ × Store × File) :=
  let (logRecordSize, logRecords) := adjustLogConfig hdr
  let (region, offset, size) := modifyLogBuffer logRecordSize offset size
  let regionOffset := region * logRecordSize
  if (0 < offset ∨ size ≠ logRecordSize) ∧
      (readLogPage s.mem hdr logRecord regionOffset logRecordSize).1.isSome then
    -- what is in the record is read through `lp_out.read_buf`, which is zero
    .error .nullRead
  else
    let copyBuf := copied
        (bytesAt s.mem (absoluteOffset file.page regionOffset) logRecordSize) offset
      (buf.take size)
    .ok (size, putRecord m s hdr.logPage.toNat logRecords logRecord logRecordSize region copyBuf,
      { file with recordCount := s16 (logRecord + 1) })

/-- `write_log_page`. Without a size it failed; a merge is not carried out. -/
def writeLogPage (s : Store) (file : File) (offset : ℕ) (buf : List (BitVec 8)) (size : ℕ) :
    Except LogStop (Option ℕ × Store × File) :=
  let hdr := readHeader s.mem file.page
  if hdr.modified then
    let logRecords := (adjustLogConfig hdr).2
    let logRecord := findNextRecord s.mem file.recordCount hdr.logPage.toNat logRecords % 65536
    if logRecords ≤ logRecord then .error .merge
    else (writeRecord m s file hdr logRecord offset buf size).map fun r ↦ (some r.1, r.2)
  else
    match createLog m s file.page with
    | (none, s) => .ok (none, s, file)
    | (some logPage, s) =>
      let hdr :=
        { hdr with flags := hdr.flags ||| flagModified, logPage := BitVec.ofNat 32 logPage }
      (writeRecord m s { file with modified := true } hdr 0 offset buf size).map fun r ↦
        (some r.1, r.2)

/-- The loop of `cfs_write`, with at most `n` turns: what is still to be written when it ends is
returned last. -/
def writeLoop : ℕ → Store → File → ℕ → List (BitVec 8) →
    Except LogStop (Store × File × ℕ × List (BitVec 8))
  | _, s, file, offset, [] => .ok (s, file, offset, [])
  | 0, _, _, _, _ :: _ => .error .turns
  | n + 1, s, file, offset, d :: ds =>
    match writeLogPage m s file offset (d :: ds) ((ds.length + 1) % 65536) with
    | .error stop => .error stop
    | .ok (none, s, file) => .ok (s, file, offset, d :: ds)
    | .ok (some i, s, file) =>
      let file := if i = 0 then file else { file with fileEnd := max file.fileEnd (offset + i) }
      writeLoop n s file (offset + i) ((d :: ds).drop i)

/-- `cfs_write`: what it returns, and the offset of the file descriptor afterwards. -/
def cfsWrite (n : ℕ) (s : Store) (file : File) (offset : ℕ) (buf : List (BitVec 8)) :
    Except LogStop (ℤ × Store × File × ℕ) :=
  if file.maxPages * pageSize < buf.length + offset + headerSize then .error .merge
  else if file.modified ∨ offset < file.fileEnd then
    match writeLoop m n s file offset buf with
    | .error stop => .error stop
    | .ok (s, file, offset, rest) =>
      if rest ≠ [] ∧ rest.length = buf.length then .ok (-1, s, file, offset)
      else
        let s := if file.fileEnd < offset then
          { s with mem := m.write s.mem (absoluteOffset file.page offset) [0xff] }
          else s
        .ok (buf.length, s, { file with fileEnd := max file.fileEnd offset }, offset)
  else
    let offset' := offset + buf.length
    .ok (buf.length, { s with mem := m.write s.mem (absoluteOffset file.page offset) buf },
      { file with fileEnd := max file.fileEnd offset' }, offset')

/-! ## What a file with a log holds -/

def FileHeader.recordSize (hdr : FileHeader) : ℕ := (adjustLogConfig hdr).1

def FileHeader.records (hdr : FileHeader) : ℕ := (adjustLogConfig hdr).2

def recordAt (hdr : FileHeader) (j : ℕ) : ℕ :=
  absoluteOffset hdr.logPage.toNat 0 + 2 * hdr.records + j * hdr.recordSize

/-- The bytes of the file at `page`, of whose log the first `k` records count. -/
def content (mem : Memory) (hdr : FileHeader) (page k i : ℕ) : BitVec 8 :=
  match lookup mem hdr.logPage.toNat (i / hdr.recordSize) k with
  | some j => mem (recordAt hdr j + i % hdr.recordSize)
  | none => mem (absoluteOffset page i)

section Read

variable {mem : Memory} {hdr : FileHeader} {page k offset size : ℕ} {recordCount : ℤ}

theorem recordSize_pos (hdr : FileHeader) : 0 < hdr.recordSize := by
  rw [FileHeader.recordSize, adjustLogConfig]
  dsimp only
  split_ifs with hzero
  · exact Nat.zero_lt_succ _
  · exact Nat.pos_of_ne_zero fun h ↦ hzero (BitVec.eq_of_toNat_eq h)

/-- The records among which a piece is looked for. -/
def searched (hdr : FileHeader) (recordCount : ℤ) : ℕ :=
  if recordCount < 0 then hdr.records else recordCount.toNat

@[simp] theorem searched_natCast (k : ℕ) : searched hdr k = k :=
  if_neg (not_lt.mpr (Int.natCast_nonneg k))

/-- A piece that is read ends with its region. -/
theorem readLogPage_snd :
    (readLogPage mem hdr recordCount offset size).2
    = min size (hdr.recordSize - offset % hdr.recordSize) := rfl

theorem readLogPage_fst (hregion : offset < 65536 * hdr.recordSize)
    (hsearch : searched hdr recordCount ≤ 32768) :
    (readLogPage mem hdr recordCount offset size).1
      = (lookup mem hdr.logPage.toNat (offset / hdr.recordSize) (searched hdr recordCount)).map
        fun j ↦ recordAt hdr j + offset % hdr.recordSize := by
  have hmod : offset / hdr.recordSize % 65536 = offset / hdr.recordSize :=
    Nat.mod_eq_of_lt (Nat.div_lt_of_lt_mul (by rwa [Nat.mul_comm]))
  have hindex : getRecordIndex mem hdr.logPage.toNat (searched hdr recordCount)
      (offset / hdr.recordSize)
      = indexOf (lookup mem hdr.logPage.toNat (offset / hdr.recordSize)
        (searched hdr recordCount)) :=
    getRecordIndex_eq hsearch
  have hread : (readLogPage mem hdr recordCount offset size).1
      = if indexOf (lookup mem hdr.logPage.toNat (offset / hdr.recordSize)
        (searched hdr recordCount))
        < 0 then none
        else some (absoluteOffset hdr.logPage.toNat (2 * hdr.records)
          + (indexOf (lookup mem hdr.logPage.toNat (offset / hdr.recordSize)
            (searched hdr recordCount))).toNat
            * hdr.recordSize + offset % hdr.recordSize) := by
    rw [← hindex, ← hmod]
    rfl
  rw [hread]
  rcases lookup mem hdr.logPage.toNat (offset / hdr.recordSize)
      (searched hdr recordCount) with _ | j
  · rfl
  · refine (if_neg (not_lt.mpr (Int.natCast_nonneg j))).trans (congrArg some ?_)
    simp only [indexOf, Int.toNat_natCast, recordAt, absoluteOffset]
    omega

/-- **A piece is what the file holds there.** -/
theorem bytesAt_readLogPage (hregion : offset < 65536 * hdr.recordSize)
    (hsearch : searched hdr recordCount ≤ 32768)
    {n : ℕ} (hn : n ≤ hdr.recordSize - offset % hdr.recordSize) :
    bytesAt mem ((readLogPage mem hdr recordCount offset size).1.getD
      (absoluteOffset page offset)) n
      = bytesAt (content mem hdr page (searched hdr recordCount)) offset n := by
  refine List.map_congr_left fun i hi ↦ ?_
  have hpos := recordSize_pos hdr
  have hmod : offset % hdr.recordSize + i < hdr.recordSize := by
    have hi := List.mem_range.mp hi
    omega
  have hoffset := Nat.div_add_mod offset hdr.recordSize
  have hsplit : offset + i
      = offset % hdr.recordSize + i + hdr.recordSize * (offset / hdr.recordSize) := by omega
  have hquot : (offset + i) / hdr.recordSize = offset / hdr.recordSize := by
    rw [hsplit, Nat.add_mul_div_left _ _ hpos, Nat.div_eq_of_lt hmod, Nat.zero_add]
  have hrem : (offset + i) % hdr.recordSize = offset % hdr.recordSize + i := by
    rw [hsplit, Nat.add_mul_mod_self_left, Nat.mod_eq_of_lt hmod]
  rw [content, hquot, hrem, readLogPage_fst hregion hsearch]
  cases lookup mem hdr.logPage.toNat (offset / hdr.recordSize) (searched hdr recordCount) with
  | none => exact congrArg mem (Nat.add_assoc _ _ _)
  | some j => exact congrArg mem (Nat.add_assoc _ _ _)

/-- A piece of 65536 bytes has the size zero. -/
theorem readLoop_eq_none {file : File} {n bytesLeft : ℕ} (h : 65536 ≤ bytesLeft) :
    readLoop mem hdr file n offset bytesLeft = none := by
  induction n generalizing offset bytesLeft with
  | zero =>
    obtain ⟨b, rfl⟩ := Nat.exists_eq_add_of_le'
      (Nat.one_le_of_lt (Nat.lt_of_lt_of_le (by decide : 1 < 65536) h))
    rfl
  | succ n ih =>
    obtain ⟨b, rfl⟩ := Nat.exists_eq_add_of_le'
      (Nat.one_le_of_lt (Nat.lt_of_lt_of_le (by decide : 1 < 65536) h))
    rw [readLoop, readLogPage_snd, ih (by omega)]
    rfl

/-- **Reading ends for fewer than 65536 bytes**, and then it is the bytes of the file that are
read. -/
theorem readLoop_eq {file : File} (hcount : file.recordCount = recordCount)
    (hsearch : searched hdr recordCount ≤ 32768) : ∀ {n offset bytesLeft : ℕ}, bytesLeft ≤ n →
    bytesLeft < 65536 →
    offset + bytesLeft ≤ 65536 * hdr.recordSize → readLoop mem hdr file n offset bytesLeft
      = some (bytesAt (content mem hdr file.page (searched hdr recordCount)) offset bytesLeft) := by
  subst hcount
  intro n
  induction n with
  | zero =>
    intro offset bytesLeft hn hlt hle
    obtain rfl := Nat.le_zero.mp hn
    rfl
  | succ n ih =>
    intro offset bytesLeft hn hlt hle
    obtain _ | b := bytesLeft
    · rfl
    have hmod : offset % hdr.recordSize < hdr.recordSize := Nat.mod_lt _ (recordSize_pos hdr)
    rw [readLoop, readLogPage_snd, Nat.mod_eq_of_lt hlt]
    set r := min (b + 1) (hdr.recordSize - offset % hdr.recordSize)
    have hr : 0 < r ∧ r ≤ b + 1 := ⟨by omega, Nat.min_le_left _ _⟩
    rw [bytesAt_readLogPage (by omega) hsearch (Nat.min_le_right _ _), ih (by omega) (by omega)
      (by omega),
      Option.map_some, ← bytesAt_add, Nat.add_sub_cancel' hr.2]

theorem cfsRead_of_modified {file : File} {n : ℕ} (hmodified : file.modified = true) :
    cfsRead mem file n offset size
      = readLoop mem (readHeader mem file.page) file n offset
        (min size (file.fileEnd - offset)) := by
  rw [cfsRead, if_pos hmodified]
  congr 1
  split_ifs <;> omega

/-- **What is read from a file with a log**: what it holds, if it is fewer than 65536 bytes, and
otherwise the call does not return. -/
theorem cfsRead_eq {file : File} {n : ℕ} (hmodified : file.modified = true)
    (hsearch : searched (readHeader mem file.page) file.recordCount ≤ 32768)
    (hregion : file.fileEnd ≤ 65536 * (readHeader mem file.page).recordSize)
    (hoffset : offset ≤ file.fileEnd)
    (hn : size ≤ n) : cfsRead mem file n offset size
      = if min size (file.fileEnd - offset) < 65536 then
          some (bytesAt (content mem (readHeader mem file.page) file.page
            (searched (readHeader mem file.page) file.recordCount)) offset
            (min size (file.fileEnd - offset)))
        else none := by
  rw [cfsRead_of_modified hmodified]
  split_ifs with hlt
  · exact readLoop_eq rfl hsearch (by omega) hlt (by omega)
  · exact readLoop_eq_none (not_lt.mp hlt)

theorem cfsRead_eq_large : cfsRead (fun _ ↦ 0) ⟨0, 2000, 100000, 1, true⟩ 70000 0 70000 = none := by
  refine (cfsRead_eq rfl ?_ ?_ (by decide) le_rfl).trans (if_neg (by decide)) <;> decide

end Read

section Record

variable {m : Medium} {s : Store} {hdr : FileHeader} {page j k limit : ℕ}

/-- The entry of a record in the table. -/
def entryAt (hdr : FileHeader) (j : ℕ) : ℕ := absoluteOffset hdr.logPage.toNat 0 + 2 * j

theorem recordAt_le (h : j ≤ k) : recordAt hdr j ≤ recordAt hdr k :=
  Nat.add_le_add_left (Nat.mul_le_mul_right _ h) _

theorem recordAt_succ : recordAt hdr (j + 1) = recordAt hdr j + hdr.recordSize := by
  rw [recordAt, recordAt, Nat.add_assoc _ (j * _), ← Nat.succ_mul]

theorem recordAt_zero (hdr : FileHeader) : recordAt hdr 0 = entryAt hdr hdr.records := by
  rw [recordAt, Nat.zero_mul]
  rfl

/-- A record lies before the later ones. -/
theorem recordAt_add_le (hdr : FileHeader) (h : j < k) :
    recordAt hdr j + hdr.recordSize ≤ recordAt hdr k := by
  rw [← recordAt_succ]
  exact recordAt_le h

/-- The table lies before the records. -/
theorem entryAt_add_le (h : j < hdr.records) (k : ℕ) : entryAt hdr j + 2 ≤ recordAt hdr k := by
  refine le_trans ?_ (recordAt_le (Nat.zero_le k))
  rw [recordAt_zero, entryAt, entryAt]
  omega

/-- A log that lies apart from its file, and in which no write leaves a page of the chip. -/
structure LogRoom (m : Medium) (hdr : FileHeader) (page limit : ℕ) : Prop where
  /-- The number of records is one the code can count. -/
  records_lt : hdr.records < 32768
  /-- The log is in front of the data of the file, or behind it. -/
  apart : absoluteOffset page limit ≤ entryAt hdr 0 ∨ recordAt hdr hdr.records ≤ page * pageSize
  /-- An entry and a record are written without a turn of the address counter. -/
  linear : ∀ j < hdr.records,
    entryAt hdr j % m.page + 2 ≤ m.page ∧ recordAt hdr j % m.page + hdr.recordSize ≤ m.page

/-- A file whose log has `k` records. -/
structure Logged (m : Medium) (mem : Memory) (hdr : FileHeader) (page k limit : ℕ) : Prop where
  /-- The log has its place. -/
  room : LogRoom m hdr page limit
  /-- The header is in the storage. -/
  read : readHeader mem page = hdr
  /-- It says that there is a log. -/
  modified : hdr.modified = true
  /-- The log is not longer than it may be. -/
  le : k ≤ hdr.records
  /-- What is behind the records has not been written. -/
  free : ∀ a, (entryAt hdr k ≤ a ∧ a < entryAt hdr hdr.records) ∨
    (recordAt hdr k ≤ a ∧ a < recordAt hdr hdr.records) → mem a = 0

theorem combine_zero (d : BitVec 8) : m.combine 0 d = d := m.combine_of_le (BitVec.zero_and ..)

/-- Everything is the same but record `k` and its entry. -/
def SameBut (mem mem' : Memory) (hdr : FileHeader) (k : ℕ) : Prop :=
  ∀ a, (a < entryAt hdr k ∨ entryAt hdr k + 2 ≤ a) →
    (a < recordAt hdr k ∨ recordAt hdr k + hdr.recordSize ≤ a) → mem' a = mem a

/-- **One record is written**: its entry, its bytes, and nothing else. -/
theorem putRecord_mem (h : Logged m s.mem hdr page k limit) (hk : k < hdr.records) {region : ℕ}
    {copyBuf : List (BitVec 8)} (hlen : copyBuf.length = hdr.recordSize) {mem' : Memory}
    (hmem' : mem' = (putRecord m s hdr.logPage.toNat hdr.records k hdr.recordSize region
      copyBuf).mem) :
    indexAt mem' hdr.logPage.toNat k = (region + 1) % 65536 ∧
      (∀ i (hi : i < copyBuf.length), mem' (recordAt hdr k + i) = copyBuf[i]) ∧
      SameBut s.mem mem' hdr k := by
  obtain ⟨hentry, hrecord⟩ := h.room.linear k hk
  have hbehind := entryAt_add_le hk k
  have hfits := recordAt_add_le hdr hk
  set entry := BitVec.ofNat 16 (region + 1)
  have hwritten : mem' = writeLinear m.combine
      (writeLinear m.combine s.mem (entryAt hdr k) [byteOf entry 0, byteOf entry 1])
        (recordAt hdr k) copyBuf := by
    have htable : m.write s.mem (entryAt hdr k) [byteOf entry 0, byteOf entry 1]
        = writeLinear m.combine s.mem (entryAt hdr k) [byteOf entry 0, byteOf entry 1] :=
      writePaged_eq_writeLinear _ _ _ hentry
    rw [hmem', ← htable]
    exact writePaged_eq_writeLinear _ _ _ (by rwa [hlen])
  have hout : ∀ a, a < recordAt hdr k → mem' a
      = writeLinear m.combine s.mem (entryAt hdr k) [byteOf entry 0, byteOf entry 1] a :=
        fun a ha ↦ by
    rw [hwritten]
    exact writeLinear_of_notMem _ _ _ (Or.inl ha)
  have hbyte : ∀ i (hi : i < 2), mem' (entryAt hdr k + i) = byteOf entry i := by
    intro i hi
    have hzero : s.mem (entryAt hdr k + i) = 0 := h.free _ (Or.inl ⟨Nat.le_add_right _ _, by
      simp only [entryAt]
      omega⟩)
    rw [hout _ (by omega), writeLinear_add _ _ _ hi, hzero, combine_zero]
    interval_cases i <;> rfl
  refine ⟨?_, fun i hi ↦ ?_, fun a hout₁ hout₂ ↦ ?_⟩
  · have hword : word16 mem' (entryAt hdr k) = entry := by
      rw [← word16_byteOf entry, word16, hbyte 1 (by decide)]
      exact congrArg _ (hbyte 0 (by decide))
    exact (congrArg BitVec.toNat hword).trans (BitVec.toNat_ofNat _ _)
  · have hzero : s.mem (recordAt hdr k + i) = 0 :=
      h.free _ (Or.inr ⟨Nat.le_add_right _ _, by omega⟩)
    rw [hwritten, writeLinear_add _ _ _ hi, writeLinear_of_notMem _ _ _ (Or.inr (by
      simp only [List.length_cons, List.length_nil]
      omega)), hzero, combine_zero]
  · rw [hwritten, writeLinear_of_notMem _ _ _ (by rwa [hlen]), writeLinear_of_notMem _ _ _ hout₁]

theorem length_copied {buf bytes : List (BitVec 8)} {offset : ℕ}
    (h : offset + bytes.length ≤ buf.length) :
    (copied buf offset bytes).length = buf.length := by
  simp only [copied, List.length_append, List.length_take, List.length_drop]
  omega

theorem getElem_copied {buf bytes : List (BitVec 8)} {offset i : ℕ}
    (h : offset + bytes.length ≤ buf.length)
    (hi : i < buf.length) (hi' : i < (copied buf offset bytes).length) :
    (copied buf offset bytes)[i]
      = if hin : offset ≤ i ∧ i - offset < bytes.length then bytes[i - offset] else buf[i] := by
  simp only [copied, List.getElem_append, List.getElem_take, List.getElem_drop, List.length_take,
    List.length_append]
  split_ifs <;> first | omega | rfl | (congr 1; omega)

/-- What a piece that is written does to the bytes of a file. -/
def replaced (data : ℕ → BitVec 8) (offset : ℕ) (bytes : List (BitVec 8)) : ℕ → BitVec 8 :=
  writeLinear (fun _ d ↦ d) data offset bytes

theorem replaced_apply (data : ℕ → BitVec 8) (offset : ℕ) (bytes : List (BitVec 8)) (i : ℕ) :
    replaced data offset bytes i
      = if hin : offset ≤ i ∧ i - offset < bytes.length then bytes[i - offset] else data i := by
  split_ifs with hin
  · obtain ⟨j, rfl⟩ := Nat.exists_eq_add_of_le hin.1
    have hj : j < bytes.length := by omega
    simp only [Nat.add_sub_cancel_left]
    exact writeLinear_add bytes data offset hj
  · exact writeLinear_of_notMem _ _ _ (by omega)

section Put

variable {mem mem' : Memory} {region i : ℕ}

/-- The log is apart from the file. -/
theorem SameBut.file (h : SameBut mem mem' hdr k) (hroom : LogRoom m hdr page limit)
    (hk : k < hdr.records)
    (hi : i < headerSize + limit) : mem' (page * pageSize + i) = mem (page * pageSize + i) := by
  have hentry := entryAt_add_le hk k
  have hrecord := recordAt_add_le hdr hk
  have hfirst : entryAt hdr k = entryAt hdr 0 + 2 * k := rfl
  have hzero := (recordAt_zero hdr).symm.trans_le (recordAt_le (Nat.zero_le k))
  have htable : entryAt hdr hdr.records = entryAt hdr 0 + 2 * hdr.records := rfl
  have hapart := hroom.apart
  rw [absoluteOffset] at hapart
  exact h _ (by omega) (by omega)

/-- The records and the entries before `k` are kept. -/
theorem SameBut.index (h : SameBut mem mem' hdr k) (hk : k < hdr.records) (hj : j < k) :
    indexAt mem' hdr.logPage.toNat j = indexAt mem hdr.logPage.toNat j := by
  have hbehind := entryAt_add_le hk k
  have hentry : ∀ i < 2, mem' (entryAt hdr j + i) = mem (entryAt hdr j + i) := fun i hi ↦ by
    refine h _ (Or.inl ?_) (Or.inl ?_)
    all_goals simp only [entryAt] at hbehind ⊢; omega
  have hword : word16 mem' (entryAt hdr j) = word16 mem (entryAt hdr j) := by
    rw [word16, word16, hentry 1 (by decide)]
    exact congrArg _ (hentry 0 (by decide))
  exact congrArg BitVec.toNat hword

theorem SameBut.record (h : SameBut mem mem' hdr k) (hk : k < hdr.records) (hj : j < k)
    (hi : i < hdr.recordSize) : mem' (recordAt hdr j + i) = mem (recordAt hdr j + i) := by
  have hbehind := entryAt_add_le hk j
  have hbefore := recordAt_add_le hdr hj
  exact h _ (Or.inr (by omega)) (Or.inl (by omega))

/-- The log has a record more. -/
theorem Logged.succ (h : Logged m mem hdr page k limit) (hk : k < hdr.records)
    (hsame : SameBut mem mem' hdr k) : Logged m mem' hdr page (k + 1) limit := by
  refine ⟨h.room, ?_, h.modified, hk, fun a ha ↦ ?_⟩
  · exact (readHeader_congr fun i hi ↦ hsame.file h.room hk (by omega)).trans h.read
  · have hnext : entryAt hdr (k + 1) = entryAt hdr k + 2 := rfl
    have hbehind := entryAt_add_le hk k
    have hzero := (recordAt_zero hdr).symm.trans_le (recordAt_le (Nat.zero_le k))
    rw [recordAt_succ] at ha
    rw [← h.free a (by omega)]
    exact hsame a (by omega) (by omega)

/-- The new record holds its region. -/
theorem content_of_region (hindex : indexAt mem' hdr.logPage.toNat k = i / hdr.recordSize + 1) :
    content mem' hdr page (k + 1) i = mem' (recordAt hdr k + i % hdr.recordSize) := by
  rw [content, lookup, hindex, if_pos rfl]

/-- The other regions are where they were. -/
theorem SameBut.content_of_other (h : SameBut mem mem' hdr k) (hroom : LogRoom m hdr page limit)
    (hk : k < hdr.records) (hi : i < limit) (hindex : indexAt mem' hdr.logPage.toNat k = region + 1)
    (hother : region ≠ i / hdr.recordSize) :
    content mem' hdr page (k + 1) i = content mem hdr page k i := by
  rw [content, content, lookup, hindex, if_neg fun heq ↦ hother (Nat.succ.inj heq),
    lookup_congr fun j hj ↦ h.index hk hj]
  rcases hlookup : lookup mem hdr.logPage.toNat (i / hdr.recordSize) k with _ | j
  · refine (congrArg mem' (Nat.add_assoc _ _ _)).trans ((h.file hroom hk (by omega)).trans ?_)
    exact congrArg mem (Nat.add_assoc _ _ _).symm
  · exact h.record hk (lookup_eq_some hlookup).1 (Nat.mod_lt _ (recordSize_pos hdr))

/-- A byte of a piece is in the region of the piece. -/
theorem not_in_piece {offset len : ℕ} (hfits : offset % hdr.recordSize + len ≤ hdr.recordSize)
    (hother : offset / hdr.recordSize ≠ i / hdr.recordSize) : ¬(offset ≤ i ∧ i - offset < len) := by
  intro hin
  have hpos := recordSize_pos hdr
  have hoffset := Nat.div_add_mod offset hdr.recordSize
  have hsmall : (offset % hdr.recordSize + (i - offset)) / hdr.recordSize = 0 :=
    Nat.div_eq_of_lt (by omega)
  have hi : i = offset % hdr.recordSize + (i - offset) +
      hdr.recordSize * (offset / hdr.recordSize) := by
    omega
  rw [hi, Nat.add_mul_div_left _ _ hpos, hsmall, Nat.zero_add] at hother
  exact hother rfl

end Put

/-- **A record replaces what the file holds**, if the piece is a whole region or the region has no
record. -/
theorem Logged.putRecord (h : Logged m s.mem hdr page k limit) (hk : k < hdr.records) {offset : ℕ}
    {bytes : List (BitVec 8)} (hregion : offset < 65535 * hdr.recordSize)
    (hfits : offset % hdr.recordSize + bytes.length ≤ hdr.recordSize)
    (hnew : lookup s.mem hdr.logPage.toNat (offset / hdr.recordSize) k = none ∨
      bytes.length = hdr.recordSize)
    {mem' : Memory} (hmem' : mem' = (putRecord m s hdr.logPage.toNat hdr.records k hdr.recordSize
      (offset / hdr.recordSize) (copied (bytesAt s.mem
      (absoluteOffset page (offset / hdr.recordSize * hdr.recordSize))
        hdr.recordSize) (offset % hdr.recordSize) bytes)).mem) :
    Logged m mem' hdr page (k + 1) limit ∧ ∀ i < limit, content mem' hdr page (k + 1) i
      = replaced (content s.mem hdr page k) offset bytes i := by
  have hlen := length_bytesAt s.mem (absoluteOffset page (offset / hdr.recordSize * hdr.recordSize))
    hdr.recordSize
  obtain ⟨hindex, hrecord, hsame⟩ :=
    putRecord_mem h hk (by rw [length_copied (by rwa [hlen]), hlen])
    hmem'
  have hdiv : offset / hdr.recordSize < 65535 := Nat.div_lt_of_lt_mul (by rwa [Nat.mul_comm])
  rw [Nat.mod_eq_of_lt (Nat.succ_lt_succ hdiv)] at hindex
  refine ⟨h.succ hk hsame, fun i hi ↦ ?_⟩
  rw [replaced_apply]
  by_cases hown : offset / hdr.recordSize = i / hdr.recordSize
  swap
  · rw [hsame.content_of_other h.room hk hi hindex hown, dif_neg (not_in_piece hfits hown)]
  -- the record has the bytes of the piece, and around them what the file has
  have hoffset := Nat.div_add_mod offset hdr.recordSize
  have hdivmod := Nat.div_add_mod i hdr.recordSize
  have hmod : i % hdr.recordSize < hdr.recordSize := Nat.mod_lt _ (recordSize_pos hdr)
  rw [← hown] at hdivmod
  rw [content_of_region (by rw [hindex, hown]),
    hrecord _ (by rwa [length_copied (by rwa [hlen]), hlen]),
    getElem_copied (by rwa [hlen]) (by rwa [hlen])]
  split_ifs with hin hin' hin'
  · congr 1
    omega
  · omega
  · omega
  · rcases hnew with hnone | hwhole
    · rw [content, ← hown, hnone]
      simp only [bytesAt, List.getElem_map, List.getElem_range, absoluteOffset,
        Nat.mul_comm _ hdr.recordSize]
      congr 1
      omega
    · omega

variable {file file' : File} {s' : Store} {data : ℕ → BitVec 8} {offset size : ℕ}
    {buf : List (BitVec 8)}

/-- A piece that does not fill its region is only written if the region has no record yet. -/
theorem writeRecord_eq (hregion : offset < 65536 * hdr.recordSize) (hk : k ≤ 32768) :
    writeRecord m s file hdr k offset buf size
      = if min size (hdr.recordSize - offset % hdr.recordSize) ≠ hdr.recordSize ∧
            (lookup s.mem hdr.logPage.toNat (offset / hdr.recordSize) k).isSome
              then .error .nullRead
        else .ok (min size (hdr.recordSize - offset % hdr.recordSize),
          Coffee.putRecord m s hdr.logPage.toNat hdr.records k hdr.recordSize
            (offset / hdr.recordSize)
            (copied (bytesAt s.mem
              (absoluteOffset file.page (offset / hdr.recordSize * hdr.recordSize))
            hdr.recordSize)
              (offset % hdr.recordSize)
                (buf.take (min size (hdr.recordSize - offset % hdr.recordSize)))),
          { file with recordCount := s16 (k + 1) }) := by
  have hpos := recordSize_pos hdr
  have hmod : offset / hdr.recordSize % 65536 = offset / hdr.recordSize :=
    Nat.mod_eq_of_lt (Nat.div_lt_of_lt_mul (by rwa [Nat.mul_comm]))
  have hle := Nat.div_mul_le_self offset hdr.recordSize
  have hread : (readLogPage s.mem hdr k (offset / hdr.recordSize * hdr.recordSize)
    hdr.recordSize).1.isSome
      = (lookup s.mem hdr.logPage.toNat (offset / hdr.recordSize) k).isSome := by
    rw [readLogPage_fst (by omega) (by rwa [searched_natCast]), Option.isSome_map,
      Nat.mul_div_cancel _ hpos,
      searched_natCast]
  have hpartial : (0 < offset % hdr.recordSize ∨
      min size (hdr.recordSize - offset % hdr.recordSize) ≠ hdr.recordSize) ↔
      min size (hdr.recordSize - offset % hdr.recordSize) ≠ hdr.recordSize := by
    omega
  have hmod' : offset / (adjustLogConfig hdr).1 % 65536 = offset / hdr.recordSize := hmod
  rw [writeRecord]
  dsimp only [modifyLogBuffer]
  rw [hmod']
  refine if_congr (and_congr hpartial ?_) rfl rfl
  rw [← hread]
  rfl

/-- The records behind the first `k` are not there yet. -/
theorem Logged.lookup_of_le (h : Logged m s.mem hdr page k limit) {k' region : ℕ} (hle : k ≤ k')
    (hk' : k' ≤ hdr.records) :
    lookup s.mem hdr.logPage.toNat region k' = lookup s.mem hdr.logPage.toNat region k := by
  induction k', hle using Nat.le_induction with
  | base => rfl
  | succ k' hle ih =>
    have hzero : ∀ i < 2, s.mem (entryAt hdr k' + i) = 0 := fun i hi ↦
      h.free _ (Or.inl (by simp only [entryAt]; omega))
    have hword : word16 s.mem (entryAt hdr k') = 0 := by
      rw [word16, hzero 1 (by decide), show s.mem (entryAt hdr k') = 0 from hzero 0 (by decide)]
      rfl
    have hentry : indexAt s.mem hdr.logPage.toNat k' = 0 := congrArg BitVec.toNat hword
    rw [lookup, hentry, if_neg (by omega), ih (by omega)]

theorem Logged.writeLogPage_eq (h : Logged m s.mem hdr file.page k limit)
    (hnext : findNextRecord s.mem file.recordCount hdr.logPage.toNat hdr.records = k) :
    writeLogPage m s file offset buf size = if hdr.records ≤ k then .error .merge
      else (writeRecord m s file hdr k offset buf size).map fun r ↦ (some r.1, r.2) := by
  have hlt := h.room.records_lt
  have hle := h.le
  rw [writeLogPage, h.read, if_pos h.modified]
  change (if hdr.records ≤
      findNextRecord s.mem file.recordCount hdr.logPage.toNat hdr.records % 65536 then _ else
    (writeRecord m s file hdr
      (findNextRecord s.mem file.recordCount hdr.logPage.toNat hdr.records % 65536)
        offset buf size).map
        _) = _
  rw [hnext, Nat.mod_eq_of_lt (by omega)]

/-- An open file that holds `data`, with a log. -/
def HasLog (m : Medium) (s : Store) (file : File) (hdr : FileHeader) (limit : ℕ)
    (data : ℕ → BitVec 8) :
    Prop :=
  file.modified = true ∧ ∃ k : ℕ, Logged m s.mem hdr file.page k limit ∧
    (file.recordCount = k ∨ file.recordCount < 0 ∧
      findNextRecord s.mem file.recordCount hdr.logPage.toNat hdr.records = k) ∧
    ∀ i < limit, content s.mem hdr file.page k i = data i

/-- **The pages of a log change what a file holds as they should.** -/
theorem HasLog.writeLogPage (h : HasLog m s file hdr limit data) {o : Option ℕ}
    (hregion : offset < 65535 * hdr.recordSize) (hsize : size ≤ buf.length)
    (hwrite : writeLogPage m s file offset buf size = .ok (o, s', file')) :
    ∃ r, o = some r ∧ r ≤ size ∧ HasLog m s' file' hdr limit (replaced data offset (buf.take r)) ∧
      file' = { file with recordCount := file'.recordCount } := by
  obtain ⟨hmodified, k, hlogged, hcount, hdata⟩ := h
  have hnext : findNextRecord s.mem file.recordCount hdr.logPage.toNat hdr.records = k := by
    rcases hcount with hknown | ⟨-, hnext⟩
    · rw [findNextRecord, hknown, if_pos (Int.natCast_nonneg k), Int.toNat_natCast]
    · exact hnext
  have hlt := hlogged.room.records_lt
  have hle := hlogged.le
  have hpos := recordSize_pos hdr
  have hmod : offset % hdr.recordSize < hdr.recordSize := Nat.mod_lt _ hpos
  rw [hlogged.writeLogPage_eq hnext] at hwrite
  split_ifs at hwrite with hfull
  rw [writeRecord_eq (by omega) (by omega)] at hwrite
  split_ifs at hwrite with hnull
  · cases hwrite
  set r := min size (hdr.recordSize - offset % hdr.recordSize)
  have hr : (buf.take r).length = r := List.length_take_of_le ((Nat.min_le_left _ _).trans hsize)
  cases hwrite
  have hnew : lookup s.mem hdr.logPage.toNat (offset / hdr.recordSize) k = none ∨
      (buf.take r).length = hdr.recordSize := by
    rw [hr]
    by_contra hboth
    push Not at hboth
    exact hnull ⟨hboth.2, Option.isSome_iff_ne_none.mpr hboth.1⟩
  obtain ⟨hlogged', hcontent⟩ := hlogged.putRecord (by omega) hregion (by omega) hnew rfl
  refine ⟨r, rfl, Nat.min_le_left _ _, ⟨hmodified, k + 1, hlogged', Or.inl ?_, fun i hi ↦ ?_⟩, rfl⟩
  · exact s16_of_range (by omega) (by omega)
  · refine (hcontent i hi).trans ?_
    rw [replaced_apply, replaced_apply, hdata i hi]

theorem replaced_replaced (data : ℕ → BitVec 8) (offset : ℕ) (buf : List (BitVec 8)) {r : ℕ}
    (hr : r ≤ buf.length) :
    replaced (replaced data offset (buf.take r)) (offset + r) (buf.drop r)
    = replaced data offset buf := by
  have happend : writeLinear (fun _ d ↦ d) data offset (buf.take r ++ buf.drop r) = _ :=
    writeLinear_append (buf.take r) (buf.drop r) data offset
  rw [List.take_append_drop, List.length_take_of_le hr] at happend
  exact happend.symm

/-- **The loop writes everything**, if it comes to its end. -/
theorem HasLog.writeLoop (hregion : offset + buf.length ≤ 65535 * hdr.recordSize) {n offset' : ℕ}
    {rest : List (BitVec 8)} (h : HasLog m s file hdr limit data) (hoffset : offset ≤ file.fileEnd)
    (hwrite : writeLoop m n s file offset buf = .ok (s', file', offset', rest)) :
    rest = [] ∧ offset' = offset + buf.length ∧
      HasLog m s' file' hdr limit (replaced data offset buf) ∧
      file'
        = { file with fileEnd := max file.fileEnd offset', recordCount := file'.recordCount } := by
  induction n generalizing s file data offset buf with
  | zero =>
    cases buf with
    | nil =>
      cases hwrite
      exact ⟨rfl, rfl, h, by rw [max_eq_left hoffset]⟩
    | cons d ds => cases hwrite
  | succ n ih =>
    cases buf with
    | nil =>
      cases hwrite
      exact ⟨rfl, rfl, h, by rw [max_eq_left hoffset]⟩
    | cons d ds =>
      rw [Coffee.writeLoop] at hwrite
      rcases hpage : Coffee.writeLogPage m s file offset (d :: ds)
        ((ds.length + 1) % 65536) with stop | ⟨o, s₁, file₁⟩
      · rw [hpage] at hwrite
        cases hwrite
      rw [List.length_cons] at hregion
      obtain ⟨r, rfl, hr, h₁, hfile₁⟩ := h.writeLogPage (by omega) (Nat.mod_le _ _) hpage
      rw [hpage] at hwrite
      dsimp only at hwrite
      have hr' : r ≤ ds.length + 1 := hr.trans (Nat.mod_le _ _)
      set file₂ := if r = 0 then file₁ else { file₁ with fileEnd := max file₁.fileEnd (offset + r) }
        with hfile₂
      have hsame : file₂ = { file₁ with fileEnd := max file.fileEnd (offset + r) } := by
        rw [hfile₂, hfile₁]
        split_ifs with hzero
        · rw [hzero, Nat.add_zero, max_eq_left hoffset]
        · rfl
      have hlen : ((d :: ds).drop r).length = ds.length + 1 - r := by
        rw [List.length_drop, List.length_cons]
      obtain ⟨hrest, hoffset', hlog, hend⟩ := ih (by omega) (by rw [hsame]; exact h₁)
        (by rw [hsame]; exact le_max_right _ _) hwrite
      rw [replaced_replaced _ _ _ (by simpa using hr')] at hlog
      rw [List.length_cons]
      refine ⟨hrest, by omega, hlog, ?_⟩
      rw [hend, hsame, hfile₁]
      simp only [File.mk.injEq, true_and, and_true]
      omega

end Record

end Coffee

end Martink
