import Martink.Block.At24

/-!
# Page writes against the EEPROM

Two properties of `at24_write` are settled here. The first looks at the bytes alone: the page
writes carry the buffer, each byte once and at its own address. The second adds the chip, whose
address counter stays inside an eight-byte page during a write: no page write may cross a page
boundary, and what was written can be read back.

Both come down to arithmetic on `pageSizes`: the sum of the sizes says how much of the buffer is
sent, and `Fit` says that no size crosses a boundary. The two defects of the cut are visible there.
A buffer shorter than a page is sent as one page write wherever it starts, and the page counters
are taken modulo 256.
-/

namespace Martink

/-! ## What the page writes carry -/

/-- The page writes among the messages of a bus. -/
def pageWrites (log : List I2cMsg) : List PageWrite :=
  log.filterMap fun
    | .startWrite address (hi :: lo :: data) =>
      if address = eepromAddr then some ⟨BitVec.ofNat 16 (hi.toNat * 256 + lo.toNat), data⟩
      else none
    | _ => none

/-- The page writes carry exactly the buffer, each byte once, at consecutive addresses from `start`,
and none of them carries more than a page. -/
def CarriesExactly (start : BitVec 16) (buf : List (BitVec 8)) (pages : List PageWrite) : Prop :=
  (pages.flatMap fun p ↦ p.data.zipIdx p.addr.toNat) = buf.zipIdx start.toNat ∧
    ∀ p ∈ pages, p.data.length ≤ 8

/-- The page writes `at24_write` issues for a buffer. -/
def at24Issued (start : BitVec 16) (buf : List (BitVec 8)) : List PageWrite :=
  pageWrites (at24Write I2cInterface.recorder [] start buf buf.length)

theorem pageWrites_append (log log' : List I2cMsg) :
    pageWrites (log ++ log') = pageWrites log ++ pageWrites log' := List.filterMap_append

/-- The address bytes of a message decode to the address. -/
theorem ofNat_eeaddrBytes (a : BitVec 16) :
    BitVec.ofNat 16 (((a >>> 8).setWidth 8).toNat * 256 + (a.setWidth 8).toNat) = a := by
  apply BitVec.eq_of_toNat_eq
  rw [BitVec.toNat_ofNat, BitVec.toNat_setWidth, BitVec.toNat_setWidth, BitVec.toNat_ushiftRight,
    Nat.shiftRight_eq_div_pow]
  omega

theorem pageWrites_sendPage (log : List I2cMsg) (p : PageWrite) :
    pageWrites (sendPage I2cInterface.recorder log p) = pageWrites log ++ [p] := by
  have hone : pageWrites [.startWrite eepromAddr (eeaddrBytes p.addr ++ p.data)] = [p] := by
    exact congrArg (fun a ↦ [PageWrite.mk a p.data]) (ofNat_eeaddrBytes p.addr)
  have hstop : pageWrites [.stop] = [] := rfl
  have hwait : pageWrites [.wait eepromAddr] = [] := rfl
  rw [sendPage, I2cInterface.recorder, pageWrites_append, pageWrites_append, pageWrites_append,
    hone, hstop, hwait, List.append_nil, List.append_nil]

theorem pageWrites_foldl (pages : List PageWrite) : ∀ log : List I2cMsg,
    pageWrites (pages.foldl (sendPage I2cInterface.recorder) log) = pageWrites log ++ pages := by
  induction pages with
  | nil => intro log; exact (List.append_nil _).symm
  | cons p ps ih =>
    intro log
    rw [List.foldl_cons, ih, pageWrites_sendPage, List.append_assoc, List.singleton_append]

/-- The issued page writes are the pages of the cut. -/
theorem at24Issued_eq (start : BitVec 16) (buf : List (BitVec 8)) :
    at24Issued start buf = pagesOf start buf (pageSizes (start.toNat % 8) buf.length) := by
  rw [at24Issued, at24Write_eq, pageWrites_foldl]
  rfl

theorem toNat_add_ofNat {a : BitVec 16} {k : ℕ} (h : a.toNat + k < 2 ^ 16) :
    (a + BitVec.ofNat 16 k).toNat = a.toNat + k := by
  rw [BitVec.toNat_add, BitVec.toNat_ofNat, Nat.add_mod_mod, Nat.mod_eq_of_lt h]

theorem zipIdx_pagesOf_of_sum_eq_zero (ks : List ℕ) : ∀ (a : BitVec 16) (buf : List (BitVec 8)),
    ks.sum = 0 → ((pagesOf a buf ks).flatMap fun p ↦ p.data.zipIdx p.addr.toNat) = [] := by
  induction ks with
  | nil => intro a buf _; rfl
  | cons k ks ih =>
    intro a buf h
    rw [List.sum_cons] at h
    obtain ⟨rfl, hks⟩ : k = 0 ∧ ks.sum = 0 := by omega
    rw [pagesOf, List.flatMap_cons, ih _ _ hks]
    rfl

/-- Pages cut from a buffer carry its beginning, byte by byte at consecutive addresses. -/
theorem zipIdx_pagesOf (ks : List ℕ) : ∀ (a : BitVec 16) (buf : List (BitVec 8)),
    ks.sum ≤ buf.length → a.toNat + ks.sum ≤ 2 ^ 16 →
      ((pagesOf a buf ks).flatMap fun p ↦ p.data.zipIdx p.addr.toNat)
        = (buf.take ks.sum).zipIdx a.toNat := by
  induction ks with
  | nil => intro a buf _ _; rfl
  | cons k ks ih =>
    intro a buf hlen hfit
    rw [List.sum_cons] at hlen hfit
    have htake : (buf.take k).length = k := List.length_take_of_le (by omega)
    rw [pagesOf, List.flatMap_cons, List.sum_cons, List.take_add, List.zipIdx_append, htake]
    congr 1
    rcases Nat.eq_zero_or_pos ks.sum with hzero | hpos
    · rw [zipIdx_pagesOf_of_sum_eq_zero ks _ _ hzero, hzero]
      rfl
    · have haddr := toNat_add_ofNat (by omega : a.toNat + k < 2 ^ 16)
      rw [ih _ _ (by rw [List.length_drop]; omega) (by omega), haddr]

theorem length_data_of_mem_pagesOf {m : ℕ} {p : PageWrite} (ks : List ℕ) :
    ∀ (a : BitVec 16) (buf : List (BitVec 8)), (∀ k ∈ ks, k ≤ m) → p ∈ pagesOf a buf ks →
      p.data.length ≤ m := by
  induction ks with
  | nil => intro a buf _ hp; cases hp
  | cons k ks ih =>
    intro a buf hks hp
    rcases List.mem_cons.mp hp with rfl | hp'
    · exact (List.length_take_le k buf).trans (hks k List.mem_cons_self)
    · exact ih _ _ (fun j hj ↦ hks j (List.mem_cons_of_mem k hj)) hp'

/-! ## Arithmetic of the cut -/

theorem sum_lastSize (n : ℕ) : (lastSize n).sum = n % 8 := by
  rw [lastSize]
  split
  · exact List.sum_singleton
  · rename_i h
    exact (not_not.mp h).symm

theorem sum_pageSizes (addr n : ℕ) :
    (pageSizes addr n).sum
      = if n / 8 % 256 = 0 then n % 8
        else if addr = 0 then n / 8 % 256 * 8 + n % 8
        else 8 - addr + ((n - (8 - addr)) / 8 % 256 * 8 + (n - (8 - addr)) % 8) := by
  rw [pageSizes]
  split_ifs
  · exact List.sum_singleton
  · rw [List.sum_append, List.sum_replicate, sum_lastSize, smul_eq_mul]
  · rw [List.sum_cons, List.sum_append, List.sum_replicate, sum_lastSize, smul_eq_mul]

/-- The cut never sends more than the buffer. -/
theorem sum_pageSizes_le {addr : ℕ} (haddr : addr < 8) (n : ℕ) :
    (pageSizes addr n).sum ≤ n := by
  rw [sum_pageSizes]
  split_ifs <;> omega

/-- The cut sends the whole buffer exactly when the page counters do not overflow. -/
theorem sum_pageSizes_eq_iff {addr : ℕ} (haddr : addr < 8) (n : ℕ) :
    (pageSizes addr n).sum = n ↔ n < 2048 := by
  rw [sum_pageSizes]
  split_ifs <;> omega

theorem le_eight_of_mem_pageSizes {addr n k : ℕ} (haddr : addr < 8) (hk : k ∈ pageSizes addr n) :
    k ≤ 8 := by
  have hlast : ∀ {m}, k ∈ lastSize m → k ≤ 8 := by
    intro m h
    rw [lastSize] at h
    split at h
    · rw [List.mem_singleton.mp h]
      omega
    · cases h
  rw [pageSizes] at hk
  split_ifs at hk
  · rw [List.mem_singleton.mp hk]
    omega
  · rcases List.mem_append.mp hk with h | h
    · exact (List.eq_of_mem_replicate h).le
    · exact hlast h
  · rcases List.mem_cons.mp hk with rfl | hk
    · omega
    · rcases List.mem_append.mp hk with h | h
      · exact (List.eq_of_mem_replicate h).le
      · exact hlast h

theorem zipIdx_at24Issued {start : BitVec 16} {buf : List (BitVec 8)}
    (h : start.toNat + buf.length ≤ 2 ^ 16) :
    ((at24Issued start buf).flatMap fun p ↦ p.data.zipIdx p.addr.toNat)
      = (buf.take (pageSizes (start.toNat % 8) buf.length).sum).zipIdx start.toNat := by
  have hsum := sum_pageSizes_le (Nat.mod_lt start.toNat (by omega : 0 < 8)) buf.length
  rw [at24Issued_eq, zipIdx_pagesOf _ _ _ hsum (by omega)]

/-- **What is sent.** The page writes carry the buffer exactly when it is shorter than 2048 bytes:
longer ones overflow the `uint8_t` page counters and lose their end. -/
theorem at24Issued_carriesExactly_iff (start : BitVec 16) (buf : List (BitVec 8))
    (h : start.toNat + buf.length ≤ 2 ^ 16) :
    CarriesExactly start buf (at24Issued start buf) ↔ buf.length < 2048 := by
  have haddr : start.toNat % 8 < 8 := Nat.mod_lt _ (by omega)
  rw [CarriesExactly, zipIdx_at24Issued h, ← sum_pageSizes_eq_iff haddr]
  constructor
  · rintro ⟨hzip, -⟩
    have hlen := congrArg List.length hzip
    rw [List.length_zipIdx, List.length_zipIdx, List.length_take] at hlen
    have := sum_pageSizes_le haddr buf.length
    omega
  · intro hsum
    refine ⟨by rw [hsum, List.take_length], fun p hp ↦ ?_⟩
    rw [at24Issued_eq] at hp
    exact length_data_of_mem_pagesOf _ _ _ (fun k hk ↦ le_eight_of_mem_pageSizes haddr hk) hp

theorem at24Issued_carriesExactly_ten :
    CarriesExactly 6 (List.replicate 10 0x2a) (at24Issued 6 (List.replicate 10 0x2a)) :=
  (at24Issued_carriesExactly_iff 6 (List.replicate 10 0x2a) (by decide)).mpr (by decide)

/-- A buffer of 2048 bytes is sent as one empty page write. -/
theorem at24Issued_not_carriesExactly :
    ¬CarriesExactly 0 (List.replicate 2048 0x2a) (at24Issued 0 (List.replicate 2048 0x2a)) := by
  intro h
  have hzip := congrArg List.length h.1
  rw [zipIdx_at24Issued (by rw [List.length_replicate]; decide), List.length_zipIdx,
    List.length_zipIdx, List.length_take, List.length_replicate] at hzip
  exact absurd hzip (by decide)

/-! ## The chip -/

/-- The EEPROM: its cells and its address counter. -/
structure Eeprom where
  /-- The cells. -/
  mem : ℕ → BitVec 8
  /-- The address counter. -/
  ptr : ℕ

/-- A write moves the counter around inside one eight-byte page; a read carries it on through the
whole 16-bit space. Every transfer is acknowledged. -/
def eepromInterface : I2cInterface Eeprom where
  startWrite s address data :=
    match data with
    | hi :: lo :: rest =>
      if address = eepromAddr then
        let addr := hi.toNat * 256 + lo.toNat
        (⟨writePaged (fun _ new ↦ new) 8 s.mem addr rest, (nextInPage 8)^[rest.length] addr⟩,
          BitVec.ofNat 32 data.length)
      else (s, 0)
    | _ => (s, 0)
  startRead s address maxSz :=
    if address = eepromAddr then
      (⟨s.mem, (s.ptr + maxSz.toNat) % 2 ^ 16⟩,
        (List.range maxSz.toNat).map fun i ↦ s.mem ((s.ptr + i) % 2 ^ 16), maxSz.setWidth 32)
    else (s, [], 0)
  stop s := (s, 1)
  wait s _ := s

/-- No page write crosses a page boundary: its first and its last byte lie in the same page. -/
def StaysInPages (pages : List PageWrite) : Prop :=
  ∀ p ∈ pages, p.data ≠ [] → p.addr.toNat / 8 = (p.addr.toNat + p.data.length - 1) / 8

/-- Whatever the chip held, reading the range back gives the buffer. -/
def ReadsBack (start : BitVec 16) (buf : List (BitVec 8)) : Prop :=
  ∀ chip : Eeprom,
    (at24Read eepromInterface (at24Write eepromInterface chip start buf buf.length) start
      buf.length).2 = buf

/-- Page writes of these sizes, one after another from `addr`, stay inside their pages. -/
def Fit : ℕ → List ℕ → Prop
  | _, [] => True
  | addr, k :: ks => addr % 8 + k ≤ 8 ∧ Fit (addr + k) ks

theorem toNat_eeaddrBytes (a : BitVec 16) :
    ((a >>> 8).setWidth 8).toNat * 256 + (a.setWidth 8).toNat = a.toNat := by
  rw [BitVec.toNat_setWidth, BitVec.toNat_setWidth, BitVec.toNat_ushiftRight,
    Nat.shiftRight_eq_div_pow]
  omega

theorem mem_sendPage (chip : Eeprom) (p : PageWrite) :
    (sendPage eepromInterface chip p).mem
      = writePaged (fun _ new ↦ new) 8 chip.mem p.addr.toNat p.data := by
  rw [← toNat_eeaddrBytes p.addr]
  rfl

theorem at24Read_eeprom (chip : Eeprom) (start : BitVec 16) (n : ℕ) :
    (at24Read eepromInterface chip start n).2
      = (List.range (n % 2 ^ 16)).map fun i ↦ chip.mem ((start.toNat + i) % 2 ^ 16) := by
  rw [← toNat_eeaddrBytes start, ← BitVec.toNat_ofNat]
  rfl

theorem mem_foldl_of_sum_eq_zero (ks : List ℕ) : ∀ (chip : Eeprom) (a : BitVec 16)
    (buf : List (BitVec 8)), ks.sum = 0 →
      ((pagesOf a buf ks).foldl (sendPage eepromInterface) chip).mem = chip.mem := by
  induction ks with
  | nil => intro chip a buf _; rfl
  | cons k ks ih =>
    intro chip a buf h
    rw [List.sum_cons] at h
    obtain ⟨rfl, hks⟩ : k = 0 ∧ ks.sum = 0 := by omega
    rw [pagesOf, List.foldl_cons, ih _ _ _ hks, mem_sendPage]
    rfl

/-- Pages that stay inside the chip's pages add up to one linear write. -/
theorem mem_foldl_sendPage (ks : List ℕ) : ∀ (chip : Eeprom) (a : BitVec 16)
    (buf : List (BitVec 8)), ks.sum ≤ buf.length → a.toNat + ks.sum ≤ 2 ^ 16 → Fit a.toNat ks →
      ((pagesOf a buf ks).foldl (sendPage eepromInterface) chip).mem
        = writeLinear (fun _ new ↦ new) chip.mem a.toNat (buf.take ks.sum) := by
  induction ks with
  | nil => intro chip a buf _ _ _; rfl
  | cons k ks ih =>
    intro chip a buf hlen hfit hpages
    rw [List.sum_cons] at hlen hfit
    have htake : (buf.take k).length = k := List.length_take_of_le (by omega)
    have hpage : (sendPage eepromInterface chip ⟨a, buf.take k⟩).mem
        = writeLinear (fun _ new ↦ new) chip.mem a.toNat (buf.take k) := by
      rw [mem_sendPage]
      exact writePaged_eq_writeLinear _ _ _ (by rw [htake]; exact hpages.1)
    rw [pagesOf, List.foldl_cons, List.sum_cons, List.take_add, writeLinear_append, htake, ← hpage]
    rcases Nat.eq_zero_or_pos ks.sum with hzero | hpos
    · rw [mem_foldl_of_sum_eq_zero ks _ _ _ hzero, hzero]
      rfl
    · have haddr := toNat_add_ofNat (by omega : a.toNat + k < 2 ^ 16)
      rw [ih _ _ _ (by rw [List.length_drop]; omega) (by omega) (by rw [haddr]; exact hpages.2),
        haddr]

theorem fit_of_sum_eq_zero (ks : List ℕ) : ∀ addr : ℕ, ks.sum = 0 → Fit addr ks := by
  induction ks with
  | nil => intro addr _; trivial
  | cons k ks ih =>
    intro addr h
    rw [List.sum_cons] at h
    exact ⟨by omega, ih _ (by omega)⟩

/-- Staying inside the pages, as a condition on the sizes alone. -/
theorem staysInPages_pagesOf_iff (ks : List ℕ) : ∀ (a : BitVec 16) (buf : List (BitVec 8)),
    ks.sum ≤ buf.length → a.toNat + ks.sum ≤ 2 ^ 16 →
      (StaysInPages (pagesOf a buf ks) ↔ Fit a.toNat ks) := by
  induction ks with
  | nil => intro a buf _ _; exact ⟨fun _ ↦ trivial, fun _ p hp ↦ by cases hp⟩
  | cons k ks ih =>
    intro a buf hlen hfit
    rw [List.sum_cons] at hlen hfit
    have htake : (buf.take k).length = k := List.length_take_of_le (by omega)
    have hhead : (buf.take k ≠ [] → a.toNat / 8 = (a.toNat + (buf.take k).length - 1) / 8)
        ↔ a.toNat % 8 + k ≤ 8 := by
      rw [htake, ← List.length_pos_iff, htake]
      rcases Nat.eq_zero_or_pos k with rfl | hk
      · exact ⟨fun _ ↦ by omega, fun _ h ↦ absurd h (lt_irrefl 0)⟩
      · rw [div_eq_div_iff_mod_add_le (by omega) hk]
        exact ⟨fun h ↦ h hk, fun h _ ↦ h⟩
    have htail : StaysInPages (pagesOf (a + BitVec.ofNat 16 k) (buf.drop k) ks)
        ↔ Fit (a.toNat + k) ks := by
      rcases Nat.lt_or_ge (a.toNat + k) (2 ^ 16) with hlt | hge
      · rw [ih _ _ (by rw [List.length_drop]; omega)
          (by rw [toNat_add_ofNat hlt]; omega), toNat_add_ofNat hlt]
      · -- the address has wrapped to 0, and only empty page writes can follow
        have hwrap : (a + BitVec.ofNat 16 k).toNat = 0 := by
          rw [BitVec.toNat_add, BitVec.toNat_ofNat]
          omega
        have hmod : a.toNat + k = 2 ^ 16 := by omega
        rw [ih _ _ (by rw [List.length_drop]; omega) (by rw [hwrap]; omega), hwrap, hmod]
        clear ih hhead hlen
        have hzero : ks.sum = 0 := by omega
        constructor <;> intro _ <;> exact fit_of_sum_eq_zero ks _ hzero
    rw [Fit, ← hhead, ← htail, pagesOf, StaysInPages, List.forall_mem_cons]
    rfl

/-! ## When the cut stays inside the pages -/

theorem fit_lastSize {addr : ℕ} (n : ℕ) (haddr : addr % 8 = 0) : Fit addr (lastSize n) := by
  rw [lastSize]
  split
  · exact ⟨by omega, trivial⟩
  · trivial

/-- From an aligned address full pages and a last one stay inside the pages. -/
theorem fit_replicate (n k : ℕ) : ∀ {addr : ℕ}, addr % 8 = 0 →
    Fit addr (List.replicate k 8 ++ lastSize n) := by
  induction k with
  | zero => intro addr h; exact fit_lastSize n h
  | succ k ih => intro addr h; exact ⟨by omega, ih (by omega)⟩

/-- The cut crosses a page boundary in one case only: the page counter is zero, so that the whole
buffer goes into one page write, and that write does not fit. -/
theorem fit_pageSizes_iff (addr n : ℕ) :
    Fit addr (pageSizes (addr % 8) n) ↔ (n / 8 % 256 = 0 → addr % 8 + n % 8 ≤ 8) := by
  rw [pageSizes]
  split_ifs with hpage hzero
  · exact ⟨fun h _ ↦ h.1, fun h ↦ ⟨h hpage, trivial⟩⟩
  · exact ⟨fun _ h ↦ absurd h hpage, fun _ ↦ fit_replicate n _ hzero⟩
  · exact ⟨fun _ h ↦ absurd h hpage, fun _ ↦ ⟨by omega, fit_replicate _ _ (by omega)⟩⟩

/-! ## Writing and reading back -/

variable {start : BitVec 16} {buf : List (BitVec 8)}

theorem staysInPages_at24Issued_iff (h : start.toNat + buf.length ≤ 2 ^ 16) :
    StaysInPages (at24Issued start buf) ↔
      Fit start.toNat (pageSizes (start.toNat % 8) buf.length) := by
  have hsum := sum_pageSizes_le (Nat.mod_lt start.toNat (by omega : 0 < 8)) buf.length
  rw [at24Issued_eq, staysInPages_pagesOf_iff _ _ _ hsum (by omega)]

/-- The chip after a write that stays inside the pages. -/
theorem mem_at24Write (h : start.toNat + buf.length ≤ 2 ^ 16)
    (hfit : Fit start.toNat (pageSizes (start.toNat % 8) buf.length)) (chip : Eeprom) :
    (at24Write eepromInterface chip start buf buf.length).mem
      = writeLinear (fun _ new ↦ new) chip.mem start.toNat
          (buf.take (pageSizes (start.toNat % 8) buf.length).sum) := by
  have hsum := sum_pageSizes_le (Nat.mod_lt start.toNat (by omega : 0 < 8)) buf.length
  rw [at24Write_eq, mem_foldl_sendPage _ _ _ _ hsum (by omega) hfit]

/-- A write that stays inside the pages can be read back exactly when all of it was sent. -/
theorem readsBack_iff (h : start.toNat + buf.length ≤ 2 ^ 16)
    (hfit : Fit start.toNat (pageSizes (start.toNat % 8) buf.length)) :
    ReadsBack start buf ↔ buf.length < 2048 := by
  have haddr : start.toNat % 8 < 8 := Nat.mod_lt _ (by omega)
  have hsum := sum_pageSizes_le haddr buf.length
  rw [← sum_pageSizes_eq_iff haddr, ReadsBack]
  constructor
  · intro hread
    by_contra hne
    -- the last byte is never sent, so a cell that held something else still does
    have hlast : buf.length - 1 < buf.length := by omega
    have hcell := hread ⟨fun _ ↦ ~~~buf[buf.length - 1], 0⟩
    rw [at24Read_eeprom, mem_at24Write h hfit] at hcell
    have hlen := congrArg List.length hcell
    rw [List.length_map, List.length_range] at hlen
    have hget := congrArg (fun l ↦ l[buf.length - 1]?) hcell
    have hin : (start.toNat + (buf.length - 1)) % 2 ^ 16 = start.toNat + (buf.length - 1) :=
      Nat.mod_eq_of_lt (by omega)
    dsimp only at hget
    rw [hlen, List.getElem?_map, List.getElem?_range hlast, List.getElem?_eq_getElem hlast,
      Option.map_some, hin, writeLinear_of_notMem _ _ _ (by rw [List.length_take]; omega)] at hget
    exact absurd (Option.some.inj hget) (by simp)
  · intro htotal chip
    have hshort : buf.length < 2048 := (sum_pageSizes_eq_iff haddr _).mp htotal
    rw [at24Read_eeprom, mem_at24Write h hfit, htotal, List.take_length,
      Nat.mod_eq_of_lt (by omega)]
    refine List.ext_getElem (by rw [List.length_map, List.length_range]) fun i _ hi ↦ ?_
    rw [List.getElem_map, List.getElem_range, Nat.mod_eq_of_lt (by omega), writeLinear_add _ _ _ hi]

/-- **Pages and reading back.** A write stays inside the pages and can be read back exactly when it
is shorter than 2048 bytes and either fills a page or ends in the page it starts in. -/
theorem at24Write_pages_iff (start : BitVec 16) (buf : List (BitVec 8))
    (h : start.toNat + buf.length ≤ 2 ^ 16) :
    StaysInPages (at24Issued start buf) ∧ ReadsBack start buf
      ↔ buf.length < 2048 ∧ (8 ≤ buf.length ∨ start.toNat % 8 + buf.length ≤ 8) := by
  rw [staysInPages_at24Issued_iff h]
  constructor
  · rintro ⟨hfit, hread⟩
    have hshort := (readsBack_iff h hfit).mp hread
    rw [fit_pageSizes_iff] at hfit
    exact ⟨hshort, by omega⟩
  · rintro ⟨hshort, hpage⟩
    have hfit : Fit start.toNat (pageSizes (start.toNat % 8) buf.length) :=
      (fit_pageSizes_iff _ _).mpr (by omega)
    exact ⟨hfit, (readsBack_iff h hfit).mpr hshort⟩

theorem at24Write_pages_ten :
    StaysInPages (at24Issued 5 (List.replicate 10 0x30)) ∧ ReadsBack 5 (List.replicate 10 0x30) :=
  (at24Write_pages_iff 5 (List.replicate 10 0x30) (by decide)).mpr (by decide)

/-- The driver's own commented-out test: five bytes at address 5 go out as one page write, which
crosses the boundary at address 8. -/
theorem at24Write_crosses :
    ¬(StaysInPages (at24Issued 5 [0x31, 0x32, 0x33, 0x34, 0x35]) ∧
      ReadsBack 5 [0x31, 0x32, 0x33, 0x34, 0x35]) := by
  rintro ⟨hpages, -⟩
  exact absurd (hpages ⟨5, [0x31, 0x32, 0x33, 0x34, 0x35]⟩ (by decide)) (by decide)

end Martink
