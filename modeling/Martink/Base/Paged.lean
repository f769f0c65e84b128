import Mathlib.Logic.Function.Basic
import Mathlib.Tactic

/-!
# Writing into a memory with pages

Serial memories take a start address and a run of data, and keep an address counter of their own.
Within a write the counter of most parts does not carry out of a page: past the last byte of the
page it goes back to the page's first. `writePaged` is that device, `writeLinear` the memory its
drivers have in mind, and `writePaged_eq_writeLinear` is the one fact that relates them: they agree
as long as the run stays inside its page.

How a datum changes a cell is a parameter: an EEPROM replaces the old value, a NOR flash can only
clear bits.
-/

namespace Martink

variable {α : Type*}

/-- The data from `a` on. -/
def bytesAt (mem : ℕ → α) (a n : ℕ) : List α := (List.range n).map fun i ↦ mem (a + i)

@[simp] theorem length_bytesAt (mem : ℕ → α) (a n : ℕ) : (bytesAt mem a n).length = n := by
  simp [bytesAt]

theorem bytesAt_add (mem : ℕ → α) (a m n : ℕ) :
    bytesAt mem a (m + n) = bytesAt mem a m ++ bytesAt mem (a + m) n := by
  simp [bytesAt, List.range_add, Nat.add_assoc]

theorem bytesAt_succ (mem : ℕ → α) (a n : ℕ) :
    bytesAt mem a (n + 1) = bytesAt mem a n ++ [mem (a + n)] :=
  bytesAt_add mem a n 1

/-- Write a run of data at consecutive addresses. -/
def writeLinear (combine : α → α → α) (mem : ℕ → α) (addr : ℕ) : List α → ℕ → α
  | [] => mem
  | d :: ds =>
    writeLinear combine (Function.update mem addr (combine (mem addr) d)) (addr + 1) ds

/-- The address after `addr` for a counter that stays inside a page. -/
def nextInPage (page addr : ℕ) : ℕ := addr / page * page + (addr + 1) % page

/-- Write a run of data with a counter that stays inside a page. -/
def writePaged (combine : α → α → α) (page : ℕ) (mem : ℕ → α) (addr : ℕ) : List α → ℕ → α
  | [] => mem
  | d :: ds =>
    writePaged combine page (Function.update mem addr (combine (mem addr) d))
      (nextInPage page addr) ds

variable {combine : α → α → α} {page : ℕ}

theorem writeLinear_append (ds es : List α) : ∀ (mem : ℕ → α) (addr : ℕ),
    writeLinear combine mem addr (ds ++ es)
      = writeLinear combine (writeLinear combine mem addr ds) (addr + ds.length) es := by
  induction ds with
  | nil => intro mem addr; rfl
  | cons d ds ih =>
    intro mem addr
    rw [List.cons_append, writeLinear, ih, writeLinear, List.length_cons,
      show addr + 1 + ds.length = addr + (ds.length + 1) by omega]

/-- A write leaves every address outside its run alone. -/
theorem writeLinear_of_notMem {x : ℕ} (ds : List α) : ∀ (mem : ℕ → α) (addr : ℕ),
    (x < addr ∨ addr + ds.length ≤ x) → writeLinear combine mem addr ds x = mem x := by
  induction ds with
  | nil => intro mem addr _; rfl
  | cons d ds ih =>
    intro mem addr hx
    rw [List.length_cons] at hx
    rw [writeLinear, ih _ _ (by omega), Function.update_of_ne (by omega)]

/-- A write combines each datum with the cell it meets. -/
theorem writeLinear_add {i : ℕ} (ds : List α) : ∀ (mem : ℕ → α) (addr : ℕ) (hi : i < ds.length),
    writeLinear combine mem addr ds (addr + i) = combine (mem (addr + i)) ds[i] := by
  induction ds generalizing i with
  | nil => intro mem addr hi; exact absurd hi (Nat.not_lt_zero i)
  | cons d ds ih =>
    intro mem addr hi
    rw [writeLinear]
    rcases i with _ | i
    · rw [writeLinear_of_notMem _ _ _ (by omega), Nat.add_zero, Function.update_self,
        List.getElem_cons_zero]
    · rw [show addr + (i + 1) = addr + 1 + i by omega, ih _ _ (by simpa using hi),
        Function.update_of_ne (by omega), List.getElem_cons_succ]

/-- A write seen from an address `base` on. -/
theorem writeLinear_base (ds : List α) {mem mem' : ℕ → α} (base addr : ℕ) {x : ℕ}
    (hmem : mem (base + x) = mem' x) :
    writeLinear combine mem (base + addr) ds (base + x) = writeLinear combine mem' addr ds x := by
  by_cases hin : addr ≤ x ∧ x < addr + ds.length
  · obtain ⟨i, rfl⟩ := Nat.exists_eq_add_of_le hin.1
    have hi : i < ds.length := by omega
    rw [writeLinear_add ds _ _ hi, ← add_assoc, writeLinear_add ds _ _ hi, add_assoc, hmem]
  · rw [writeLinear_of_notMem ds _ _ (by omega), writeLinear_of_notMem ds _ _ (by omega), hmem]

theorem nextInPage_of_lt {addr : ℕ} (h : addr % page + 1 < page) :
    nextInPage page addr = addr + 1 := by
  have hmod : (addr + 1) % page = addr % page + 1 := by
    rw [Nat.add_mod, Nat.mod_eq_of_lt (by omega : 1 < page), Nat.mod_eq_of_lt h]
  rw [nextInPage, hmod, ← add_assoc, mul_comm, Nat.div_add_mod]

/-- **Inside a page the counter counts.** -/
theorem writePaged_eq_writeLinear (ds : List α) : ∀ (mem : ℕ → α) (addr : ℕ),
    addr % page + ds.length ≤ page →
      writePaged combine page mem addr ds = writeLinear combine mem addr ds := by
  induction ds with
  | nil => intro mem addr _; rfl
  | cons d ds ih =>
    intro mem addr h
    rw [List.length_cons] at h
    rw [writePaged, writeLinear]
    rcases ds with _ | ⟨e, es⟩
    · rfl
    · rw [List.length_cons] at h
      have hmod : (addr + 1) % page = addr % page + 1 := by
        rw [Nat.add_mod, Nat.mod_eq_of_lt (by omega : 1 < page), Nat.mod_eq_of_lt (by omega)]
      rw [nextInPage_of_lt (by omega)]
      exact ih _ _ (by rw [hmod, List.length_cons]; omega)

/-- The same page at both ends is what staying inside it means. -/
theorem div_eq_div_iff_mod_add_le {addr len : ℕ} (hpage : 0 < page) (hlen : 0 < len) :
    addr / page = (addr + len - 1) / page ↔ addr % page + len ≤ page := by
  have hsplit : addr + len - 1 = page * (addr / page) + (addr % page + len - 1) := by
    have := Nat.div_add_mod addr page
    omega
  rw [hsplit, Nat.mul_add_div hpage]
  constructor
  · intro h
    have hzero : (addr % page + len - 1) / page = 0 := by omega
    have := (Nat.div_eq_zero_iff_lt hpage).mp hzero
    omega
  · intro h
    have hzero : (addr % page + len - 1) / page = 0 := Nat.div_eq_of_lt (by omega)
    rw [hzero, Nat.add_zero]

end Martink
