import Mathlib.Data.List.Basic
import Mathlib.Tactic

/-!
# Windows of a circular store

A circular buffer of `size` slots holds its unread elements in consecutive slots, taken modulo
`size`. `window slot size start len` reads `len` of them from `start` on. The three laws below are
what a queue needs: dropping the first element moves the start, writing the slot just past the end
appends, and a start may be reduced modulo the size.
-/

namespace Martink.Ring

variable {α : Type*}

/-- The `len` elements found from slot `start` on, in order, going round a store of `size`
slots. -/
def window (slot : ℕ → α) (size start len : ℕ) : List α :=
  (List.range len).map fun i ↦ slot ((start + i) % size)

variable {slot : ℕ → α} {size start len : ℕ}

@[simp] theorem window_zero : window slot size start 0 = [] := rfl

@[simp] theorem length_window : (window slot size start len).length = len := by
  simp [window]

/-- A start advanced by one may be reduced before the step. -/
theorem window_succ_mod (slot : ℕ → α) (size start len : ℕ) :
    window slot size (start % size + 1) len = window slot size (start + 1) len := by
  rw [window, window]
  refine List.map_congr_left fun i _ ↦ ?_
  rw [add_assoc, Nat.mod_add_mod, ← add_assoc]

/-- Reading from the front. -/
theorem window_succ :
    window slot size start (len + 1)
      = slot (start % size) :: window slot size (start + 1) len := by
  rw [window, List.range_succ_eq_map, List.map_cons, List.map_map, window, Nat.add_zero]
  congr 1
  refine List.map_congr_left fun i _ ↦ ?_
  rw [Function.comp_apply, show start + i.succ = start + 1 + i by omega]

/-- Growing at the back. -/
theorem window_succ_last :
    window slot size start (len + 1)
      = window slot size start len ++ [slot ((start + len) % size)] := by
  simp [window, List.range_succ]

/-- A window shorter than the store ignores the slot just past its end. -/
theorem window_update_end [DecidableEq ℕ] (hlen : len < size) (a : α) :
    window (Function.update slot ((start + len) % size) a) size start len
      = window slot size start len := by
  rw [window, window]
  refine List.map_congr_left fun i hi ↦ ?_
  rw [List.mem_range] at hi
  refine Function.update_of_ne (fun heq ↦ ?_) _ _
  have hmod : (start + i) ≡ (start + len) [MOD size] := heq
  have h := Nat.ModEq.add_left_cancel' start hmod
  rw [Nat.ModEq, Nat.mod_eq_of_lt (hi.trans hlen), Nat.mod_eq_of_lt hlen] at h
  omega

/-- Writing the slot just past the end appends to the window. -/
theorem window_push (hlen : len < size) (a : α) :
    window (Function.update slot ((start + len) % size) a) size start (len + 1)
      = window slot size start len ++ [a] := by
  rw [window_succ_last, window_update_end hlen, Function.update_self]

end Martink.Ring
