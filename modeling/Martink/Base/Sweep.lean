import Mathlib.Data.List.GetD
import Mathlib.Tactic

/-!
# Reading an array while it is written

A reader goes through an array, one entry after the other, and a writer stores entries meanwhile.
What the reader sees is not what the array held at any time. `sum_reads_eq` compares the sum of what
it sees with the sum of the array at the start: they differ by `late`, the sum of the changes to
entries which had not been read when they were stored.
-/

namespace Martink

inductive SweepStep (G : Type*)
  | read
  | store (i : ℕ) (v : G)

namespace SweepStep

variable {G : Type*}

def IsRead : SweepStep G → Bool
  | read => true
  | store _ _ => false

def IsStore : SweepStep G → Bool
  | read => false
  | store _ _ => true

def write (l : List G) : SweepStep G → List G
  | read => l
  | store i v => l.set i v

end SweepStep

namespace Sweep

variable {G : Type*}

/-- The array after some steps. -/
def written (l : List G) (steps : List (SweepStep G)) : List G := steps.foldl SweepStep.write l

def readCount (steps : List (SweepStep G)) : ℕ := steps.countP SweepStep.IsRead

@[simp] theorem readCount_read (steps : List (SweepStep G)) :
    readCount (.read :: steps) = readCount steps + 1 := List.countP_cons_of_pos rfl

@[simp] theorem readCount_store (i : ℕ) (v : G) (steps : List (SweepStep G)) :
    readCount (.store i v :: steps) = readCount steps := List.countP_cons_of_neg Bool.false_ne_true

theorem written_append (l : List G) (steps steps' : List (SweepStep G)) :
    written l (steps ++ steps') = written (written l steps) steps' := List.foldl_append

@[simp] theorem length_written (l : List G) (steps : List (SweepStep G)) :
    (written l steps).length = l.length := by
  induction steps generalizing l with
  | nil => rfl
  | cons e steps ih =>
    rw [written, List.foldl_cons, ← written, ih]
    cases e with
    | read => rfl
    | store i v => exact List.length_set

/-- Reading does not change the array. -/
theorem written_filter (l : List G) (steps : List (SweepStep G)) :
    written l (steps.filter SweepStep.IsStore) = written l steps := by
  induction steps generalizing l with
  | nil => rfl
  | cons e steps ih =>
    cases e with
    | read => exact ih l
    | store i v => exact ih (l.set i v)

theorem readCount_append (steps steps' : List (SweepStep G)) :
    readCount (steps ++ steps') = readCount steps + readCount steps' := List.countP_append

theorem readCount_filter (steps : List (SweepStep G)) :
    readCount (steps.filter SweepStep.IsStore) = 0 := by
  induction steps with
  | nil => rfl
  | cons e steps ih =>
    cases e with
    | read => exact ih
    | store i v => exact (readCount_store i v _).trans ih

variable [AddCommGroup G] {steps : List (SweepStep G)}

/-- What is read from position `p` on. -/
def reads : ℕ → List G → List (SweepStep G) → List G
  | _, _, [] => []
  | p, l, .read :: steps => l.getD p 0 :: reads (p + 1) l steps
  | p, l, .store i v :: steps => reads p (l.set i v) steps

/-- The changes to entries that had not been read, from position `p` on. -/
def late : ℕ → List G → List (SweepStep G) → G
  | _, _, [] => 0
  | p, l, .read :: steps => late (p + 1) l steps
  | p, l, .store i v :: steps =>
    (if p ≤ i ∧ i < l.length then v - l.getD i 0 else 0) + late p (l.set i v) steps

theorem sum_drop_set (l : List G) (p i : ℕ) (v : G) : ((l.set i v).drop p).sum
    = (l.drop p).sum + if p ≤ i ∧ i < l.length then v - l.getD i 0 else 0 := by
  by_cases hp : p ≤ i
  · have hdrop : (l.set i v).drop p = (l.drop p).set (i - p) v := by
      rw [List.drop_set, if_neg (not_lt.mpr hp)]
    have hentry : (l.drop p).getD (i - p) 0 = l.getD i 0 := by
      rw [List.getD_eq_getElem?_getD, List.getElem?_drop, Nat.add_sub_cancel' hp,
        ← List.getD_eq_getElem?_getD]
    rw [hdrop]
    by_cases hi : i < l.length
    · have hlt : i - p < (l.drop p).length := by
        rw [List.length_drop]
        omega
      rw [List.getD_eq_getElem _ _ hlt] at hentry
      rw [if_pos ⟨hp, hi⟩, List.sum_set', dif_pos hlt, hentry, neg_add_eq_sub]
    · rw [if_neg fun h ↦ hi h.2, add_zero, List.set_eq_of_length_le]
      rw [List.length_drop]
      omega
  · rw [if_neg fun h ↦ hp h.1, add_zero, List.drop_set, if_pos (not_le.mp hp)]

/-- What is read, and what is left to read, is what was left and what came late. -/
theorem sum_reads_add (steps : List (SweepStep G)) : ∀ (p : ℕ) (l : List G),
    p + readCount steps ≤ l.length →
      (reads p l steps).sum + ((written l steps).drop (p + readCount steps)).sum
        = (l.drop p).sum + late p l steps := by
  induction steps with
  | nil =>
    intro p l _
    rw [reads, late, List.sum_nil, zero_add, add_zero]
    rfl
  | cons e steps ih =>
    intro p l hle
    cases e with
    | read =>
      rw [readCount_read] at hle ⊢
      have hp : p < l.length := by omega
      have hrest := ih (p + 1) l (by omega)
      rw [show p + 1 + readCount steps = p + (readCount steps + 1) by omega] at hrest
      rw [reads, late, List.sum_cons, add_assoc]
      refine (congrArg (l.getD p 0 + ·) hrest).trans ?_
      rw [List.drop_eq_getElem_cons hp, List.sum_cons, List.getD_eq_getElem _ _ hp, add_assoc]
    | store i v =>
      rw [readCount_store] at hle ⊢
      rw [reads, late, ← add_assoc, ← sum_drop_set]
      exact ih p (l.set i v) (by rwa [List.length_set])

/-- **A whole sweep.** -/
theorem sum_reads_eq (l : List G) {steps : List (SweepStep G)} (h : readCount steps = l.length) :
    (reads 0 l steps).sum = l.sum + late 0 l steps := by
  have hsum := sum_reads_add steps 0 l (by omega)
  rw [zero_add, h, List.drop_eq_nil_of_le (by rw [length_written]), List.sum_nil, add_zero,
    List.drop_zero] at hsum
  exact hsum

theorem reads_of_no_reads (h : readCount steps = 0) (p : ℕ) (l : List G) :
    reads p l steps = [] := by
  induction steps generalizing l with
  | nil => rfl
  | cons e steps ih =>
    cases e with
    | read => exact absurd h (by simp)
    | store i v => exact ih (by simpa using h) (l.set i v)

/-- Without reads in between all changes count. -/
theorem late_of_no_reads (h : readCount steps = 0) (l : List G) :
    late 0 l steps = (written l steps).sum - l.sum := by
  have hsum := sum_reads_add steps 0 l (by omega)
  rw [reads_of_no_reads h, h, List.sum_nil, zero_add, List.drop_zero, List.drop_zero] at hsum
  rw [hsum, add_sub_cancel_left]

theorem reads_append (steps steps' : List (SweepStep G)) : ∀ (p : ℕ) (l : List G),
    reads p l (steps ++ steps')
      = reads p l steps ++ reads (p + readCount steps) (written l steps) steps' := by
  induction steps with
  | nil => exact fun _ _ ↦ rfl
  | cons e steps ih =>
    intro p l
    cases e with
    | read =>
      rw [List.cons_append, reads, reads, ih, readCount_read, List.cons_append]
      rw [show p + 1 + readCount steps = p + (readCount steps + 1) by omega]
      rfl
    | store i v =>
      rw [List.cons_append, reads, reads, ih, readCount_store]
      rfl

theorem late_append (steps steps' : List (SweepStep G)) : ∀ (p : ℕ) (l : List G),
    late p l (steps ++ steps')
      = late p l steps + late (p + readCount steps) (written l steps) steps' := by
  induction steps with
  | nil =>
    intro p l
    rw [late, zero_add]
    rfl
  | cons e steps ih =>
    intro p l
    cases e with
    | read =>
      rw [List.cons_append, late, late, ih, readCount_read]
      rw [show p + 1 + readCount steps = p + (readCount steps + 1) by omega]
      rfl
    | store i v =>
      rw [List.cons_append, late, late, ih, readCount_store, add_assoc]
      rfl

/-- Nothing comes late when only entries are stored that have been read. -/
theorem late_eq_zero (steps : List (SweepStep G)) : ∀ (p : ℕ) (l : List G),
    (∀ pre i v post, steps = pre ++ .store i v :: post → l.length ≤ p + readCount pre) →
      late p l steps = 0 := by
  induction steps with
  | nil => exact fun _ _ _ ↦ rfl
  | cons e steps ih =>
    intro p l h
    cases e with
    | read =>
      rw [late]
      refine ih (p + 1) l fun pre i v post hsplit ↦ ?_
      have hle := h (.read :: pre) i v post (by rw [hsplit]; rfl)
      rwa [readCount_read, ← add_assoc, add_right_comm] at hle
    | store i v =>
      have hend := h [] i v steps rfl
      have hend : l.length ≤ p := hend
      rw [late, if_neg (by omega), zero_add]
      refine ih p (l.set i v) fun pre j w post hsplit ↦ ?_
      rw [List.length_set]
      exact hend.trans (Nat.le_add_right _ _)

end Sweep

end Martink
