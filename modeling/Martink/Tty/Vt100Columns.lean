import Martink.Tty.Vt100Line

/-!
# Horizontal moves

With line wrap `_vt100_move(dx, 0)` is meant to move the cursor by `dx` cells, counted row by row.
To the right, up to column `2 ^ 15 - 1`, it does (`column_right`). To the left of column 0 the new
column is one too far (`column_left_of`), so that a backspace at the start of a line does not go
back to where the last character was printed.
-/

namespace Martink

namespace Vt100

/-- The moves that arrive at the right cell: to a column that is not negative and fits the `int16_t`
it is computed in. On screens whose width is negative as an `int16_t` the columns from the width's
absolute value up to the width are left out, and those that overflow are let in. -/
def CellsFit (w x : BitVec 16) (dx : ℤ) : Prop :=
  w.toNat < 2 ^ 15 ∧ 0 ≤ x.toNat + dx ∧ x.toNat + dx < 2 ^ 15 ∨
    2 ^ 15 ≤ w.toNat ∧ (0 ≤ x.toNat + dx ∧ x.toNat + dx + w.toNat < 2 ^ 16 ∨
      w.toNat ≤ x.toNat + dx ∧ x.toNat + dx < 2 ^ 16)

/-- The columns where a backspace goes back to the character before it: not at the end of the line.
On screens whose width is negative as an `int16_t` that is the column of its absolute value; for the
width -1 both moves are wrong from column 0, and cancel. -/
def BackFits (w x : BitVec 16) : Prop :=
  w.toNat < 2 ^ 15 ∧ x.toNat + 1 < w.toNat ∨
    2 ^ 15 ≤ w.toNat ∧ (x.toNat + 1 + w.toNat < 2 ^ 16 ∨ w.toNat = 65535 ∧ x.toNat = 0)

instance (w x : BitVec 16) (dx : ℤ) : Decidable (CellsFit w x dx) :=
  inferInstanceAs (Decidable (_ ∨ _))

instance (w x : BitVec 16) : Decidable (BackFits w x) := inferInstanceAs (Decidable (_ ∨ _))

/-! ## The column -/

section Columns

variable {w x x' x₁ x₂ : BitVec 16} {dx rows rows₁ rows₂ : ℤ} {m : ℕ}

/-- To the right, or to the left inside the line. -/
theorem column_right (hw : w.toNat < 2 ^ 15) (hx : x.toNat < w.toNat)
    (h : 0 ≤ x.toNat + dx ∧ x.toNat + dx < 2 ^ 15) :
    column w true x dx 0 = some (u16 ((x.toNat + dx) % w.toNat), (x.toNat + dx) / w.toNat) := by
  have hs : s16 (dx + x.toNat) = x.toNat + dx := by
    rw [add_comm, s16_of_range (by omega) (by omega)]
  have hwidth : s16 w.toNat = w.toNat := s16_of_range (by omega) (by omega)
  rw [column, hs, hwidth]
  rcases lt_or_ge (x.toNat + dx) w.toNat with hinside | hbeyond
  · rw [if_neg (by omega), if_neg (by omega), Int.emod_eq_of_lt h.1 hinside,
      Int.ediv_eq_zero_of_lt h.1 hinside]
  · have hquot : (x.toNat + dx) / w.toNat ≤ x.toNat + dx := Int.ediv_le_self _ h.1
    have hnonneg : 0 ≤ (x.toNat + dx) / (w.toNat : ℤ) := Int.ediv_nonneg h.1 (by omega)
    rw [if_pos hbeyond, if_pos rfl, if_neg (by omega), Int.tmod_eq_emod_of_nonneg h.1,
      Int.tdiv_eq_ediv_of_nonneg h.1, zero_add, s16_of_range (by omega) (by omega)]

/-- To the left of the line, and beyond `int16_t`. -/
theorem column_left_of (hw : w.toNat < 2 ^ 15) (hx : x.toNat < w.toNat)
    (hdx : -2 ^ 15 ≤ dx ∧ dx < 2 ^ 15) (h : ¬(0 ≤ x.toNat + dx ∧ x.toNat + dx < 2 ^ 15)) :
    ∃ k : ℕ, 0 < k ∧ k ≤ 2 ^ 15 ∧ (x.toNat + dx = -k ∨ x.toNat + dx = 2 ^ 16 - k) ∧
      column w true x dx 0
        = some (u16 (w.toNat - ↑(k % w.toNat) + 1), s16 (-↑(k / w.toNat) - 1)) := by
  obtain ⟨k, hk⟩ : ∃ k : ℕ, s16 (dx + x.toNat) = -k := by
    refine ⟨(s16 (dx + x.toNat)).natAbs, ?_⟩
    rw [s16]
    omega
  have hwidth : s16 w.toNat = w.toNat := s16_of_range (by omega) (by omega)
  have hrange := hk
  rw [s16] at hrange
  refine ⟨k, by omega, by omega, by omega, ?_⟩
  rw [column, hk, hwidth, if_neg (by omega), if_pos (by omega), if_neg (by omega), Int.natAbs_neg,
    Int.natAbs_natCast, Int.neg_tdiv, zero_add]
  rfl

/-- The product by a width that is negative as an `int16_t`. -/
theorem mul_width (q : ℤ) (w : BitVec 16) :
    q * w.toNat = 65536 * q - q * (65536 - w.toNat : ℕ) := by
  have hsplit : (w.toNat : ℤ) = 65536 - (65536 - w.toNat : ℕ) := by
    have := w.isLt
    omega
  rw [hsplit]
  ring

/-- The quotient as a product, for `omega`. -/
theorem div_mul_eq (k m : ℕ) : ((k / m : ℕ) : ℤ) * m = k - (k % m : ℕ) := by
  have hsplit : ((m * (k / m) + k % m : ℕ) : ℤ) = k := congrArg _ (Nat.div_add_mod k m)
  rw [Nat.cast_add, Nat.cast_mul] at hsplit
  linarith

/-- A screen of negative width. -/
theorem column_wide (hw : 2 ^ 15 ≤ w.toNat) (hx : x.toNat < w.toNat)
    (hdx : -2 ^ 15 ≤ dx ∧ dx < 2 ^ 15) (hcolumn : column w true x dx 0 = some (x', rows)) :
    rows * w.toNat + x'.toNat = x.toNat + dx ↔
      0 ≤ x.toNat + dx ∧ x.toNat + dx + w.toNat < 2 ^ 16 ∨
        w.toNat ≤ x.toNat + dx ∧ x.toNat + dx < 2 ^ 16 := by
  have hwlt := w.isLt
  rw [mul_width rows]
  generalize hm : 65536 - w.toNat = m
  obtain ⟨k, hk⟩ : ∃ k : ℕ, s16 (dx + x.toNat) = k ∨ s16 (dx + x.toNat) = -k :=
    ⟨(s16 (dx + x.toNat)).natAbs, by omega⟩
  have hprod := div_mul_eq k m
  have hrem := Nat.mod_lt k (show m > 0 by omega)
  have hquot := Nat.div_le_self k m
  have hsmall : k < m → k / m = 0 := Nat.div_eq_of_lt
  have hlarge : m ≤ k → 0 < k / m := fun h ↦ Nat.div_pos h (by omega)
  rcases hk with hk | hk
  · rw [column_wide_right hw hm hk, zero_sub] at hcolumn
    rw [s16] at hk
    generalize k / m = q at *
    generalize k % m = r at *
    obtain ⟨rfl, rfl⟩ := Prod.mk.inj (Option.some.inj hcolumn)
    rw [toNat_u16_natCast, s16_of_range (by omega) (by omega), neg_mul, hprod]
    omega
  rcases Nat.lt_or_ge m k with hbelow | hinside
  · rw [column_wide_far hw hm hk hbelow, zero_add] at hcolumn
    rw [s16] at hk
    generalize k / m = q at *
    generalize k % m = r at *
    obtain ⟨rfl, rfl⟩ := Prod.mk.inj (Option.some.inj hcolumn)
    rw [toNat_u16, s16_of_range (by omega) (by omega), sub_mul, hprod]
    omega
  · rw [column_wide_left hw hm hk hinside, zero_add] at hcolumn
    rw [s16] at hk
    obtain ⟨rfl, rfl⟩ := Prod.mk.inj (Option.some.inj hcolumn)
    rw [toNat_u16]
    rcases Nat.lt_or_eq_of_le hinside with hlt | rfl
    · rw [Nat.div_eq_of_lt hlt, Nat.mod_eq_of_lt hlt, s16_of_range (by decide) (by decide)]
      omega
    · rw [Nat.div_self (by omega), Nat.mod_self, s16_of_range (by decide) (by decide)]
      omega

/-- The column to the left of the line is one too far. -/
theorem column_left_ne {k : ℕ} (hw : w.toNat < 2 ^ 15) (hpos : 0 < w.toNat)
    (hk : 0 < k ∧ k ≤ 2 ^ 15)
    (hx' : x' = u16 (w.toNat - ↑(k % w.toNat) + 1)) (hrows : rows = s16 (-↑(k / w.toNat) - 1)) :
    rows * w.toNat + x'.toNat = 1 - (k : ℤ) ∨
      rows * w.toNat + x'.toNat = 2 ^ 15 + 1 ∧ k = 2 ^ 15 := by
  have hrem := Nat.mod_lt k hpos
  have hprod := div_mul_eq k w.toNat
  have hcol := toNat_u16_of_lt (z := w.toNat - ↑(k % w.toNat) + 1) (by omega) (by omega)
  rw [hx', hcol, hrows]
  rcases Nat.lt_or_ge 1 w.toNat with hwide | hone
  · have hquot : k / w.toNat ≤ k / 2 := Nat.div_le_div_left hwide (by decide)
    have hrange : s16 (-((k / w.toNat : ℕ) : ℤ) - 1) = -((k / w.toNat : ℕ) : ℤ) - 1 := by
      generalize k / w.toNat = q at *
      exact s16_of_range (by omega) (by omega)
    left
    rw [hrange, sub_mul, neg_mul, hprod]
    omega
  · have hw1 : w.toNat = 1 := by omega
    rw [hw1, Nat.div_one, Nat.mod_one, s16]
    omega

/-- **The column** and the rows to move down are those of the cell, when `CellsFit` says so. -/
theorem column_cells (hx : x.toNat < w.toNat) (hdx : -2 ^ 15 ≤ dx ∧ dx < 2 ^ 15)
    (hcolumn : column w true x dx 0 = some (x', rows)) :
    rows * w.toNat + x'.toNat = x.toNat + dx ↔ CellsFit w x dx := by
  rcases Nat.lt_or_ge w.toNat (2 ^ 15) with hw | hw
  · have hfit : CellsFit w x dx ↔ 0 ≤ x.toNat + dx ∧ x.toNat + dx < 2 ^ 15 := by
      rw [CellsFit]
      omega
    rw [hfit]
    by_cases hin : 0 ≤ x.toNat + dx ∧ x.toNat + dx < 2 ^ 15
    · rw [column_right hw hx hin] at hcolumn
      obtain ⟨rfl, rfl⟩ := Prod.mk.inj (Option.some.inj hcolumn)
      have hlo := Int.emod_nonneg (x.toNat + dx) (b := (w.toNat : ℤ)) (by omega)
      have hhi := Int.emod_lt_of_pos (x.toNat + dx) (b := (w.toNat : ℤ)) (by omega)
      rw [toNat_u16_of_lt hlo (by omega), Int.ediv_mul_add_emod]
      exact iff_of_true rfl hin
    · obtain ⟨k, hpos, hle, hsum, hcol⟩ := column_left_of hw hx hdx hin
      rw [hcol] at hcolumn
      obtain ⟨hx', hrows⟩ := Prod.mk.inj (Option.some.inj hcolumn)
      have hne := column_left_ne hw (by omega) ⟨hpos, hle⟩ hx'.symm hrows.symm
      omega
  · have hfit : CellsFit w x dx ↔ 0 ≤ x.toNat + dx ∧ x.toNat + dx + w.toNat < 2 ^ 16 ∨
        w.toNat ≤ x.toNat + dx ∧ x.toNat + dx < 2 ^ 16 := by
      rw [CellsFit]
      omega
    rw [hfit]
    exact column_wide hw hx hdx hcolumn

/-- Back from the next column of the line. -/
theorem column_back_inside {wrap : Bool} (hw : w.toNat < 2 ^ 15)
    (hinside : x.toNat + 1 < w.toNat) : column w wrap (x + 1) (-1) 0 = some (x, 0) := by
  have hx : (x + 1).toNat = x.toNat + 1 := by
    rw [BitVec.toNat_add]
    simp
    omega
  have hleft : column w wrap (x + 1) (s16 (-(1 : ℕ))) 0
      = some (u16 ((x + 1).toNat - (1 : ℕ)), 0) :=
    column_left hw (by omega) (by omega) (by omega)
  have hone : s16 (-(1 : ℕ)) = -1 := by decide
  rw [hx, hone, Nat.cast_add, Nat.cast_one, add_sub_cancel_right, u16_toNat] at hleft
  exact hleft

/-- Back from the first column of a screen of negative width. -/
theorem back_of_zero (hw : 2 ^ 15 ≤ w.toNat) (hm : 65536 - w.toNat = m) (hx : x₁.toNat = 0)
    (hcolumn : column w true x₁ (-1) 0 = some (x₂, rows₂)) :
    m = 1 ∧ x₂.toNat = 0 ∧ rows₂ = 1 ∨ 1 < m ∧ x₂.toNat = 65535 ∧ rows₂ = 0 := by
  have hlt := w.isLt
  have hs : s16 (-1 + x₁.toNat) = -((1 : ℕ) : ℤ) := by rw [hx]; decide
  rw [column_wide_left hw hm hs (by omega)] at hcolumn
  obtain ⟨rfl, rfl⟩ := Prod.mk.inj (Option.some.inj hcolumn)
  rcases Nat.lt_or_ge 1 m with hwide | hone
  · right
    rw [Nat.mod_eq_of_lt hwide, Nat.div_eq_of_lt hwide]
    exact ⟨hwide, rfl, rfl⟩
  · left
    obtain rfl : m = 1 := by omega
    exact ⟨rfl, rfl, rfl⟩

/-- Back from a column up to the absolute value of the width. -/
theorem back_of_le (hw : 2 ^ 15 ≤ w.toNat) (hm : 65536 - w.toNat = m) (hpos : 0 < x₁.toNat)
    (hle : x₁.toNat ≤ m) (hcolumn : column w true x₁ (-1) 0 = some (x₂, rows₂)) :
    x₂.toNat + 1 = x₁.toNat ∧ rows₂ = 0 := by
  have hs : s16 (-1 + x₁.toNat) = (x₁.toNat - 1 : ℕ) := by rw [s16]; omega
  rw [column_wide_right hw hm hs, Nat.mod_eq_of_lt (by omega), Nat.div_eq_of_lt (by omega)]
    at hcolumn
  obtain ⟨rfl, rfl⟩ := Prod.mk.inj (Option.some.inj hcolumn)
  rw [toNat_u16_natCast]
  exact ⟨by omega, rfl⟩

/-- Back from a column that is negative as an `int16_t`. -/
theorem back_of_far {c : ℕ} (hw : 2 ^ 15 ≤ w.toNat) (hm : 65536 - w.toNat = m) (hc : c < m)
    (hsum : m + c ≤ 2 ^ 15) (hx : x₁.toNat + m + c = 65537)
    (hcolumn : column w true x₁ (-1) 0 = some (x₂, rows₂)) :
    c = 0 ∧ rows₂ = 1 ∨ 0 < c ∧ x₂ = x₁ ∧ rows₂ = 0 := by
  have hs : s16 (-1 + x₁.toNat) = -((m + c : ℕ) : ℤ) := by rw [s16]; omega
  rcases Nat.eq_zero_or_pos c with rfl | hpos
  · rw [column_wide_left hw hm hs (by omega), Nat.add_zero, Nat.div_self (by omega)] at hcolumn
    obtain ⟨-, rfl⟩ := Prod.mk.inj (Option.some.inj hcolumn)
    exact Or.inl ⟨rfl, rfl⟩
  · rw [column_wide_far hw hm hs (by omega), Nat.add_mod_left, Nat.mod_eq_of_lt hc,
      Nat.add_div_left c (by omega), Nat.div_eq_of_lt hc] at hcolumn
    obtain ⟨rfl, rfl⟩ := Prod.mk.inj (Option.some.inj hcolumn)
    have hback := toNat_u16 (-(m : ℤ) - c + 1)
    exact Or.inr ⟨hpos, BitVec.eq_of_toNat_eq (by omega), rfl⟩

/-- On a screen of negative width, from a column that the next one keeps positive. -/
theorem column_wide_back_of_lt (hw : 2 ^ 15 ≤ w.toNat) (hlow : x.toNat + 1 < 2 ^ 15)
    (hprint : column w true x 1 0 = some (x₁, rows₁))
    (hback : column w true x₁ (-1) 0 = some (x₂, rows₂)) :
    x₂ = x ∧ rows₁ + rows₂ = 0 ↔
      x.toNat + 1 + w.toNat < 2 ^ 16 ∨ w.toNat = 65535 ∧ x.toNat = 0 := by
  have hwlt := w.isLt
  have heq : x₂ = x ↔ x₂.toNat = x.toNat := BitVec.toNat_inj.symm
  rw [heq]
  generalize hm : 65536 - w.toNat = m
  have hs : s16 (1 + x.toNat) = (x.toNat + 1 : ℕ) := by rw [s16]; omega
  rw [column_wide_right hw hm hs] at hprint
  have hrem := Nat.mod_lt (x.toNat + 1) (show m > 0 by omega)
  have hsplit := Nat.div_add_mod (x.toNat + 1) m
  have hquot := Nat.div_le_self (x.toNat + 1) m
  have hsmall : x.toNat + 1 < m → (x.toNat + 1) % m = x.toNat + 1 := Nat.mod_eq_of_lt
  have hquot₀ : x.toNat + 1 < m ↔ (x.toNat + 1) / m = 0 := by
    rw [Nat.div_eq_zero_iff]
    omega
  generalize (x.toNat + 1) / m = q at *
  generalize (x.toNat + 1) % m = r at *
  obtain ⟨rfl, rfl⟩ := Prod.mk.inj (Option.some.inj hprint)
  have hcol : (u16 (r : ℤ)).toNat = r := by
    rw [toNat_u16_natCast]
    omega
  rw [zero_sub, s16_of_range (by omega) (by omega)]
  rcases Nat.eq_zero_or_pos r with rfl | hpos
  · rcases back_of_zero hw hm hcol hback with ⟨rfl, hx₂, rfl⟩ | ⟨hwide, hx₂, rfl⟩
    · omega
    · omega
  · obtain ⟨hx₂, rfl⟩ := back_of_le hw hm (by omega) (by omega) hback
    omega

/-- From a column whose next one is negative there is no way back. -/
theorem column_wide_back_of_ge (hw : 2 ^ 15 ≤ w.toNat) (hx : x.toNat < w.toNat)
    (hhigh : 2 ^ 15 ≤ x.toNat + 1) (hprint : column w true x 1 0 = some (x₁, rows₁))
    (hback : column w true x₁ (-1) 0 = some (x₂, rows₂)) : ¬(x₂ = x ∧ rows₁ + rows₂ = 0) := by
  rintro ⟨rfl, hrows⟩
  have hwlt := w.isLt
  have hs : s16 (1 + x₂.toNat) = -((65535 - x₂.toNat : ℕ) : ℤ) := by rw [s16]; omega
  generalize hm : 65536 - w.toNat = m
  generalize hk : 65535 - x₂.toNat = k at hs
  rcases Nat.lt_or_ge m k with hfar | hnear
  · rw [column_wide_far hw hm hs hfar] at hprint
    have hrem := Nat.mod_lt k (show m > 0 by omega)
    have hsplit := Nat.div_add_mod k m
    have hquot := Nat.div_le_self k m
    have hone := Nat.div_pos hfar.le (by omega)
    generalize k / m = q at *
    generalize k % m = r at *
    obtain ⟨rfl, rfl⟩ := Prod.mk.inj (Option.some.inj hprint)
    rw [zero_add, s16_of_range (by omega) (by omega)] at hrows
    have hcol := toNat_u16 (-(m : ℤ) - r + 1)
    have hmul : m * 1 ≤ m * q := Nat.mul_le_mul_left m hone
    rcases Nat.lt_or_ge 1 m with hwide | hthin
    · rcases back_of_far hw hm hrem (by omega) (by omega) hback with ⟨-, rfl⟩ | ⟨-, hx₂, rfl⟩
      · omega
      · obtain rfl : q = 1 := by omega
        rw [← hx₂] at hcol
        omega
    · rcases back_of_zero hw hm (by omega) hback with ⟨-, -, rfl⟩ | ⟨hwide, -, -⟩
      · omega
      · omega
  · obtain rfl : k = m := by omega
    rw [column_wide_left hw hm hs le_rfl, Nat.mod_self, Nat.div_self (by omega)] at hprint
    obtain ⟨rfl, rfl⟩ := Prod.mk.inj (Option.some.inj hprint)
    rcases back_of_zero hw hm rfl hback with ⟨-, -, rfl⟩ | ⟨-, hx₂', -⟩
    · exact absurd hrows (by decide)
    · omega

/-- **There and back.** -/
theorem column_back (hx : x.toNat < w.toNat) (hprint : column w true x 1 0 = some (x₁, rows₁))
    (hback : column w true x₁ (-1) 0 = some (x₂, rows₂)) :
    x₂ = x ∧ rows₁ + rows₂ = 0 ↔ BackFits w x := by
  rcases Nat.lt_or_ge w.toNat (2 ^ 15) with hw | hw
  · have hfit : BackFits w x ↔ x.toNat + 1 < w.toNat := by
      rw [BackFits]
      omega
    rw [hfit]
    rcases Nat.lt_or_ge (x.toNat + 1) w.toNat with hinside | hmargin
    · rw [column_inside hw.le hinside] at hprint
      obtain ⟨rfl, rfl⟩ := Prod.mk.inj (Option.some.inj hprint)
      rw [column_back_inside hw hinside] at hback
      obtain ⟨rfl, rfl⟩ := Prod.mk.inj (Option.some.inj hback)
      exact iff_of_true ⟨rfl, rfl⟩ hinside
    · rw [column_margin (by omega), if_pos rfl] at hprint
      obtain ⟨rfl, rfl⟩ := Prod.mk.inj (Option.some.inj hprint)
      have hzero : (0 : BitVec 16).toNat = 0 := rfl
      have hone : -2 ^ 15 ≤ (-1 : ℤ) ∧ (-1 : ℤ) < 2 ^ 15 := by decide
      obtain ⟨k, hpos, hle, hsum, hcol⟩ := column_left_of (x := 0) hw (by omega) hone (by decide)
      obtain rfl : k = 1 := by omega
      rw [hcol] at hback
      obtain ⟨rfl, -⟩ := Prod.mk.inj (Option.some.inj hback)
      refine iff_of_false (fun hsame ↦ ?_) (by omega)
      have hrem := Nat.mod_le 1 w.toNat
      have hcolumn := toNat_u16_of_lt (z := w.toNat - ↑(1 % w.toNat) + 1) (by omega) (by omega)
      rw [hsame.1] at hcolumn
      omega
  · have hfit : BackFits w x ↔
        x.toNat + 1 + w.toNat < 2 ^ 16 ∨ w.toNat = 65535 ∧ x.toNat = 0 := by
      rw [BackFits]
      omega
    rw [hfit]
    rcases Nat.lt_or_ge (x.toNat + 1) (2 ^ 15) with hlow | hhigh
    · exact column_wide_back_of_lt hw hlow hprint hback
    · exact iff_of_false (column_wide_back_of_ge hw hx hhigh hprint hback) (by omega)

end Columns

/-! ## The move -/

/-- The move by `dx` returns, `dx` cells further. -/
def MovesCells (t : Vt100) (dx : ℤ) : Prop :=
  ∃ fuel t', move (putc fuel) dx 0 t = .done t' ∧ (t'.linear : ℤ) = t.linear + dx

/-- The target row is in the scroll region: the row that the move aims at, or, on a screen and for a
region of less than `2 ^ 15` columns and rows, the row of the target cell, from a row of the
region. -/
def TargetInside (t : Vt100) (dx : ℤ) : Prop :=
  (∃ x' rows, column t.screenWidth t.cursorWrap t.cursorX dx 0 = some (x', rows) ∧
    t.scrollStartRow.toNat ≤ t.cursorY.toNat + rows ∧
    t.cursorY.toNat + rows < t.scrollEndRow.toNat) ∨
  (t.screenWidth.toNat < 2 ^ 15 ∧ t.scrollEndRow.toNat < 2 ^ 15) ∧
    (t.scrollStartRow.toNat ≤ t.cursorY.toNat ∧ t.cursorY.toNat < t.scrollEndRow.toNat) ∧
    t.scrollStartRow.toNat * t.screenWidth.toNat ≤ t.linear + dx ∧
    t.linear + dx < t.scrollEndRow.toNat * t.screenWidth.toNat

section Move

variable {t : Vt100} {x' : BitVec 16} {dx rows : ℤ}

/-- A move that aims at a row of the region ends there. -/
theorem move_of_column_inside
    (hcolumn : column t.screenWidth t.cursorWrap t.cursorX dx 0 = some (x', rows))
    (hstart : t.scrollStartRow.toNat ≤ t.cursorY.toNat + rows)
    (hend : t.cursorY.toNat + rows < t.scrollEndRow.toNat) (fuel : ℕ) :
    ∃ t', move (putc fuel) dx 0 t = .done t' ∧ t'.cursor = (x', u16 (t.cursorY.toNat + rows)) ∧
      (t'.linear : ℤ) = (t.cursorY.toNat + rows) * t.screenWidth.toNat + x'.toNat := by
  have hlt := t.scrollEndRow.isLt
  have hrow := toNat_u16_of_lt (z := t.cursorY.toNat + rows) (by omega) (by omega)
  refine ⟨_, (move_of_column hcolumn).trans (moveRow_inside hstart hend), rfl, ?_⟩
  rw [linear, Nat.cast_add, Nat.cast_mul, hrow]

/-- So it arrives at the right cell exactly when the column does. -/
theorem movesCells_of_column (hx : t.cursorX.toNat < t.screenWidth.toNat)
    (hwrap : t.cursorWrap = true) (hdx : -2 ^ 15 ≤ dx ∧ dx < 2 ^ 15)
    (hcolumn : column t.screenWidth t.cursorWrap t.cursorX dx 0 = some (x', rows))
    (hstart : t.scrollStartRow.toNat ≤ t.cursorY.toNat + rows)
    (hend : t.cursorY.toNat + rows < t.scrollEndRow.toNat) :
    MovesCells t dx ↔ CellsFit t.screenWidth t.cursorX dx := by
  have hmove := move_of_column_inside hcolumn hstart hend
  rw [hwrap] at hcolumn
  rw [← column_cells hx hdx hcolumn]
  have hlinear : (t.linear : ℤ) = t.cursorY.toNat * t.screenWidth.toNat + t.cursorX.toNat := by
    rw [linear, Nat.cast_add, Nat.cast_mul]
  constructor
  · rintro ⟨fuel, t', hrun, hcell⟩
    obtain ⟨u, hdone, -, hu⟩ := hmove fuel
    rw [hdone] at hrun
    cases hrun
    rw [hu, hlinear, add_mul] at hcell
    linarith
  · intro hcells
    obtain ⟨u, hdone, -, hu⟩ := hmove 0
    refine ⟨0, u, hdone, ?_⟩
    rw [hu, hlinear, add_mul]
    linarith

/-- The move to the right aims at the row of the target cell. -/
theorem row_of_right (hw : 0 < t.screenWidth.toNat)
    (hstart : t.scrollStartRow.toNat * t.screenWidth.toNat ≤ t.linear + dx)
    (hend : t.linear + dx < t.scrollEndRow.toNat * t.screenWidth.toNat) :
    t.scrollStartRow.toNat ≤ t.cursorY.toNat + (t.cursorX.toNat + dx) / t.screenWidth.toNat ∧
      t.cursorY.toNat + (t.cursorX.toNat + dx) / t.screenWidth.toNat
        < (t.scrollEndRow.toNat : ℤ) := by
  have hpos : (0 : ℤ) < t.screenWidth.toNat := by omega
  have hrow : (t.linear + dx) / t.screenWidth.toNat
      = t.cursorY.toNat + (t.cursorX.toNat + dx) / t.screenWidth.toNat := by
    have hsum : (t.linear : ℤ) + dx
        = t.cursorX.toNat + dx + t.cursorY.toNat * t.screenWidth.toNat := by
      rw [linear, Nat.cast_add, Nat.cast_mul]
      ring
    rw [hsum, Int.add_mul_ediv_right _ _ hpos.ne', add_comm]
  rw [← hrow]
  exact ⟨Int.le_ediv_of_mul_le hpos hstart, Int.ediv_lt_of_lt_mul hpos hend⟩

/-- The quotient of a move to the left that aims at the first cell of row `start`. -/
theorem quot_of_first_cell {start y x w k : ℕ} (hw : 0 < w) (hy : start ≤ y) (hk : k ≤ 2 ^ 15)
    (hsum : x + dx = -k ∨ x + dx = 2 ^ 16 - k) (hcell : (start * w : ℤ) = y * w + x + dx) :
    k / w = y - start := by
  obtain ⟨d, rfl⟩ := Nat.exists_eq_add_of_le hy
  have hnonneg : (0 : ℤ) ≤ d * w := mul_nonneg (Int.natCast_nonneg _) (Int.natCast_nonneg _)
  have hprod : (k : ℤ) = d * w := by
    rw [Nat.cast_add, add_mul] at hcell
    omega
  have hk : k = d * w := by exact_mod_cast hprod
  rw [hk, Nat.mul_div_cancel _ hw, Nat.add_sub_cancel_left]

/-- A move to a row outside the region ends in the first cell of the region, after aiming below it,
or in a row below the region. -/
theorem rowMove_out {start stop x y : BitVec 16} (hle : start.toNat ≤ stop.toNat)
    (hstop : stop.toNat < 2 ^ 15) (hne : lines start stop y ≠ 0) :
    (rowMove start stop x y = (0, start) ∧ stop.toNat ≤ y.toNat ∧
      y.toNat + 1 < stop.toNat + 2 ^ 15) ∨
      ∃ r, rowMove start stop x y = (0, r) ∧ stop.toNat ≤ r.toNat := by
  have hlines := lines_eq_ite start stop y
  have hlow : -32768 ≤ lines start stop y := (s16_range _).1
  have hy := y.isLt
  rw [rowMove]
  generalize lines start stop y = n at *
  rcases lt_or_gt_of_ne hne with hdown | hup
  · refine Or.inr ⟨u16 (stop.toNat - n), ?_, ?_⟩
    · rw [if_neg (by omega), if_pos hdown]
    · have hrow := toNat_u16_of_lt (z := stop.toNat - n) (by omega) (by omega)
      omega
  · refine Or.inl ⟨if_pos hup, ?_⟩
    rw [s16, s16] at hlines
    split_ifs at hlines <;> omega

/-- The row of a target in the region. -/
theorem row_inside_of_lines {start stop y : BitVec 16} (hpos : 0 < stop.toNat)
    (hstop : stop.toNat < 2 ^ 15) (hzero : lines start stop y = 0) :
    start.toNat ≤ y.toNat ∧ y.toNat < stop.toNat := by
  have hlines := lines_eq_ite start stop y
  have hy := y.isLt
  rw [hzero, s16, s16] at hlines
  split_ifs at hlines <;> omega

/-- To the left of the line no move arrives at its cell, not even by scrolling. -/
theorem not_movesCells_left (hx : t.cursorX.toNat < t.screenWidth.toNat)
    (hwrap : t.cursorWrap = true)
    (hy : t.scrollStartRow.toNat ≤ t.cursorY.toNat ∧ t.cursorY.toNat < t.scrollEndRow.toNat)
    (hdx : -2 ^ 15 ≤ dx ∧ dx < 2 ^ 15) (hw : t.screenWidth.toNat < 2 ^ 15)
    (hstop : t.scrollEndRow.toNat < 2 ^ 15)
    (hend : t.linear + dx < t.scrollEndRow.toNat * t.screenWidth.toNat)
    (hleft : ¬(0 ≤ t.cursorX.toNat + dx ∧ t.cursorX.toNat + dx < 2 ^ 15)) : ¬MovesCells t dx := by
  obtain ⟨k, hpos, hle, hsum, hcolumn⟩ := column_left_of hw hx hdx hleft
  rw [← hwrap] at hcolumn
  generalize hrows : s16 (-((k / t.screenWidth.toNat : ℕ) : ℤ) - 1) = rows at hcolumn
  generalize u16 (t.screenWidth.toNat - ↑(k % t.screenWidth.toNat) + 1) = x' at hcolumn
  have hrange := s16_range (-((k / t.screenWidth.toNat : ℕ) : ℤ) - 1)
  rw [hrows] at hrange
  have hne : rows ≠ 0 := by
    rw [s16] at hrows
    have := Nat.div_le_self k t.screenWidth.toNat
    generalize k / t.screenWidth.toNat = q at *
    omega
  rintro ⟨fuel, t', hmove, hcell⟩
  have hrun := hmove
  rw [move_of_column hcolumn] at hrun
  have hframe := (frame_moveRow (frame_putc fuel) rows { t with cursorX := x' }).of_done hrun
  have hwidth : t'.screenWidth = t.screenWidth := hframe.screenWidth
  have hcursor := (moveRow_cursor hne { t with cursorX := x' }).of_done hrun
  dsimp only at hcursor
  have hnew := toNat_u16 (t.cursorY.toNat + rows)
  have hlinear : (t'.linear : ℤ)
      = t'.cursorY.toNat * t.screenWidth.toNat + t'.cursorX.toNat := by
    rw [linear, hwidth, Nat.cast_add, Nat.cast_mul]
  rcases eq_or_ne (lines t.scrollStartRow t.scrollEndRow (u16 (t.cursorY.toNat + rows))) 0
    with hzero | hout
  · have hin := row_inside_of_lines (by omega) hstop hzero
    have hfit := (movesCells_of_column hx hwrap hdx hcolumn (by omega) (by omega)).mp
      ⟨fuel, t', hmove, hcell⟩
    rw [CellsFit] at hfit
    omega
  rcases rowMove_out (x := x') (by omega) hstop hout with ⟨hfirst, hbelow⟩ | ⟨r, hrow, hbelow⟩
  · -- the cursor is in the first cell of the region, and the move aimed at the row above it
    rw [hfirst] at hcursor
    rw [hlinear, cursorX_of_cursor hcursor, cursorY_of_cursor hcursor, linear] at hcell
    push_cast [BitVec.toNat_zero] at hcell
    rw [add_zero] at hcell
    have hquot := quot_of_first_cell (by omega) hy.1 hle hsum hcell
    rw [hquot, s16_of_range (by omega) (by omega)] at hrows
    omega
  · -- it is below the region
    rw [hrow] at hcursor
    have hmul : t.scrollEndRow.toNat * t.screenWidth.toNat
        ≤ t'.cursorY.toNat * t.screenWidth.toNat := by
      rw [cursorY_of_cursor hcursor]
      exact Nat.mul_le_mul_right _ hbelow
    have hmul' : (t.scrollEndRow.toNat * t.screenWidth.toNat : ℤ)
        ≤ t'.cursorY.toNat * t.screenWidth.toNat := by exact_mod_cast hmul
    omega

/-- **One move.** -/
theorem movesCells_iff_fit (hx : t.cursorX.toNat < t.screenWidth.toNat)
    (hwrap : t.cursorWrap = true)
    (hdx : -2 ^ 15 ≤ dx ∧ dx < 2 ^ 15) (htarget : TargetInside t dx) :
    MovesCells t dx ↔ CellsFit t.screenWidth t.cursorX dx := by
  rcases htarget with ⟨x', rows, hcolumn, hstart, hend⟩ | ⟨⟨hw, hstop⟩, hy, hstart, hend⟩
  · exact movesCells_of_column hx hwrap hdx hcolumn hstart hend
  by_cases hin : 0 ≤ t.cursorX.toNat + dx ∧ t.cursorX.toNat + dx < 2 ^ 15
  · have hcolumn := column_right hw hx hin
    rw [← hwrap] at hcolumn
    have hrow := row_of_right (by omega) hstart hend
    exact movesCells_of_column hx hwrap hdx hcolumn hrow.1 hrow.2
  · refine iff_of_false (not_movesCells_left hx hwrap hy hdx hw hstop hend hin) ?_
    rw [CellsFit]
    omega

end Move

/-! ## Backspace and delete -/

section Backspace

variable {t : Vt100} {ch : BitVec 8}

/-- Printing a character and moving one cell to the left. -/
def printAndBack (fuel : ℕ) (ch : BitVec 8) (t : Vt100) : Vt100Run :=
  (putc fuel ch t).andThen (move (putc fuel) (-1) 0)

/-- The target rows of both moves are in the scroll region: the rows that the moves aim at, or, on a
screen and for a region of less than `2 ^ 15` columns and rows, the row of the next cell. -/
def BackInside (t : Vt100) : Prop :=
  (∃ x₁ rows₁ x₂ rows₂, column t.screenWidth t.cursorWrap t.cursorX 1 0 = some (x₁, rows₁) ∧
    column t.screenWidth t.cursorWrap x₁ (-1) 0 = some (x₂, rows₂) ∧
    (t.scrollStartRow.toNat ≤ t.cursorY.toNat + rows₁ ∧
      t.cursorY.toNat + rows₁ < t.scrollEndRow.toNat) ∧
    t.scrollStartRow.toNat ≤ t.cursorY.toNat + (rows₁ + rows₂) ∧
      t.cursorY.toNat + (rows₁ + rows₂) < t.scrollEndRow.toNat) ∨
  (t.screenWidth.toNat < 2 ^ 15 ∧ t.scrollEndRow.toNat < 2 ^ 15) ∧
    (t.cursorX.toNat + 1 < t.screenWidth.toNat ∨ t.scrollStartRow.toNat ≤ t.cursorY.toNat ∧
      t.cursorY.toNat + 1 < t.scrollEndRow.toNat)

theorem vt100Puts_backspace {fuel : ℕ} (hidle : t.state = .idle)
    (hch : Control.ofChar ch = .print) :
    vt100Puts fuel t [ch, 0x08] = t.printAndBack fuel ch := by
  have hputc : vt100Putc fuel t ch = putc fuel ch t := vt100Putc_control fuel hidle hch
  rw [vt100Puts, hputc, printAndBack]
  rcases hrun : putc fuel ch t with u | ⟨e, u⟩
  · have hframe := (frame_putc fuel ch t).of_done hrun
    have hback : vt100Putc fuel u 0x08 = move (putc fuel) (-1) 0 u :=
      vt100Putc_control fuel (hframe.state.trans hidle) rfl
    rw [Outcome.andThen_done, Outcome.andThen_done, vt100Puts, hback]
    cases move (putc fuel) (-1) 0 u with
    | done v => rfl
    | stuck e v => rfl
  · rfl

theorem vt100Putc_del {fuel : ℕ} (hidle : t.state = .idle) :
    vt100Putc fuel t 0x7f = t.printAndBack fuel (ascii ' ') :=
  vt100Putc_control fuel hidle rfl

/-- Behind the last column the next cell is the first one of the next row. -/
theorem putc_next_row (hwrap : t.cursorWrap = true)
    (hstart : t.scrollStartRow.toNat ≤ t.cursorY.toNat)
    (hnext : t.cursorY.toNat + 1 < t.scrollEndRow.toNat)
    (hmargin : t.cursorX.toNat + 1 = t.screenWidth.toNat) (fuel : ℕ) :
    putc (fuel + 1) ch t
      = .done { t.draw ch with cursorX := 0, cursorY := u16 (t.cursorY.toNat + 1) } := by
  have hfirst : (t.scrollStartRow.toNat : ℤ) ≤ t.cursorY.toNat + 1 := by omega
  have hlast : (t.cursorY.toNat : ℤ) + 1 < t.scrollEndRow.toNat := by omega
  rw [putc_margin hmargin, if_pos hwrap,
    moveRow_inside (t := { t.draw ch with cursorX := 0 }) hfirst hlast]
  rfl

/-- Inside the line the cursor comes back. -/
theorem printAndBack_inside (hw : t.screenWidth.toNat < 2 ^ 15)
    (hinside : t.cursorX.toNat + 1 < t.screenWidth.toNat) (fuel : ℕ) :
    ∃ t', t.printAndBack (fuel + 1) ch = .done t' ∧ t'.cursor = t.cursor := by
  refine ⟨{ t.draw ch with cursorX := t.cursorX }, ?_, rfl⟩
  rw [printAndBack, putc_inside hw.le hinside, Outcome.andThen_done,
    move_of_column (t := { t.draw ch with cursorX := t.cursorX + 1 })
      (column_back_inside hw hinside)]
  rfl

/-- Both moves stay in the region. -/
theorem printAndBack_of_column (ch : BitVec 8) {x₁ x₂ : BitVec 16} {rows₁ rows₂ : ℤ}
    (hprint : column t.screenWidth t.cursorWrap t.cursorX 1 0 = some (x₁, rows₁))
    (hback : column t.screenWidth t.cursorWrap x₁ (-1) 0 = some (x₂, rows₂))
    (hrow₁ : t.scrollStartRow.toNat ≤ t.cursorY.toNat + rows₁ ∧
      t.cursorY.toNat + rows₁ < t.scrollEndRow.toNat)
    (hrow₂ : t.scrollStartRow.toNat ≤ t.cursorY.toNat + (rows₁ + rows₂) ∧
      t.cursorY.toNat + (rows₁ + rows₂) < t.scrollEndRow.toNat) (fuel : ℕ) :
    ∃ t', t.printAndBack (fuel + 1) ch = .done t' ∧
      t'.cursor = (x₂, u16 (t.cursorY.toNat + (rows₁ + rows₂))) := by
  have hlt := t.scrollEndRow.isLt
  have hy := toNat_u16_of_lt (z := t.cursorY.toNat + rows₁) (by omega) (by omega)
  have hfirst : putc (fuel + 1) ch t
      = .done { t.draw ch with cursorX := x₁, cursorY := u16 (t.cursorY.toNat + rows₁) } :=
    (move_of_column (t := t.draw ch) hprint).trans
      (moveRow_inside (t := { t.draw ch with cursorX := x₁ }) hrow₁.1 hrow₁.2)
  rw [← add_assoc, ← hy] at hrow₂ ⊢
  generalize u16 (t.cursorY.toNat + rows₁) = r at hfirst hrow₂
  have hsecond : move (putc (fuel + 1)) (-1) 0 { t.draw ch with cursorX := x₁, cursorY := r }
      = .done { t.draw ch with cursorX := x₂, cursorY := u16 (r.toNat + rows₂) } :=
    (move_of_column (t := { t.draw ch with cursorX := x₁, cursorY := r }) hback).trans
      (moveRow_inside (t := { t.draw ch with cursorX := x₂, cursorY := r }) hrow₂.1 hrow₂.2)
  refine ⟨{ t.draw ch with cursorX := x₂, cursorY := u16 (r.toNat + rows₂) }, ?_, rfl⟩
  rw [printAndBack, hfirst]
  exact hsecond

/-- In the first column of a row it does not. -/
theorem not_back_first_column (hwrap : t.cursorWrap = true) (hw : t.screenWidth.toNat < 2 ^ 15)
    (hpos : 0 < t.screenWidth.toNat) (hstop : t.scrollEndRow.toNat < 2 ^ 15)
    (hy : t.scrollStartRow.toNat ≤ t.cursorY.toNat ∧ t.cursorY.toNat < t.scrollEndRow.toNat)
    (hx : t.cursorX.toNat = 0) : ¬MovesCells t (-1) := by
  have hrows : t.cursorY.toNat * t.screenWidth.toNat
      ≤ t.scrollEndRow.toNat * t.screenWidth.toNat := Nat.mul_le_mul_right _ hy.2.le
  have hend : (t.linear : ℤ) + -1 < t.scrollEndRow.toNat * t.screenWidth.toNat := by
    have hcast : (t.cursorY.toNat * t.screenWidth.toNat : ℤ)
        ≤ t.scrollEndRow.toNat * t.screenWidth.toNat := by exact_mod_cast hrows
    rw [linear, hx, add_zero]
    push_cast
    omega
  exact not_movesCells_left (by omega) hwrap hy (by decide) hw hstop hend (by omega)

/-- So it does not at the end of the line. -/
theorem not_printAndBack_margin (hwrap : t.cursorWrap = true) (hw : t.screenWidth.toNat < 2 ^ 15)
    (hstop : t.scrollEndRow.toNat < 2 ^ 15) (hstart : t.scrollStartRow.toNat ≤ t.cursorY.toNat)
    (hnext : t.cursorY.toNat + 1 < t.scrollEndRow.toNat)
    (hmargin : t.cursorX.toNat + 1 = t.screenWidth.toNat) {fuel : ℕ} {t' : Vt100}
    (hrun : t.printAndBack fuel ch = .done t') : t'.cursor ≠ t.cursor := by
  rcases fuel with _ | fuel
  · cases hrun
  rw [printAndBack, putc_next_row hwrap hstart hnext hmargin, Outcome.andThen_done] at hrun
  intro hcursor
  have hlt := t.scrollEndRow.isLt
  have hrow := toNat_u16_of_lt (z := t.cursorY.toNat + 1) (by omega) (by omega)
  have hy : (u16 (t.cursorY.toNat + 1)).toNat = t.cursorY.toNat + 1 := by omega
  have hframe := (frame_move (frame_putc (fuel + 1)) (-1) 0 _).of_done hrun
  have hwidth : t'.screenWidth = t.screenWidth := hframe.screenWidth
  have hback : t'.linear = t.linear := by
    rw [linear, hwidth, cursorX_of_cursor hcursor, cursorY_of_cursor hcursor]
    rfl
  have hpos : 0 < t.screenWidth.toNat := by omega
  have hin : t.scrollStartRow.toNat ≤ (u16 (t.cursorY.toNat + 1)).toNat ∧
      (u16 (t.cursorY.toNat + 1)).toNat < t.scrollEndRow.toNat := by omega
  have hcell : (u16 (t.cursorY.toNat + 1)).toNat * t.screenWidth.toNat + 0 = t.linear + 1 := by
    rw [hy, linear, Nat.succ_mul]
    omega
  refine not_back_first_column (t := { t.draw ch with cursorX := 0, cursorY := _ }) hwrap hw hpos
    hstop hin rfl ⟨fuel + 1, t', hrun, ?_⟩
  have hcells : (t.linear : ℤ) = (t.linear + 1 : ℕ) + -1 := by omega
  rw [hback, hcells, ← hcell]
  rfl

/-- **There and back on the screen.** -/
theorem printAndBack_iff (hx : t.cursorX.toNat < t.screenWidth.toNat) (hwrap : t.cursorWrap = true)
    (hin : BackInside t) :
    (∃ fuel t', t.printAndBack fuel ch = .done t' ∧ t'.cursor = t.cursor) ↔
      BackFits t.screenWidth t.cursorX := by
  rcases hin with ⟨x₁, rows₁, x₂, rows₂, hprint, hback, hrow₁, hrow₂⟩ | ⟨⟨hw, hstop⟩, hnext⟩
  · have hlt := t.scrollEndRow.isLt
    have hend := toNat_u16_of_lt (z := t.cursorY.toNat + (rows₁ + rows₂)) (by omega) (by omega)
    have hrun := printAndBack_of_column ch hprint hback hrow₁ hrow₂
    rw [hwrap] at hprint hback
    rw [← column_back hx hprint hback]
    have hcursor : (x₂, u16 (t.cursorY.toNat + (rows₁ + rows₂))) = t.cursor ↔
        x₂ = t.cursorX ∧ rows₁ + rows₂ = 0 := by
      rw [cursor, Prod.mk.injEq, ← BitVec.toNat_inj (y := t.cursorY)]
      exact and_congr_right fun _ ↦ by omega
    rw [← hcursor]
    constructor
    · rintro ⟨_ | fuel, t', hdone, hsame⟩
      · cases hdone
      · obtain ⟨u, hu, hend⟩ := hrun fuel
        rw [hu] at hdone
        cases hdone
        exact hend.symm.trans hsame
    · intro hsame
      obtain ⟨u, hu, hend⟩ := hrun 0
      exact ⟨1, u, hu, hend.trans hsame⟩
  · have hfit : BackFits t.screenWidth t.cursorX ↔
        t.cursorX.toNat + 1 < t.screenWidth.toNat := by
      rw [BackFits]
      omega
    rw [hfit]
    constructor
    · rintro ⟨fuel, t', hrun, hcursor⟩
      by_contra hmargin
      obtain ⟨hstart, hend⟩ := hnext.resolve_left hmargin
      exact not_printAndBack_margin hwrap hw hstop hstart hend (by omega) hrun hcursor
    · exact fun hinside ↦ ⟨1, printAndBack_inside hw hinside 0⟩

/-- **Horizontal moves.** With line wrap, a move by `dx` whose target row is in the scroll region
goes `dx` cells further exactly when `CellsFit` says so. A backspace goes back to where the last
character was printed, and a delete leaves the cursor where it is, exactly when `BackFits` says
so. -/
theorem movesCells_iff (hx : t.cursorX.toNat < t.screenWidth.toNat) (hwrap : t.cursorWrap = true) :
    (∀ dx : ℤ, -2 ^ 15 ≤ dx ∧ dx < 2 ^ 15 → TargetInside t dx →
      (MovesCells t dx ↔ CellsFit t.screenWidth t.cursorX dx)) ∧
    (t.state = .idle → BackInside t →
      (∀ ch, Control.ofChar ch = .print →
        ((∃ fuel t', vt100Puts fuel t [ch, 0x08] = .done t' ∧ t'.cursor = t.cursor) ↔
          BackFits t.screenWidth t.cursorX)) ∧
      ((∃ fuel t', vt100Putc fuel t 0x7f = .done t' ∧ t'.cursor = t.cursor) ↔
        BackFits t.screenWidth t.cursorX)) := by
  refine ⟨fun dx ↦ movesCells_iff_fit hx hwrap, fun hidle hin ↦ ⟨fun ch hch ↦ ?_, ?_⟩⟩
  · simp only [vt100Puts_backspace hidle hch]
    exact printAndBack_iff hx hwrap hin
  · simp only [vt100Putc_del hidle]
    exact printAndBack_iff hx hwrap hin

/-- In the first column of the second of 24 rows. -/
theorem movesCells_iff_second_row :
    MovesCells { freshTerminal 80 24 with cursorY := 1 } 200 ∧
      ∃ fuel t', vt100Puts fuel { freshTerminal 80 24 with cursorY := 1 } [ascii 'a', 0x08]
        = .done t' ∧ t'.cursor = (0, 1) := by
  have hrow := movesCells_iff (t := { freshTerminal 80 24 with cursorY := 1 }) (by decide) rfl
  exact ⟨(hrow.1 200 (by decide) (Or.inr (by decide))).mpr (by decide),
    ((hrow.2 rfl (Or.inr (by decide))).1 (ascii 'a') (by decide)).mpr (by decide)⟩

/-- A backspace in the first column. -/
theorem not_movesCells_first_column :
    TargetInside { freshTerminal 80 24 with cursorY := 1 } (-1) ∧
      ¬MovesCells { freshTerminal 80 24 with cursorY := 1 } (-1) := by
  refine ⟨Or.inr (by decide), ?_⟩
  exact not_back_first_column rfl (by decide) (by decide) (by decide) (by decide) rfl

end Backspace

end Vt100

end Martink
