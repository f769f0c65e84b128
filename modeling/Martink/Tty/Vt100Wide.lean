import Martink.Tty.Vt100Paint

/-!
# Screens of more than `2 ^ 15` columns

Such a screen has a negative width as an `int16_t`. Moves to the right then leave out columns:
whatever is printed from a column `x` on, the column `missed x` is not, unless the last blank of the
line is the only one (`Vt100.blanks_miss`). With line wrap the columns that are reached are closed
under moves, and so they are without, but for a start in the last columns, where the blanks are
counted.
-/

namespace Martink

namespace Vt100

/-- A set of columns that moves to the right do not leave, with column 0. -/
structure ColumnsClosed (w : BitVec 16) (wrap : Bool) (P : BitVec 16 → Prop) : Prop where
  /-- Column 0 is one of them. -/
  zero : P 0
  /-- So is the column to the right of one. -/
  next : ∀ {x x' rows}, P x → column w wrap x 1 0 = some (x', rows) → P x'

/-- A column that blanks from column `x` on do not reach. -/
def missed (w : BitVec 16) (wrap : Bool) (x : ℕ) : ℕ := max (lineLimit w wrap) (x + 1)

section Columns

variable {w x x' : BitVec 16} {wrap : Bool} {rows : ℤ} {m : ℕ}

/-- It is a column of the line, but for blanks in the last one. -/
theorem exists_missed (wrap : Bool) (hw : 2 ^ 15 < w.toNat) {k : ℕ} (hk : k + 1 < w.toNat) :
    ∃ c : BitVec 16, c.toNat = missed w wrap k ∧ c.toNat < w.toNat := by
  have hlt := w.isLt
  have hmissed : missed w wrap k < w.toNat := by
    rw [missed, lineLimit, if_neg (by omega)]
    split_ifs <;> omega
  have hcolumn := toNat_u16_natCast (missed w wrap k)
  rw [Nat.mod_eq_of_lt (by omega)] at hcolumn
  exact ⟨_, hcolumn, hcolumn.trans_lt hmissed⟩

/-- The next column with line wrap. -/
theorem column_wide_on (hw : 2 ^ 15 < w.toNat) (hm : 65536 - w.toNat = m)
    (h : column w true x 1 0 = some (x', rows)) :
    x'.toNat < m ∨ w.toNat ≤ x.toNat ∧ (x'.toNat = 0 ∨ x'.toNat = x.toNat + 1) ∨
      2 ^ 15 ≤ x.toNat + 1 ∧ x.toNat + 2 ≤ x'.toNat := by
  have hlt := w.isLt
  have hx := x.isLt
  -- the sign of the new column decides which way the code wraps it
  rcases Nat.lt_or_ge (x.toNat + 1) (2 ^ 15) with hlow | hhigh
  · have hs : s16 (1 + x.toNat) = (x.toNat + 1 : ℕ) := by rw [s16]; omega
    rw [column_wide_right hw.le hm hs] at h
    obtain ⟨rfl, -⟩ := Prod.mk.inj (Option.some.inj h)
    have hrem := Nat.mod_lt (x.toNat + 1) (show m > 0 by omega)
    rw [toNat_u16_natCast]
    omega
  · have hs : s16 (1 + x.toNat) = -((65535 - x.toNat : ℕ) : ℤ) := by rw [s16]; omega
    generalize hk : 65535 - x.toNat = k at hs
    have hrem := Nat.mod_lt k (show m > 0 by omega)
    -- a column far to the left goes over several lines
    rcases Nat.lt_or_ge m k with hfar | hnear
    · rw [column_wide_far hw.le hm hs hfar] at h
      obtain ⟨rfl, -⟩ := Prod.mk.inj (Option.some.inj h)
      have hone := Nat.div_pos hfar.le (show 0 < m by omega)
      have hsplit := Nat.div_add_mod k m
      have hmul := Nat.mul_le_mul_left m hone
      have hmod := toNat_u16 (-(m : ℤ) - ↑(k % m) + 1)
      omega
    · rw [column_wide_left hw.le hm hs hnear] at h
      obtain ⟨rfl, -⟩ := Prod.mk.inj (Option.some.inj h)
      have hmod := toNat_u16 (-((k % m : ℕ) : ℤ))
      rcases Nat.lt_or_eq_of_le hnear with hlt' | rfl
      · rw [Nat.mod_eq_of_lt hlt'] at hmod ⊢
        omega
      · rw [Nat.mod_self] at hmod ⊢
        omega

/-- The next column without line wrap. -/
theorem column_wide_off_cases (hw : 2 ^ 15 < w.toNat) (hm : 65536 - w.toNat = m)
    (h : column w false x 1 0 = some (x', rows)) :
    (x.toNat + 1 < 2 ^ 15 ∨ w.toNat ≤ x.toNat + 1) ∧ x'.toNat = (x.toNat + 1) % 65536 ∧ rows = 0 ∨
      (2 ^ 15 ≤ x.toNat + 1 ∧ x.toNat + 1 < w.toNat) ∧
        x'.toNat = (w.toNat + 1 - (65535 - x.toNat) % m) % 65536 ∧
          rows = s16 (((65535 - x.toNat) / m : ℕ) - 1) := by
  have hlt := w.isLt
  have hx := x.isLt
  rcases Nat.lt_or_ge (x.toNat + 1) (2 ^ 15) with hlow | hhigh
  · have hs : s16 (1 + x.toNat) = (x.toNat + 1 : ℕ) := by rw [s16]; omega
    rw [column_wide_off hw hs] at h
    obtain ⟨rfl, rfl⟩ := Prod.mk.inj (Option.some.inj h)
    exact Or.inl ⟨Or.inl hlow, toNat_u16_natCast _, rfl⟩
  · have hs : s16 (1 + x.toNat) = -((65535 - x.toNat : ℕ) : ℤ) := by rw [s16]; omega
    rcases Nat.lt_or_ge m (65535 - x.toNat) with hfar | hnear
    · rw [column_wide_far hw.le hm hs hfar, zero_add] at h
      obtain ⟨rfl, rfl⟩ := Prod.mk.inj (Option.some.inj h)
      have hrem := Nat.mod_lt (65535 - x.toNat) (show m > 0 by omega)
      refine Or.inr ⟨⟨hhigh, by omega⟩, ?_, rfl⟩
      generalize (65535 - x.toNat) % m = r at hrem ⊢
      have hmod := toNat_u16 (-(m : ℤ) - r + 1)
      omega
    · have hle : s16 w.toNat ≤ s16 (1 + x.toNat) := by rw [s16_width hw.le hm, hs]; omega
      rw [column, if_pos hle, hs] at h
      obtain ⟨rfl, rfl⟩ := Prod.mk.inj (Option.some.inj h)
      have hmod := toNat_u16 (-((65535 - x.toNat : ℕ) : ℤ))
      exact Or.inl ⟨Or.inr (by omega), by omega, rfl⟩

/-- With line wrap the first columns are closed, with a column that leaves them and those behind
it. -/
theorem columnsClosed_on (hw : 2 ^ 15 < w.toNat) (hm : 65536 - w.toNat = m)
    (hx : x.toNat + 1 < w.toNat) : ColumnsClosed w true fun c ↦
      c.toNat < m ∨ c = x ∨ 2 ^ 15 ≤ x.toNat + 1 ∧ x.toNat + 2 ≤ c.toNat where
  zero := by
    have hlt := w.isLt
    have hnat : (0 : BitVec 16).toNat = 0 := rfl
    omega
  next {c c' rows} hc h := by
    have hlt := w.isLt
    have hnext := column_wide_on hw hm h
    rcases hc with hfirst | rfl | hbehind
    · omega
    · omega
    · omega

/-- Without it, all columns but one are, when no move jumps there. -/
theorem columnsClosed_off {T : ℕ} (hw : 2 ^ 15 < w.toNat) (hm : 65536 - w.toNat = m)
    (hT : 2 ^ 15 ≤ T ∧ T < w.toNat) (hjump : ∀ k, m < k → k ≤ 2 ^ 15 → T + k % m ≠ w.toNat + 1) :
    ColumnsClosed w false fun c ↦ c.toNat ≠ T where
  zero := by
    have hnat : (0 : BitVec 16).toNat = 0 := rfl
    omega
  next {c c' rows} hc h := by
    have hlt := w.isLt
    rcases column_wide_off_cases hw hm h with ⟨hrange, hnext, -⟩ | ⟨hrange, hnext, -⟩
    · omega
    · have hne := hjump (65535 - c.toNat) (by omega) (by omega)
      generalize (65535 - c.toNat) % m = r at hnext hne
      omega

/-- **The missed column** of a closed set. -/
theorem exists_columnsClosed (wrap : Bool) (hw : 2 ^ 15 < w.toNat) (hm : 65536 - w.toNat = m)
    (hx : x.toNat + 1 < w.toNat)
    (hnear : wrap = true ∨ x.toNat < 2 ^ 15 ∨ 2 * m ≤ 65535 - x.toNat) :
    ∃ P, ColumnsClosed w wrap P ∧ P x ∧ ∀ c, c.toNat = missed w wrap x.toNat → ¬P c := by
  have hlt := w.isLt
  have hlimit : lineLimit w wrap = if wrap then m else 2 ^ 15 := by
    rw [lineLimit, if_neg (by omega), hm]
  cases wrap with
  | true =>
    -- the columns before the break, where the blanks start, and behind the line
    refine ⟨_, columnsClosed_on hw hm hx, Or.inr (Or.inl rfl), fun c hc ↦ ?_⟩
    rw [missed, hlimit, if_pos rfl] at hc
    rintro (hfirst | rfl | hbehind) <;> omega
  | false =>
    rw [missed, hlimit, if_neg Bool.false_ne_true]
    refine ⟨_, columnsClosed_off (T := max (2 ^ 15) (x.toNat + 1)) hw hm (by omega) fun k hlo hhi ↦
      ?_, by omega, fun c hc ↦ not_not.mpr hc⟩
    have hrem := Nat.mod_lt k (show m > 0 by omega)
    rcases Nat.lt_or_ge x.toNat (2 ^ 15) with hlow | hhigh
    · -- from the column before it, the move goes to the one behind it, or further
      rcases Nat.lt_or_ge (2 ^ 14) m with hwide | hthin
      · rw [Nat.mod_eq_sub_mod hlo.le, Nat.mod_eq_of_lt (by omega)]
        omega
      · omega
    · rcases hnear with hwrap | hlow | hfar
      · cases hwrap
      · omega
      · omega

end Columns

section Misses

variable {t u : Vt100} {f n : ℕ} {P : BitVec 16 → Prop}

/-- Blanks have been drawn since `t`, all in columns that meet `P`. -/
def PaintsIn (t : Vt100) (P : BitVec 16 → Prop) (u : Vt100) : Prop :=
  ∃ S, Paints t S u ∧ ∀ p ∈ S, P p.1

theorem PaintsIn.then_calls {u' : Vt100} (h : PaintsIn t P u) (hframe : Frame u u')
    (hcalls : u'.display.calls = u.display.calls) : PaintsIn t P u' := by
  obtain ⟨S, hpaints, hcells⟩ := h
  exact ⟨S, hpaints.then_calls hframe hcalls, hcells⟩

theorem PaintsIn.draw (h : PaintsIn t P u) (hx : P u.cursorX) :
    PaintsIn t P (u.draw (ascii ' ')) := by
  obtain ⟨S, hpaints, hcells⟩ := h
  rw [draw_blank]
  refine ⟨_, hpaints.trans (Paints.blanked u [u.cursor]), fun p hp ↦ ?_⟩
  rcases hp with hp | hp
  · exact hcells p hp
  · rw [List.mem_singleton.mp hp]
    exact hx

theorem PaintsIn.mono {Q : BitVec 16 → Prop} (h : PaintsIn t P u) (hPQ : ∀ x, P x → Q x) :
    PaintsIn t Q u := by
  obtain ⟨S, hpaints, hcells⟩ := h
  exact ⟨S, hpaints, fun p hp ↦ hPQ _ (hcells p hp)⟩

/-- What is shown to be blanked is in such a column. -/
theorem PaintsIn.not_shown {E : BitVec 16 → BitVec 16 → Prop} {x y : BitVec 16} (h : PaintsIn t P u)
    (hshow : Shows t E u) (hx : x.toNat < t.screenWidth.toNat) (hy : y.toNat < t.screenHeight.toNat)
    (hP : ¬P x) : ¬E x y := by
  obtain ⟨S, hpaints, hcells⟩ := h
  exact fun hE ↦ hP (hcells _ (((shows_iff hpaints).mp hshow x y hx hy).mpr hE))

theorem paintsIn_refl (t : Vt100) (P : BitVec 16 → Prop) : PaintsIn t P t :=
  ⟨∅, Paints.of_calls (Frame.refl t) rfl, fun p hp ↦ absurd hp (Set.notMem_empty p)⟩

theorem paintsIn_rule (h : ColumnsClosed t.screenWidth t.cursorWrap P) :
    PrintRule (fun ch ↦ ch = ascii ' ') fun u ↦ P u.cursorX ∧ PaintsIn t P u where
  blank := rfl
  draw ch u hch hu := by
    subst hch
    exact ⟨hu.1, hu.2.draw hu.1⟩
  column u x rows hu hcolumn := by
    obtain ⟨hx, S, hpaints, hcells⟩ := hu
    rw [hpaints.frame.screenWidth, hpaints.frame.cursorWrap] at hcolumn
    exact ⟨h.next hx hcolumn, S, hpaints.then_calls (Frame.cursor u x u.cursorY) rfl, hcells⟩
  home u hu := ⟨h.zero, hu.2.then_calls (Frame.cursor u 0 u.cursorY) rfl⟩
  row u y hu := ⟨hu.1, hu.2.then_calls (Frame.cursor u u.cursorX y) rfl⟩
  scrollValue _ _ hu := ⟨hu.1, hu.2.then_calls rfl rfl⟩

/-- Where the column was does not matter for clearing lines. -/
theorem clearLines_home {putc : BitVec 8 → Vt100 → Vt100Run} (a b : BitVec 16) (t : Vt100) :
    clearLines putc a b t = clearLines putc a b { t with cursorX := 0 } := by
  rw [clearLines, clearLines]
  cases b.toNat + 1 - a.toNat with
  | zero => rfl
  | succ n => rfl

/-- Clearing lines leaves out a column. -/
theorem clearLines_miss (hw : 2 ^ 15 < t.screenWidth.toNat) {a b : BitVec 16}
    (h : clearLines (putc f) a b t = .done u) :
    PaintsIn t (fun x ↦ x.toNat ≠ missed t.screenWidth t.cursorWrap 0) u := by
  obtain ⟨P, hclosed, hzero, hmissed⟩ := exists_columnsClosed (x := 0) t.cursorWrap hw rfl
    (by rw [show (0 : BitVec 16).toNat = 0 from rfl]; omega) (Or.inr (Or.inl (by decide)))
  rw [clearLines_home] at h
  have hrule := paintsIn_rule hclosed
  have hstart : PaintsIn t P { t with cursorX := 0 } :=
    (paintsIn_refl t P).then_calls (Frame.cursor t 0 t.cursorY) rfl
  have hdone := (hrule.clearLines (hrule.keeps f) a b (t := { t with cursorX := 0 })
    ⟨hzero, hstart⟩).of_done h
  exact hdone.2.mono fun x hx heq ↦ hmissed x heq hx

/-- Without line wrap, from a column `x` near the end of the line: moves stay in the row, and go to
the column behind the next one, or to the next one behind the line or at its start. -/
theorem column_counted {w c x' : BitVec 16} {rows : ℤ} {x i : ℕ} (hw : 2 ^ 15 < w.toNat)
    (hx : x + 1 < w.toNat) (hlow : 2 ^ 15 ≤ x) (hnear : 65535 - x < 2 * (65536 - w.toNat))
    (hi : x + i < w.toNat) (hc : i = 0 ∧ c.toNat = x ∨ x + 2 ≤ c.toNat ∨ c.toNat + 1 ≤ i)
    (h : column w false c 1 0 = some (x', rows)) :
    rows = 0 ∧ (x + 2 ≤ x'.toNat ∨ x'.toNat ≤ i) := by
  have hlt := w.isLt
  have hclt := c.isLt
  rcases column_wide_off_cases hw rfl h with ⟨hrange, hnext, rfl⟩ | ⟨hrange, hnext, hrows⟩
  · refine ⟨rfl, ?_⟩
    omega
  · have hquot : (65535 - c.toNat) / (65536 - w.toNat) = 1 :=
      Nat.div_eq_of_lt_le (by omega) (by omega)
    have hsplit := Nat.div_add_mod (65535 - c.toNat) (65536 - w.toNat)
    rw [hquot] at hrows hsplit
    refine ⟨hrows, ?_⟩
    generalize (65535 - c.toNat) % (65536 - w.toNat) = r at hnext hsplit
    omega

/-- So its blanks may come back to the start of the line, but not to the column left out. -/
theorem blanks_miss_counted (hwrap : t.cursorWrap = false) (hw : 2 ^ 15 < t.screenWidth.toNat)
    (hx : t.cursorX.toNat + 1 < t.screenWidth.toNat) (hlow : 2 ^ 15 ≤ t.cursorX.toNat)
    (hnear : 65535 - t.cursorX.toNat < 2 * (65536 - t.screenWidth.toNat))
    (hn : t.cursorX.toNat + n ≤ t.screenWidth.toNat) (h : blanks (putc f) n t = .done u) :
    PaintsIn t (fun x ↦ x.toNat ≠ t.cursorX.toNat + 1) u := by
  have hlt := t.screenWidth.isLt
  -- each blank moves the cursor by a column from 0 on, or past the missed one
  have hloop : (blanks (putc f) n t).Sat (fun u ↦
      PaintsIn t (fun x ↦ x.toNat ≠ t.cursorX.toNat + 1) u ∧ (0 + n = 0 ∧ u.cursorX = t.cursorX ∨
        t.cursorX.toNat + 2 ≤ u.cursorX.toNat ∨ u.cursorX.toNat + 1 ≤ 0 + n)) fun _ _ ↦ True := by
    refine Outcome.Sat.forRange (I := fun i u ↦
      PaintsIn t (fun x ↦ x.toNat ≠ t.cursorX.toNat + 1) u ∧ (i = 0 ∧ u.cursorX = t.cursorX ∨
        t.cursorX.toNat + 2 ≤ u.cursorX.toNat ∨ u.cursorX.toNat + 1 ≤ i)) n
      (fun i v _ hi hv ↦ ⟨fun {v'} hstep ↦ ?_, fun _ ↦ trivial⟩)
      ⟨paintsIn_refl t _, Or.inl ⟨rfl, rfl⟩⟩
    obtain ⟨hpaints, hcol⟩ := hv
    have hframe := hpaints.choose_spec.1.frame
    rw [← BitVec.toNat_inj] at hcol
    obtain ⟨g, x', rows, -, hcolumn, hrow⟩ := move_of_putc hstep
    rw [hframe.screenWidth, hframe.cursorWrap, hwrap] at hcolumn
    obtain ⟨rfl, hnext⟩ := column_counted hw hx hlow hnear (by omega) hcol hcolumn
    rw [moveRow_zero] at hrow
    cases hrow
    refine ⟨(hpaints.draw (by omega)).then_calls (Frame.cursor _ x' v.cursorY) rfl, Or.inr ?_⟩
    dsimp only
    omega
  exact (hloop.of_done h).1

/-- **Blanks leave out a column**, unless they start in the last one. -/
theorem blanks_miss (hw : 2 ^ 15 < t.screenWidth.toNat)
    (hx : t.cursorX.toNat + 1 < t.screenWidth.toNat)
    (hn : t.cursorX.toNat + n ≤ t.screenWidth.toNat) (h : blanks (putc f) n t = .done u) :
    PaintsIn t (fun x ↦ x.toNat ≠ missed t.screenWidth t.cursorWrap t.cursorX.toNat) u := by
  by_cases hnear : t.cursorWrap = true ∨ t.cursorX.toNat < 2 ^ 15 ∨
      2 * (65536 - t.screenWidth.toNat) ≤ 65535 - t.cursorX.toNat
  · obtain ⟨P, hclosed, hstart, hmissed⟩ := exists_columnsClosed _ hw rfl hx hnear
    have hrule := paintsIn_rule hclosed
    have hdone := (hrule.blanks (hrule.keeps f) n ⟨hstart, paintsIn_refl t P⟩).of_done h
    exact hdone.2.mono fun x hx heq ↦ hmissed x heq hx
  · have hwrap : t.cursorWrap = false := Bool.eq_false_iff.mpr fun hon ↦ hnear (Or.inl hon)
    have hlimit : missed t.screenWidth t.cursorWrap t.cursorX.toNat = t.cursorX.toNat + 1 := by
      rw [missed, lineLimit, hwrap, if_neg (by omega), if_neg Bool.false_ne_true]
      omega
    rw [hlimit]
    exact blanks_miss_counted hwrap hw hx (by omega) (by omega) hn h

end Misses

end Vt100

end Martink
