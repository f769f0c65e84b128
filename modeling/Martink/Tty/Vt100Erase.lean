import Martink.Tty.Vt100Parse
import Martink.Tty.Vt100Wide

/-!
# Erasing lines and the screen

`CSI K` and `CSI J` erase by printing blanks, and every row that is erased to its end moves the
cursor to the next one, which may scroll. `EraseFits` says when that goes well (`erases_iff`):

* a line can be erased if the move behind its end clears nothing and leaves the scroll value;
* rows can be erased if the scrolls at their ends, and those nested in them, come to an end and
  clear only rows that are erased anyway;
* the erasing up to the cursor never does: it stops before the cursor's cell.

`erases_iff_of_holdsRegion` is what that means with line wrap and a region on the screen: the erased
rows end before the region does, or the region has two rows and none of it is above them. Without
line wrap only the width counts (`erases_iff_of_wrap_off`).
-/

namespace Martink

namespace Vt100

/-! ## Lines -/

/-- The move behind the end of the cursor's row clears nothing and leaves the scroll value. -/
def QuietEnd (t : Vt100) : Prop :=
  let n := lines t.scrollStartRow t.scrollEndRow (u16 (t.cursorY.toNat + 1))
  let height := u16 (t.scrollEndRow.toNat - t.scrollStartRow.toNat)
  (∀ r, ¬ClearedBy t r t.cursorY) ∧
    (t.cursorWrap = true → n = 0 ∨
      u16 ((scrolled height t.scrollValue n).tmod height.toNat) = t.scrollValue)

/-- The line can be erased from the cursor on. -/
def LineFits (t : Vt100) : Prop :=
  (t.screenWidth.toNat ≤ 2 ^ 15 ∨ t.cursorX.toNat + 1 = t.screenWidth.toNat) ∧ QuietEnd t

/-- Blanks from the cursor to the end of the line erase just these cells, and leave the scroll
value. -/
def LineErases (t : Vt100) : Prop :=
  ∃ f u, blanks (putc f) (t.screenWidth.toNat - t.cursorX.toNat) t = .done u ∧
    Shows t (fun x y ↦ y = t.cursorY ∧ t.cursorX.toNat ≤ x.toNat) u ∧ u.scrollValue = t.scrollValue

section Line

variable {t u : Vt100} {f : ℕ} {r : BitVec 16}

/-- What all regions that are set have in common. -/
def RegionSet (t : Vt100) : Prop :=
  t.scrollStartRow.toNat < t.scrollEndRow.toNat ∨
    t.scrollStartRow.toNat = 65535 ∧ t.scrollEndRow.toNat < 65535

theorem RegionSet.ne (h : RegionSet t) : t.scrollStartRow ≠ t.scrollEndRow := by
  intro heq
  rw [RegionSet, heq] at h
  omega

theorem RegionSet.height (h : RegionSet t) :
    u16 (t.scrollEndRow.toNat - t.scrollStartRow.toNat) ≠ 0 := by
  intro hzero
  have hmod := toNat_u16 (t.scrollEndRow.toNat - t.scrollStartRow.toNat)
  have hnat : ((0 : BitVec 16).toNat : ℤ) = 0 := rfl
  have hlt := t.scrollEndRow.isLt
  rw [hzero] at hmod
  rw [RegionSet] at h
  omega

/-- The end of a line that clears nothing. -/
theorem lineEnd_of_silent (h : ∀ r, ¬ClearedBy t r t.cursorY)
    (hheight : u16 (t.scrollEndRow.toNat - t.scrollStartRow.toNat) ≠ 0) :
    ∃ u, lineEnd f t = .done u ∧ Frame t u ∧ u.display.calls = t.display.calls ∧
      (u.scrollValue = t.scrollValue ↔ QuietEnd t) := by
  rw [lineEnd]
  by_cases hwrap : t.cursorWrap = true
  swap
  · rw [if_neg hwrap]
    exact ⟨_, rfl, Frame.cursor t t.screenWidth t.cursorY, rfl,
      iff_of_true rfl ⟨h, fun hon ↦ absurd hon hwrap⟩⟩
  have hsilent (r : BitVec 16) : ¬ScrollClears t.scrollStartRow t.scrollEndRow
      (lines t.scrollStartRow t.scrollEndRow (u16 (t.cursorY.toNat + 1))) r :=
    fun hclears ↦ h r ⟨hwrap, hclears⟩
  have hquiet : QuietEnd t ↔
      lines t.scrollStartRow t.scrollEndRow (u16 (t.cursorY.toNat + 1)) = 0 ∨
        u16 ((scrolled (u16 (t.scrollEndRow.toNat - t.scrollStartRow.toNat)) t.scrollValue
          (lines t.scrollStartRow t.scrollEndRow (u16 (t.cursorY.toNat + 1)))).tmod
            (u16 (t.scrollEndRow.toNat - t.scrollStartRow.toNat)).toNat) = t.scrollValue :=
    (and_iff_right h).trans (forall_prop_of_true hwrap)
  -- a move that clears nothing can still count a scroll
  rw [if_pos hwrap, moveRow_of_silent (t := { t with cursorX := 0 }) one_ne_zero hsilent, hquiet]
  dsimp only
  generalize lines t.scrollStartRow t.scrollEndRow (u16 (t.cursorY.toNat + 1)) = n
  rcases eq_or_ne n 0 with hzero | hne
  · rw [if_pos hzero]
    exact ⟨_, rfl, Frame.cursor t 0 _, rfl, iff_of_true rfl (Or.inl hzero)⟩
  · rw [if_neg hne, setScrollValue, if_neg hheight]
    exact ⟨_, rfl, rfl, rfl, (or_iff_right hne).symm⟩

/-- **Where a line can be erased, it is.** -/
theorem lineErases_of_fits (hregion : RegionSet t) (hx : t.cursorX.toNat < t.screenWidth.toNat)
    (h : LineFits t) : LineErases t := by
  obtain ⟨hw, hquiet⟩ := h
  have hlt := t.screenWidth.isLt
  obtain ⟨n, hn⟩ : ∃ n, t.screenWidth.toNat - t.cursorX.toNat = n + 1 :=
    Nat.exists_eq_add_of_le' (by omega)
  have hprint := blanks_margin (f := 0) (t := t) (n := n) (by omega) fun c hlo hhi ↦ by
    rw [lineLimit_of_le (by omega)]
    omega
  obtain ⟨u, hdone, hframe, hcalls, hvalue⟩ := lineEnd_of_silent (f := 0)
    (t := t.blanked (rowCells t.cursorX.toNat (n + 1) t.cursorY)) hquiet.1 hregion.height
  have hpaints := (Paints.blanked t _).then_calls hframe hcalls
  refine ⟨1, u, by rw [hn, hprint, hdone], (shows_iff hpaints).mpr fun x y hx' hy' ↦ ?_,
    hvalue.mpr hquiet⟩
  rw [Set.mem_ofPred_eq, mem_rowCells (by omega)]
  dsimp only
  constructor
  · exact fun hcell ↦ ⟨hcell.2.2, hcell.1⟩
  · exact fun hcell ↦ ⟨hcell.2, by omega, hcell.1⟩

theorem not_rel_self_of_acc {α : Type*} {R : α → α → Prop} {a : α} (h : Acc R a) : ¬R a a := by
  induction h with
  | intro a _ ih => exact fun hself ↦ ih a hself hself

/-- A region that starts in the last row there can be: it is cleared at its own end. -/
theorem scrollClears_self {start stop : BitVec 16} (hstart : start.toNat = 65535)
    (hstop : stop.toNat < 65535) :
    ScrollClears start stop (lines start stop (u16 (start.toNat + 1))) start := by
  have hone : lines start stop 0 = 1 := by
    have hnat : (0 : BitVec 16).toNat = 0 := rfl
    rw [lines_eq_ite, hnat, hstart, s16, s16]
    split_ifs <;> omega
  have hnext : u16 (start.toNat + 1) = 0 := by
    rw [hstart]
    rfl
  have hlast := toNat_u16 (start.toNat + 1 - 1)
  rw [hnext, hone]
  exact Or.inl ⟨Int.one_pos, le_rfl, by omega⟩

/-- Rows that a scroll up clears although none is on the screen: the first of them is row 65535, and
it is cleared at its own end. -/
theorem not_clears_up {start stop y : BitVec 16} {h : ℕ} {n : ℤ}
    (hregion : start.toNat < stop.toNat ∨ start.toNat = 65535 ∧ stop.toNat < 65535)
    (hy : y.toNat < h) (hn : lines start stop (u16 (y.toNat + 1)) = n) (hpos : 0 < n)
    (hoff : ∀ r, ScrollClears start stop n r → h ≤ r.toNat)
    (hself : ∀ r, ScrollClears start stop n r →
      ¬ScrollClears start stop (lines start stop (u16 (r.toNat + 1))) r) (r : BitVec 16) :
    ¬ScrollClears start stop n r := by
  intro hr
  have hlines := lines_eq_ite start stop (u16 (y.toNat + 1))
  have hnext := toNat_u16 (y.toNat + 1)
  have hlast := toNat_u16 (start.toNat + n - 1)
  have hylt := y.isLt
  rw [hn, s16, s16] at hlines
  rw [ScrollClears] at hr
  have hfirst : ScrollClears start stop n start := Or.inl ⟨hpos, le_rfl, by omega⟩
  have habove := hoff start hfirst
  -- the first row to clear is below the screen, and can only be the last one there is
  have hone : start.toNat = 65535 := by
    split_ifs at hlines <;> omega
  exact hself start hfirst (scrollClears_self hone (by omega))

/-- The same for a scroll down: one of the rows is cleared at its own end. -/
theorem not_clears_down {start stop y : BitVec 16} {h : ℕ} {n : ℤ}
    (hregion : start.toNat < stop.toNat ∨ start.toNat = 65535 ∧ stop.toNat < 65535)
    (hy : y.toNat < h) (hlt : h < 65536) (hn : lines start stop (u16 (y.toNat + 1)) = n)
    (hneg : n < 0)
    (hoff : ∀ r, ScrollClears start stop n r → h ≤ r.toNat)
    (hself : ∀ r, ScrollClears start stop n r →
      ¬ScrollClears start stop (lines start stop (u16 (r.toNat + 1))) r) (r : BitVec 16) :
    ¬ScrollClears start stop n r := by
  intro hr
  have hlines := lines_eq_ite start stop (u16 (y.toNat + 1))
  have hnext := toNat_u16 (y.toNat + 1)
  have hfirst := toNat_u16 (stop.toNat - n)
  have hlast := toNat_u16 (stop.toNat - 1)
  rw [hn, s16, s16] at hlines
  rw [ScrollClears] at hr
  have hclears : ScrollClears start stop n (u16 (stop.toNat - 1)) :=
    Or.inr ⟨hneg, by omega, le_rfl⟩
  have hbelow := hoff _ hclears
  rcases Nat.lt_or_ge y.toNat.succ stop.toNat with habove | hbehind
  · -- the row to go to is above the region, and the first line to clear has passed row 65535
    have hup : n = y.toNat + 1 - start.toNat ∧ -32768 ≤ n := by
      split_ifs at hlines <;> omega
    have hstart := start.isLt
    have hover : 65536 ≤ stop.toNat - n := by omega
    have hfirstrow : ((u16 (stop.toNat - n)).toNat : ℤ) = stop.toNat - n - 65536 := by omega
    have hlastrow : (u16 (stop.toNat - 1)).toNat + 1 = stop.toNat := by omega
    clear hlines hfirst hlast hnext hr hbelow
    have hrow := toNat_u16_of_lt (z := stop.toNat + start.toNat - 65537) (by omega) (by omega)
    generalize hr' : u16 (stop.toNat + start.toNat - 65537) = r' at hrow
    have hnext' := toNat_u16_of_lt (z := r'.toNat + 1) (by omega) (by omega)
    refine hself r' (Or.inr ⟨hneg, by omega, by omega⟩) ?_
    have hagain : lines start stop (u16 (r'.toNat + 1)) = stop.toNat - 65536 := by
      rw [lines_above (by omega) (by omega), s16_of_range (by omega) (by omega)]
      omega
    have hfirst' := toNat_u16 (stop.toNat - (stop.toNat - 65536))
    rw [hagain]
    clear hagain
    exact Or.inr ⟨by omega, by omega, by omega⟩
  · -- the last row to clear is the one before row 0
    have hstart : start.toNat = 65535 := by omega
    have hsame : u16 (stop.toNat - 1) = start := BitVec.eq_of_toNat_eq (by omega)
    rw [hsame] at hclears
    exact hself start hclears (scrollClears_self hstart (by omega))

/-- Clearing lines behind the screen only, without an end: there is no such region. -/
theorem not_clearedBy_of_off (hregion : RegionSet t) (hy : t.cursorY.toNat < t.screenHeight.toNat)
    (hacc : Acc (ClearedBy t) t.cursorY)
    (hoff : ∀ r, ClearedBy t r t.cursorY → t.screenHeight.toNat ≤ r.toNat) :
    ¬ClearedBy t r t.cursorY := by
  rintro ⟨hwrap, hr⟩
  have hlt := t.screenHeight.isLt
  have hself : ∀ r', ScrollClears t.scrollStartRow t.scrollEndRow
      (lines t.scrollStartRow t.scrollEndRow (u16 (t.cursorY.toNat + 1))) r' →
        ¬ScrollClears t.scrollStartRow t.scrollEndRow
          (lines t.scrollStartRow t.scrollEndRow (u16 (r'.toNat + 1))) r' :=
    fun r' h hagain ↦ not_rel_self_of_acc (hacc.inv ⟨hwrap, h⟩) ⟨hwrap, hagain⟩
  rcases lt_trichotomy (lines t.scrollStartRow t.scrollEndRow (u16 (t.cursorY.toNat + 1))) 0
    with hneg | hzero | hpos
  · exact not_clears_down hregion hy hlt rfl hneg (fun r' h ↦ hoff r' ⟨hwrap, h⟩) hself r hr
  · rw [hzero, ScrollClears] at hr
    omega
  · exact not_clears_up hregion hy rfl hpos (fun r' h ↦ hoff r' ⟨hwrap, h⟩) hself r hr

/-- On a screen of any width, a row's end that clears lines draws in the first of them. -/
theorem lineEnd_first (hpos : 1 ≤ t.screenWidth.toNat) (h : lineEnd f t = .done u)
    (hr : ClearedBy t r t.cursorY) : ∃ S a, Paints t S u ∧ ((0, a) : BitVec 16 × BitVec 16) ∈ S ∧
      ∀ r', ClearedBy t r' t.cursorY → a.toNat ≤ r'.toNat := by
  obtain ⟨hwrap, hclears⟩ := hr
  have hne : lines t.scrollStartRow t.scrollEndRow (u16 (t.cursorY.toNat + 1)) ≠ 0 := by
    intro hzero
    rw [hzero, ScrollClears] at hclears
    omega
  rw [lineEnd, if_pos hwrap, moveRow_eq one_ne_zero] at h
  generalize parkRow t.scrollStartRow t.scrollEndRow (u16 (t.cursorY.toNat + 1)) = y at h
  obtain ⟨a, b, v, value, hiff, hlines, rfl⟩ := clearLines_of_scroll hne h
  have hrange := (hiff r).mp hclears
  obtain ⟨S, hpaints, hfirst⟩ := clearLines_first (t := { t with cursorX := 0, cursorY := y }) hpos
    (hrange.1.trans hrange.2) hlines
  refine ⟨_, a, ((Paints.of_calls (Frame.cursor t 0 y) rfl).trans hpaints).then_calls rfl rfl,
    Or.inr hfirst, fun r' hr' ↦ ?_⟩
  exact ((hiff r').mp hr'.2).1

/-- No region lies so that erasing a line would clear others without showing it, but for regions
behind a screen of more than `2 ^ 15` columns. -/
theorem silent_of_shows (hregion : RegionSet t) (hx : t.cursorX.toNat < t.screenWidth.toNat)
    (hy : t.cursorY.toNat < t.screenHeight.toNat)
    (hwide : t.screenWidth.toNat ≤ 2 ^ 15 ∨ 0 < t.cursorX.toNat ∧
      t.scrollStartRow.toNat < t.scrollEndRow.toNat ∧
        t.scrollEndRow.toNat ≤ t.screenHeight.toNat) {cells : List (BitVec 16 × BitVec 16)}
    (hdone : lineEnd f (t.blanked cells) = .done u)
    (hshow : Shows t (fun x y ↦ y = t.cursorY ∧ t.cursorX.toNat ≤ x.toNat) u) :
    ¬ClearedBy t r t.cursorY := by
  have hpos : 1 ≤ t.screenWidth.toNat := by omega
  have hnat : (0 : BitVec 16).toNat = 0 := rfl
  intro hr
  rcases hwide with hw | ⟨hcolumn, hstart, hstop⟩
  · -- all rows that are cleared are behind the screen, or this one is cleared at its own end
    obtain ⟨hpaints, hacc⟩ := lineEnd_paints f (t.blanked cells) u hpos hw hdone
    change Acc (ClearedBy t) t.cursorY at hacc
    have hcells := (shows_iff ((Paints.blanked t cells).trans hpaints)).mp hshow
    refine not_clearedBy_of_off hregion hy hacc (fun r' hr' ↦ ?_) hr
    by_contra hon
    obtain ⟨hrow, -⟩ := (hcells 0 r' hpos (by omega)).mp (Or.inr ⟨hpos, .single hr'⟩)
    rw [hrow] at hr'
    exact not_rel_self_of_acc hacc hr'
  · -- the first cell of a row of the screen is drawn, and it is left of the cursor
    obtain ⟨S, a, hpaints, hfirst, ha⟩ := lineEnd_first (t := t.blanked cells) hpos hdone hr
    have hcells := (shows_iff ((Paints.blanked t cells).trans hpaints)).mp hshow
    have hon : a.toNat < t.screenHeight.toNat := by
      have hlast := toNat_u16_of_lt (z := t.scrollEndRow.toNat - 1) (by omega) (by omega)
      have har := ha r hr
      rcases hr.2 with ⟨hup, hlo, hhi⟩ | ⟨hdown, hlo, hhi⟩
      · have hstart' := ha t.scrollStartRow ⟨hr.1, Or.inl ⟨hup, le_rfl, hlo.trans hhi⟩⟩
        omega
      · omega
    obtain ⟨-, hleft⟩ := (hcells 0 a hpos hon).mp (Or.inr hfirst)
    omega

/-- **Only there.** -/
theorem lineFits_of_erases (hregion : RegionSet t) (hx : t.cursorX.toNat < t.screenWidth.toNat)
    (hy : t.cursorY.toNat < t.screenHeight.toNat)
    (hwide : t.screenWidth.toNat ≤ 2 ^ 15 ∨ t.cursorX.toNat + 1 < t.screenWidth.toNat ∨
      t.scrollStartRow.toNat < t.scrollEndRow.toNat ∧
        t.scrollEndRow.toNat ≤ t.screenHeight.toNat)
    (h : LineErases t) : LineFits t := by
  obtain ⟨f, u, hdone, hshow, hvalue⟩ := h
  have hlt := t.screenWidth.isLt
  by_cases hw : t.screenWidth.toNat ≤ 2 ^ 15 ∨ t.cursorX.toNat + 1 = t.screenWidth.toNat
  swap
  · -- the blanks leave out a column of the line
    have hpaints := blanks_miss (by omega) (by omega) (by omega) hdone
    obtain ⟨c, hcolumn, hc⟩ := exists_missed t.cursorWrap (by omega)
      (show t.cursorX.toNat + 1 < t.screenWidth.toNat by omega)
    refine absurd ⟨rfl, ?_⟩ (hpaints.not_shown hshow hc hy (not_not_intro hcolumn))
    rw [hcolumn, missed]
    omega
  -- the blanks of a line that fits are a run and a row's end
  obtain ⟨n, hn⟩ : ∃ n, t.screenWidth.toNat - t.cursorX.toNat = n + 1 :=
    Nat.exists_eq_add_of_le' (by omega)
  rw [hn] at hdone
  rcases f with _ | g
  · rw [blanks_succ] at hdone
    cases hdone
  rw [blanks_margin (by omega) fun c hlo hhi ↦ by rw [lineLimit_of_le (by omega)]; omega] at hdone
  have hsilent : ∀ r, ¬ClearedBy t r t.cursorY :=
    fun r ↦ silent_of_shows hregion hx hy (by omega) hdone hshow
  obtain ⟨u', hdone', -, -, hquiet⟩ := lineEnd_of_silent (f := g)
    (t := t.blanked (rowCells t.cursorX.toNat (n + 1) t.cursorY)) hsilent hregion.height
  rw [hdone'] at hdone
  cases hdone
  exact ⟨hw, hquiet.mp hvalue⟩

/-- Blanks that stay in the row. -/
theorem blanks_paints {n : ℕ} (h : ∀ c, t.cursorX.toNat ≤ c → c < t.cursorX.toNat + n →
    c + 1 < lineLimit t.screenWidth t.cursorWrap) (hdone : blanks (putc f) n t = .done u) :
    Paints t {p | p ∈ rowCells t.cursorX.toNat n t.cursorY} u := by
  rcases f with _ | g
  · rcases n with _ | n
    · cases hdone
      exact (Paints.of_calls (Frame.refl t) rfl).congr fun p ↦
        iff_of_false (Set.notMem_empty p) List.not_mem_nil
    · rw [blanks_succ] at hdone
      cases hdone
  · rw [blanks_run h] at hdone
    cases hdone
    exact (Paints.blanked t _).then_calls (Frame.cursor _ _ t.cursorY) rfl

/-- **Erasing up to the cursor** leaves the cursor's cell as it is, or another one before it. -/
theorem not_shows_start (hx : t.cursorX.toNat < t.screenWidth.toNat)
    (hy : t.cursorY.toNat < t.screenHeight.toNat)
    (hdone : blanks (putc f) t.cursorX.toNat { t with cursorX := 0 } = .done u) :
    ¬Shows { t with cursorX := 0 } (fun x y ↦ y = t.cursorY ∧ x.toNat ≤ t.cursorX.toNat) u := by
  intro hshow
  have hnat : (0 : BitVec 16).toNat = 0 := rfl
  have hlimit := missed.eq_1 t.screenWidth t.cursorWrap 0
  rcases Nat.lt_or_ge t.cursorX.toNat (missed t.screenWidth t.cursorWrap 0) with hin | hout
  · have hpaints := blanks_paints (t := { t with cursorX := 0 }) (n := t.cursorX.toNat)
      (fun c _ hhi ↦ by dsimp only at hhi ⊢; omega) hdone
    have hmem := ((shows_iff hpaints).mp hshow t.cursorX t.cursorY hx hy).mpr ⟨rfl, le_rfl⟩
    have hrange := (mem_rowCells (by dsimp only; omega)).mp hmem
    dsimp only at hrange
    omega
  · -- a screen of more than `2 ^ 15` columns
    have hwide : 2 ^ 15 < t.screenWidth.toNat := by
      by_contra hw
      rw [lineLimit_of_le (by omega)] at hlimit
      omega
    have hpaints := blanks_miss (t := { t with cursorX := 0 }) hwide (by dsimp only; omega)
      (by dsimp only; omega) hdone
    obtain ⟨c, hcolumn, hc⟩ := exists_missed t.cursorWrap hwide
      (show 0 + 1 < t.screenWidth.toNat by omega)
    exact hpaints.not_shown hshow hc hy (not_not_intro hcolumn) ⟨rfl, hcolumn.trans_le hout⟩

end Line

/-! ## Rows -/

/-- Row `r` can be cleared with the rows from `a` to `b`: no chain of nested scrolls goes on for
ever, and the rows of the screen that are cleared by one are among them. -/
def RowErasable (t : Vt100) (a b r : BitVec 16) : Prop :=
  Acc (ClearedBy t) r ∧ ∀ r' : BitVec 16, Relation.TransGen (ClearedBy t) r' r →
    r'.toNat < t.screenHeight.toNat → a.toNat ≤ r'.toNat ∧ r'.toNat ≤ b.toNat

/-- The rows from `a` to `b` can be erased. -/
def RowsErasable (t : Vt100) (a b : BitVec 16) : Prop :=
  t.screenWidth.toNat ≤ 2 ^ 15 ∧
    ∀ r : BitVec 16, a.toNat ≤ r.toNat → r.toNat ≤ b.toNat → RowErasable t a b r

/-- Clearing the rows from `a` to `b` erases just these rows of the screen. -/
def RowsErase (t : Vt100) (a b : BitVec 16) : Prop :=
  ∃ f u, clearLines (putc f) a b t = .done u ∧
    Shows t (fun _ y ↦ a.toNat ≤ y.toNat ∧ y.toNat ≤ b.toNat) u

section Rows

variable {t : Vt100} {a b : BitVec 16}

/-- **Erasing rows.** -/
theorem rowsErase_iff (hregion : RegionSet t) (hx : t.cursorX.toNat < t.screenWidth.toNat)
    (hy : t.cursorY.toNat < t.screenHeight.toNat)
    (hab : a.toNat ≤ t.cursorY.toNat ∧ t.cursorY.toNat ≤ b.toNat) :
    RowsErase t a b ↔ RowsErasable t a b := by
  have hpos : 1 ≤ t.screenWidth.toNat := by omega
  constructor
  · rintro ⟨f, u, hdone, hshow⟩
    have hw : t.screenWidth.toNat ≤ 2 ^ 15 := by
      -- a wide screen leaves out a column of the cursor's row
      by_contra hw
      have hpaints := clearLines_miss (by omega) hdone
      obtain ⟨c, hcolumn, hc⟩ := exists_missed (w := t.screenWidth) (k := 0) _ (by omega) (by omega)
      exact hpaints.not_shown hshow hc hy (not_not_intro hcolumn) hab
    have hcleared := clearLines_cleared (fun g _ ↦ lineEnd_paints g) hpos hw hdone
    refine ⟨hw, fun r hlo hhi ↦ ⟨hcleared.ended r hlo (by omega), fun r' hpath hon ↦ ?_⟩⟩
    exact ((shows_iff hcleared.paints).mp hshow 0 r' hpos hon).mp
      ⟨hpos, r, hlo, by omega, hpath.to_reflTransGen⟩
  · rintro ⟨hw, hrows⟩
    obtain ⟨f, hdone⟩ := clearLines_done_of_acc hw hregion.ne fun r hlo hhi ↦ (hrows r hlo hhi).1
    obtain ⟨u, hdone, -⟩ := hdone.exists_done
    have hcleared := clearLines_cleared (fun g _ ↦ lineEnd_paints g) hpos hw hdone
    refine ⟨f, u, hdone, (shows_iff hcleared.paints).mpr fun x y hx' hy' ↦ ⟨?_, fun hrow ↦ ?_⟩⟩
    · -- a row of the loop, or one that was cleared at the end of one
      rintro ⟨-, r, hlo, hhi, hpath⟩
      rcases Relation.reflTransGen_iff_eq_or_transGen.mp hpath with heq | hpath
      · dsimp only at heq
        rw [← heq]
        omega
      · exact (hrows r hlo (by omega)).2 y hpath hy'
    · exact ⟨hx', y, hrow.1, by omega, .refl⟩

/-- The screen holds the scroll region, and line wrap is on. -/
structure HoldsRegion (t : Vt100) : Prop where
  /-- Line wrap is on. -/
  wrap : t.cursorWrap = true
  /-- The region has a row. -/
  start : t.scrollStartRow.toNat < t.scrollEndRow.toNat
  /-- It ends on the screen. -/
  stop : t.scrollEndRow.toNat ≤ t.screenHeight.toNat
  /-- The rows are numbers of 15 bits. -/
  height : t.screenHeight.toNat + 1 < 2 ^ 15

/-- On such a screen, the rows that are cleared at the end of row `r`. -/
theorem HoldsRegion.clearedBy_iff (h : HoldsRegion t) {r r' : BitVec 16}
    (hr : r.toNat ≤ t.screenHeight.toNat) : ClearedBy t r' r ↔
      t.scrollEndRow.toNat ≤ r.toNat + 1 ∧ t.scrollStartRow.toNat ≤ r'.toNat ∧
        r'.toNat + t.scrollEndRow.toNat ≤ t.scrollStartRow.toNat + r.toNat + 1 := by
  refine (and_iff_right h.wrap).trans ?_
  obtain ⟨-, hstart, hstop, hh⟩ := h
  have hnext := toNat_u16_of_lt (z := r.toNat + 1) (by omega) (by omega)
  rcases Nat.lt_or_ge (r.toNat + 1) t.scrollEndRow.toNat with hin | hbelow
  · refine iff_of_false ?_ (by omega)
    rcases Nat.lt_or_ge (r.toNat + 1) t.scrollStartRow.toNat with habove | hregion
    · -- a scroll down, of the rows at the region's end and behind it: there are none
      rw [lines_above (by omega) (by omega), hnext, s16_of_range (by omega) (by omega)]
      have hfirst := toNat_u16_of_lt
        (z := t.scrollEndRow.toNat - (r.toNat + 1 - t.scrollStartRow.toNat)) (by omega) (by omega)
      have hlast := toNat_u16_of_lt (z := t.scrollEndRow.toNat - 1) (by omega) (by omega)
      rw [ScrollClears]
      omega
    · rw [lines_inside (by omega) (by omega), ScrollClears]
      omega
  · rw [lines_below (by omega), hnext, s16_of_range (by omega) (by omega), ScrollClears]
    have hlast := toNat_u16_of_lt (z := t.scrollStartRow.toNat
      + (r.toNat + 1 - t.scrollEndRow.toNat + 1) - 1) (by omega) (by omega)
    omega

/-- In a region of two rows every nested scroll is of rows above. -/
theorem HoldsRegion.above (h : HoldsRegion t) {r r' : BitVec 16}
    (htwo : t.scrollStartRow.toNat + 2 ≤ t.scrollEndRow.toNat) (hr : r.toNat ≤ t.screenHeight.toNat)
    (hcleared : ClearedBy t r' r) : t.scrollStartRow.toNat ≤ r'.toNat ∧ r'.toNat < r.toNat := by
  have := (h.clearedBy_iff hr).mp hcleared
  omega

/-- So the scrolls come to an end: by induction on the number of the row. -/
theorem HoldsRegion.acc (h : HoldsRegion t)
    (htwo : t.scrollStartRow.toNat + 2 ≤ t.scrollEndRow.toNat) (n : ℕ) : ∀ r : BitVec 16,
    r.toNat ≤ n → r.toNat ≤ t.screenHeight.toNat → Acc (ClearedBy t) r := by
  induction n with
  | zero =>
    intro r hn hr
    refine .intro r fun r' hcleared ↦ ?_
    have := h.above htwo hr hcleared
    omega
  | succ n ih =>
    intro r hn hr
    refine .intro r fun r' hcleared ↦ ?_
    have := h.above htwo hr hcleared
    exact ih r' (by omega) (by omega)

theorem HoldsRegion.above_of_transGen (h : HoldsRegion t) {r r' : BitVec 16}
    (htwo : t.scrollStartRow.toNat + 2 ≤ t.scrollEndRow.toNat)
    (hpath : Relation.TransGen (ClearedBy t) r' r) : r.toNat ≤ t.screenHeight.toNat →
      t.scrollStartRow.toNat ≤ r'.toNat ∧ r'.toNat < r.toNat := by
  induction hpath with
  | single hcleared => exact fun hr ↦ h.above htwo hr hcleared
  | tail _ hcleared ih =>
    intro hr
    have hlast := h.above htwo hr hcleared
    have hfirst := ih (by omega)
    omega

theorem HoldsRegion.rowErasable (h : HoldsRegion t) {r : BitVec 16}
    (htwo : t.scrollStartRow.toNat + 2 ≤ t.scrollEndRow.toNat)
    (hb : b.toNat ≤ t.screenHeight.toNat) (ha : a.toNat ≤ t.scrollStartRow.toNat)
    (hr : r.toNat ≤ b.toNat) : RowErasable t a b r := by
  refine ⟨h.acc htwo r.toNat r le_rfl (by omega), fun r' hpath _ ↦ ?_⟩
  have := h.above_of_transGen htwo hpath (by omega)
  omega

/-- **Erasing rows on a screen that holds its region**: they end before the region does, or the
region has two rows and none of it is above them. -/
theorem rowsErasable_iff (h : HoldsRegion t) (hab : a.toNat ≤ b.toNat)
    (hb : b.toNat ≤ t.screenHeight.toNat) :
    RowsErasable t a b ↔ t.screenWidth.toNat ≤ 2 ^ 15 ∧ (b.toNat + 1 < t.scrollEndRow.toNat ∨
      t.scrollStartRow.toNat + 2 ≤ t.scrollEndRow.toNat ∧ a.toNat ≤ t.scrollStartRow.toNat) := by
  have hregion := h.start
  have hscreen := h.stop
  refine and_congr_right fun _ ↦ ⟨fun hrows ↦ ?_, fun hfit r hlo hhi ↦ ?_⟩
  · by_contra hnot
    have hlast := hrows b hab le_rfl
    have hclears : ClearedBy t t.scrollStartRow b := (h.clearedBy_iff hb).mpr (by omega)
    have habove := hlast.2 _ (.single hclears) (by omega)
    -- the region is one row, which is cleared at its own end
    refine not_rel_self_of_acc (hlast.1.inv hclears) ?_
    exact (h.clearedBy_iff (by omega)).mpr (by omega)
  · rcases hfit with hbefore | ⟨htwo, ha⟩
    · have hnone : ∀ r', ¬ClearedBy t r' r := fun r' hcleared ↦ by
        have := (h.clearedBy_iff (by omega)).mp hcleared
        omega
      refine ⟨.intro r fun r' hcleared ↦ absurd hcleared (hnone r'), fun r' hpath _ ↦ ?_⟩
      obtain ⟨c, -, hc⟩ := Relation.TransGen.tail'_iff.mp hpath
      exact absurd hc (hnone c)
    · exact h.rowErasable htwo hb ha hhi

/-- The row after the cursor's is in the region, or above it while the scroll value comes back to
what it was. -/
def RowFollows (t : Vt100) : Prop :=
  t.cursorY.toNat + 1 < t.scrollEndRow.toNat ∧
    (t.scrollStartRow.toNat ≤ t.cursorY.toNat + 1 ∨
      u16 ((t.scrollEndRow.toNat - t.scrollStartRow.toNat + t.scrollValue.toNat
        + (t.cursorY.toNat + 1 - t.scrollStartRow.toNat) : ℤ).tmod
          (t.scrollEndRow.toNat - t.scrollStartRow.toNat)) = t.scrollValue)

/-- **Erasing a line on a screen that holds its region.** -/
theorem quietEnd_iff (h : HoldsRegion t) (hy : t.cursorY.toNat < t.screenHeight.toNat) :
    QuietEnd t ↔ RowFollows t := by
  have hstart := h.start
  have hstop := h.stop
  have hheight := h.height
  have hsilent : (∀ r, ¬ClearedBy t r t.cursorY) ↔
      t.cursorY.toNat + 1 < t.scrollEndRow.toNat := by
    constructor
    · intro hnone
      by_contra hnot
      exact hnone t.scrollStartRow ((h.clearedBy_iff (by omega)).mpr (by omega))
    · intro hlast r hr
      have := (h.clearedBy_iff (by omega)).mp hr
      omega
  have hnext := toNat_u16_of_lt (z := t.cursorY.toNat + 1) (by omega) (by omega)
  have hrows := toNat_u16_of_lt (z := t.scrollEndRow.toNat - t.scrollStartRow.toNat) (by omega)
    (by omega)
  rw [QuietEnd, RowFollows]
  refine (and_congr_left' hsilent).trans (and_congr_right fun hlast ↦ ?_)
  rw [forall_prop_of_true h.wrap, hrows]
  rcases Nat.lt_or_ge (t.cursorY.toNat + 1) t.scrollStartRow.toNat with habove | hinside
  · have hn : lines t.scrollStartRow t.scrollEndRow (u16 (t.cursorY.toNat + 1))
        = t.cursorY.toNat + 1 - t.scrollStartRow.toNat := by
      rw [lines_above (by omega) (by omega), hnext, s16_of_range (by omega) (by omega)]
    rw [hn, scrolled, if_neg (by omega), hrows, or_iff_right (by omega), or_iff_right (by omega)]
  · exact iff_of_true (Or.inl (lines_inside (by omega) (by omega))) (Or.inl hinside)

end Rows

/-! ## The commands -/

/-- The erasing commands: to the end of the line, up to the cursor, the line, the screen from the
cursor's line on, up to the cursor's line, and the screen. -/
inductive Erase
  | toLineEnd | toCursor | line | below | above | screen
  deriving DecidableEq

namespace Erase

def final : Erase → BitVec 8
  | toLineEnd | toCursor | line => ascii 'K'
  | below | above | screen => ascii 'J'

def arg : Erase → ℕ
  | toLineEnd | below => 0
  | toCursor | above => 1
  | line | screen => 2

/-- The digits are those of the command's parameter, which may be missing if it is 0. -/
def Asks (e : Erase) (ds : List (List (BitVec 8))) : Prop :=
  ds.length ≤ 1 ∧ (∀ d ∈ ds, d ≠ [] ∧ ∀ c ∈ d, isdigit c) ∧ (params ds).headD 0 = e.arg

instance (e : Erase) (ds : List (List (BitVec 8))) : Decidable (e.Asks ds) :=
  inferInstanceAs (Decidable (_ ∧ _))

/-- The cells to erase. -/
def Covers (t : Vt100) (x y : BitVec 16) : Erase → Prop
  | toLineEnd => y = t.cursorY ∧ t.cursorX.toNat ≤ x.toNat
  | toCursor => y = t.cursorY ∧ x.toNat ≤ t.cursorX.toNat
  | line => y = t.cursorY
  | below => t.cursorY.toNat ≤ y.toNat
  | above => y.toNat ≤ t.cursorY.toNat
  | screen => True

end Erase

/-- The command returns, has blanked the cells that it should and no others, and, if it erases in
the line, has left the cursor and the scroll state as they were. -/
def Erases (t : Vt100) (ds : List (List (BitVec 8))) (e : Erase) : Prop :=
  ∃ fuel t', vt100Puts fuel t (csiHead ds ++ [e.final]) = .done t' ∧
    Shows t (fun x y ↦ e.Covers t x y) t' ∧
      (e.final = ascii 'K' → t'.cursor = t.cursor ∧ t'.scrollValue = t.scrollValue ∧
        t'.scrollStartRow = t.scrollStartRow ∧ t'.scrollEndRow = t.scrollEndRow)

/-- Where a command does so. -/
def EraseFits (t : Vt100) : Erase → Prop
  | .toLineEnd => LineFits t
  | .toCursor => False
  | .line => LineFits { t with cursorX := 0 }
  | .below => RowsErasable t t.cursorY t.screenHeight
  | .above => RowsErasable t 0 t.cursorY
  | .screen => RowsErasable t 0 t.screenHeight

section Commands

variable {t u : Vt100} {ds : List (List (BitVec 8))} {e : Erase}

/-- What a command prints. -/
def Erase.prints (fuel : ℕ) (t : Vt100) : Erase → Vt100Run
  | .toLineEnd => blanks (putc fuel) (t.screenWidth.toNat - t.cursorX.toNat) t
  | .toCursor => blanks (putc fuel) t.cursorX.toNat { t with cursorX := 0 }
  | .line => blanks (putc fuel) t.screenWidth.toNat { t with cursorX := 0 }
  | .below => clearLines (putc fuel) t.cursorY t.screenHeight t
  | .above => clearLines (putc fuel) 0 t.cursorY t
  | .screen => clearLines (putc fuel) 0 t.screenHeight t

/-- What it does after printing. -/
def Erase.finish (t u : Vt100) : Erase → Vt100
  | .toLineEnd | .toCursor | .line => { u with cursorX := t.cursorX, cursorY := t.cursorY }
  | .below | .above => u
  | .screen => u.resetScroll

theorem eraseArg_of_asks (hask : e.Asks ds) (hnarg : u.narg.toNat = ds.length)
    (hargs : ∀ i : Fin 4, (u.args i).toNat = (params ds).getD i 0) :
    u.eraseArg = some (BitVec.ofNat 16 e.arg) := by
  obtain ⟨hlen, -, harg⟩ := hask
  rcases ds with _ | ⟨d, _ | ⟨d', ds⟩⟩
  · have hzero : u.narg = 0 := BitVec.eq_of_toNat_eq hnarg
    have hnone : e.arg = 0 := harg.symm
    rw [eraseArg, if_pos hzero, hnone]
    rfl
  · have hone : u.narg = 1 := BitVec.eq_of_toNat_eq hnarg
    have hvalue : (u.args 0).toNat = e.arg := (hargs 0).trans harg
    rw [eraseArg, hone, if_neg (by decide), if_pos rfl, ← hvalue, BitVec.ofNat_toNat,
      BitVec.setWidth_eq]
  · rw [List.length_cons, List.length_cons] at hlen
    omega

theorem csiBody_erase (h : u.eraseArg = some (BitVec.ofNat 16 e.arg)) (fuel : ℕ) :
    u.csiBody fuel (Csi.ofChar e.final)
      = (e.prints fuel u).andThen fun v ↦ .done (e.finish u v) := by
  have hzero {a : BitVec 16} (ha : u.eraseArg = some a) (hne : a ≠ 0) : u.eraseArg ≠ some 0 :=
    fun h' ↦ hne (Option.some.inj (ha.symm.trans h'))
  have hone {a : BitVec 16} (ha : u.eraseArg = some a) (hne : a ≠ 1) : u.eraseArg ≠ some 1 :=
    fun h' ↦ hne (Option.some.inj (ha.symm.trans h'))
  cases e with
  | toLineEnd =>
    change u.clearLine fuel = _
    rw [clearLine, if_pos (show u.eraseArg = some 0 from h)]
    rfl
  | toCursor =>
    change u.clearLine fuel = _
    rw [clearLine, if_neg (hzero h (by decide)), if_pos (show u.eraseArg = some 1 from h)]
    rfl
  | line =>
    change u.clearLine fuel = _
    rw [clearLine, if_neg (hzero h (by decide)), if_neg (hone h (by decide)),
      if_pos (show u.eraseArg = some 2 from h)]
    rfl
  | below =>
    change u.clearScreen fuel = _
    rw [clearScreen, if_pos (show u.eraseArg = some 0 from h)]
    exact (Outcome.andThen_done_right _).symm
  | above =>
    change u.clearScreen fuel = _
    rw [clearScreen, if_neg (hzero h (by decide)), if_pos (show u.eraseArg = some 1 from h)]
    exact (Outcome.andThen_done_right _).symm
  | screen =>
    change u.clearScreen fuel = _
    rw [clearScreen, if_neg (hzero h (by decide)), if_neg (hone h (by decide)),
      if_pos (show u.eraseArg = some 2 from h)]
    rfl

/-- Printing keeps the scroll region. -/
theorem frame_prints (t : Vt100) (e : Erase) (fuel : ℕ) {v : Vt100}
    (h : e.prints fuel t = .done v) :
    Frame t v := by
  have hputc := frame_putc fuel
  cases e with
  | toLineEnd => exact (frame_blanks hputc _ t).of_done h
  | toCursor => exact (Frame.cursor t 0 t.cursorY).trans ((frame_blanks hputc _ _).of_done h)
  | line => exact (Frame.cursor t 0 t.cursorY).trans ((frame_blanks hputc _ _).of_done h)
  | below => exact (frame_clearLines hputc _ _ t).of_done h
  | above => exact (frame_clearLines hputc _ _ t).of_done h
  | screen => exact (frame_clearLines hputc _ _ t).of_done h

theorem shows_congr {E : BitVec 16 → BitVec 16 → Prop} {v v' : Vt100} (h : v'.display = v.display) :
    Shows t E v' ↔ Shows t E v := by
  rw [Shows, h]
  rfl

/-- The printing of a command is right. -/
def Printed (t : Vt100) (e : Erase) : Prop :=
  ∃ fuel v, e.prints fuel t = .done v ∧ Shows t (fun x y ↦ e.Covers t x y) v ∧
    (e.final = ascii 'K' → v.scrollValue = t.scrollValue)

/-- The printing is all that has to be right. -/
theorem erases_iff_printed (hidle : t.state = .idle) (hask : e.Asks ds) :
    ∃ u, Parses t u ∧ (Erases t ds e ↔ Printed u e) := by
  have hfinal : ¬isdigit e.final ∧ e.final ≠ ascii ';' ∧ e.final ≠ ascii '?' := by
    cases e <;> decide
  obtain ⟨u, hparses, hnarg, hargs, hrun⟩ :=
    vt100Puts_command hidle (hask.1.trans (by decide)) hask.2.1 hfinal
  have hbody := csiBody_erase (eraseArg_of_asks hask hnarg hargs)
  have hdisplay (v : Vt100) : ({ e.finish u v with state := .idle } : Vt100).display
      = v.display := by
    cases e <;> rfl
  refine ⟨u, hparses, ?_⟩
  constructor
  · -- the commands do nothing else that the display or the scroll value could show
    rintro ⟨fuel, t', hdone, hshow, hline⟩
    rw [hrun, hbody] at hdone
    rcases hprints : e.prints fuel u with v | ⟨f, v⟩
    swap
    · rw [hprints] at hdone
      cases hdone
    rw [hprints] at hdone
    cases hdone
    obtain ⟨state, retState, narg, args, rfl⟩ := hparses
    refine ⟨fuel, v, hprints, (shows_congr (hdisplay v)).mp hshow, fun hK ↦ ?_⟩
    have hvalue := (hline hK).2.1
    cases e with
    | toLineEnd | toCursor | line => exact hvalue
    | below | above | screen => exact absurd hK (by decide)
  · rintro ⟨fuel, v, hprints, hshow, hline⟩
    have hframe := frame_prints u e fuel hprints
    obtain ⟨state, retState, narg, args, rfl⟩ := hparses
    refine ⟨fuel, { e.finish _ v with state := .idle }, ?_, (shows_congr (hdisplay v)).mpr hshow,
      fun hK ↦ ?_⟩
    · rw [hrun, hbody, hprints]
      rfl
    · cases e with
      | toLineEnd | toCursor | line =>
        exact ⟨rfl, hline hK, hframe.scrollStartRow, hframe.scrollEndRow⟩
      | below | above | screen => exact absurd hK (by decide)

/-- The region is on the screen, or the erasing does not start in the last of more than `2 ^ 15`
columns. -/
def RegionShown (t : Vt100) (e : Erase) : Prop :=
  e = .toLineEnd → t.screenWidth.toNat ≤ 2 ^ 15 ∨ t.cursorX.toNat + 1 < t.screenWidth.toNat ∨
    t.scrollStartRow.toNat < t.scrollEndRow.toNat ∧ t.scrollEndRow.toNat ≤ t.screenHeight.toNat

theorem printed_toLineEnd : Printed t .toLineEnd ↔ LineErases t := by
  constructor
  · rintro ⟨f, v, hdone, hshow, hvalue⟩
    exact ⟨f, v, hdone, hshow, hvalue rfl⟩
  · rintro ⟨f, v, hdone, hshow, hvalue⟩
    exact ⟨f, v, hdone, hshow, fun _ ↦ hvalue⟩

/-- A line is erased from its first cell on. -/
theorem printed_line : Printed t .line ↔ LineErases { t with cursorX := 0 } := by
  constructor
  · rintro ⟨f, v, hdone, hshow, hvalue⟩
    exact ⟨f, v, hdone, hshow.congr fun x y _ _ ↦ (and_iff_left (Nat.zero_le _)).symm, hvalue rfl⟩
  · rintro ⟨f, v, hdone, hshow, hvalue⟩
    exact ⟨f, v, hdone, Shows.congr (t := t) hshow fun x y _ _ ↦ and_iff_left (Nat.zero_le _),
      fun _ ↦ hvalue⟩

theorem printed_rows {a b : BitVec 16} (hprints : ∀ f, e.prints f t = clearLines (putc f) a b t)
    (hfinal : e.final ≠ ascii 'K') (hcovers : ∀ x y : BitVec 16, y.toNat < t.screenHeight.toNat →
      (e.Covers t x y ↔ a.toNat ≤ y.toNat ∧ y.toNat ≤ b.toNat)) :
    Printed t e ↔ RowsErase t a b := by
  constructor
  · rintro ⟨f, v, hdone, hshow, -⟩
    rw [hprints] at hdone
    exact ⟨f, v, hdone, hshow.congr fun x y _ hy ↦ hcovers x y hy⟩
  · rintro ⟨f, v, hdone, hshow⟩
    rw [← hprints] at hdone
    exact ⟨f, v, hdone, hshow.congr fun x y _ hy ↦ (hcovers x y hy).symm, fun h ↦ absurd h hfinal⟩

theorem not_printed_toCursor (hx : t.cursorX.toNat < t.screenWidth.toNat)
    (hy : t.cursorY.toNat < t.screenHeight.toNat) : ¬Printed t .toCursor := by
  rintro ⟨f, v, hdone, hshow, -⟩
  exact not_shows_start hx hy hdone hshow

/-- All commands but one print what they should exactly where they fit. -/
theorem printed_iff (hregion : RegionSet t) (hx : t.cursorX.toNat < t.screenWidth.toNat)
    (hy : t.cursorY.toNat < t.screenHeight.toNat) (he : e ≠ .toLineEnd) :
    Printed t e ↔ EraseFits t e := by
  have hnat : (0 : BitVec 16).toNat = 0 := rfl
  cases e with
  | toLineEnd => exact absurd rfl he
  | toCursor => exact iff_of_false (not_printed_toCursor hx hy) id
  | line =>
    have hpos : ({ t with cursorX := 0 } : Vt100).cursorX.toNat < t.screenWidth.toNat := by
      dsimp only
      omega
    refine printed_line.trans ⟨lineFits_of_erases hregion hpos hy ?_,
      lineErases_of_fits hregion hpos⟩
    dsimp only
    omega
  | below =>
    refine (printed_rows (fun _ ↦ rfl) (by decide) fun x y hy' ↦ ?_).trans
      (rowsErase_iff hregion hx hy ⟨le_rfl, hy.le⟩)
    exact (and_iff_left hy'.le).symm
  | above =>
    refine (printed_rows (fun _ ↦ rfl) (by decide) fun x y hy' ↦ ?_).trans
      (rowsErase_iff hregion hx hy ⟨Nat.zero_le _, le_rfl⟩)
    exact (and_iff_right (Nat.zero_le _)).symm
  | screen =>
    refine (printed_rows (fun _ ↦ rfl) (by decide) fun x y hy' ↦ ?_).trans
      (rowsErase_iff hregion hx hy ⟨Nat.zero_le _, hy.le⟩)
    exact iff_of_true trivial ⟨Nat.zero_le _, hy'.le⟩

theorem printed_of_fits (hregion : RegionSet t) (hx : t.cursorX.toNat < t.screenWidth.toNat)
    (hy : t.cursorY.toNat < t.screenHeight.toNat) (h : EraseFits t e) : Printed t e := by
  by_cases he : e = .toLineEnd
  · subst he
    exact printed_toLineEnd.mpr (lineErases_of_fits hregion hx h)
  · exact (printed_iff hregion hx hy he).mpr h

theorem fits_of_printed (hregion : RegionSet t) (hx : t.cursorX.toNat < t.screenWidth.toNat)
    (hy : t.cursorY.toNat < t.screenHeight.toNat) (hshown : RegionShown t e) (h : Printed t e) :
    EraseFits t e := by
  by_cases he : e = .toLineEnd
  · subst he
    exact lineFits_of_erases hregion hx hy (hshown rfl) (printed_toLineEnd.mp h)
  · exact (printed_iff hregion hx hy he).mp h

/-- What fits does not depend on what the parser has read. -/
theorem Parses.eraseFits_iff (h : Parses t u) : EraseFits u e ↔ EraseFits t e := by
  obtain ⟨state, retState, narg, args, rfl⟩ := h
  cases e <;> rfl

/-- **A command that fits erases what it should.** -/
theorem erases_of_fits (hregion : RegionSet t) (hidle : t.state = .idle)
    (hx : t.cursorX.toNat < t.screenWidth.toNat) (hy : t.cursorY.toNat < t.screenHeight.toNat)
    (hask : e.Asks ds) (h : EraseFits t e) : Erases t ds e := by
  obtain ⟨u, hparses, herases⟩ := erases_iff_printed hidle hask
  have hfit := hparses.eraseFits_iff.mpr h
  obtain ⟨state, retState, narg, args, rfl⟩ := hparses
  exact herases.mpr (printed_of_fits hregion hx hy hfit)

/-- **Only there.** -/
theorem fits_of_erases (hregion : RegionSet t) (hidle : t.state = .idle)
    (hx : t.cursorX.toNat < t.screenWidth.toNat) (hy : t.cursorY.toNat < t.screenHeight.toNat)
    (hask : e.Asks ds) (hshown : RegionShown t e) (h : Erases t ds e) : EraseFits t e := by
  obtain ⟨u, hparses, herases⟩ := erases_iff_printed hidle hask
  rw [← hparses.eraseFits_iff]
  obtain ⟨state, retState, narg, args, rfl⟩ := hparses
  exact fits_of_printed hregion hx hy hshown (herases.mp h)

/-- **Erasing.** From a cursor on the screen, in any region that the terminal can be in, a command
that fits erases what it should, and one that does so fits. -/
theorem erases_iff {w h : BitVec 16} (hwf : Wellformed w h t) (hidle : t.state = .idle)
    (hx : t.cursorX.toNat < t.screenWidth.toNat) (hy : t.cursorY.toNat < t.screenHeight.toNat)
    (hask : e.Asks ds) :
    (EraseFits t e → Erases t ds e) ∧ (RegionShown t e → Erases t ds e → EraseFits t e) :=
  ⟨erases_of_fits hwf.region hidle hx hy hask, fits_of_erases hwf.region hidle hx hy hask⟩

/-- `ESC [ 2 J` on a fresh terminal. -/
theorem erases_iff_screen : Erases (freshTerminal 80 24) [[50]] .screen :=
  (erases_iff (t := freshTerminal 80 24) (wellformed_init _ (by decide)) rfl (by decide) (by decide)
    (by decide)).1 ((rowsErasable_iff ⟨rfl, by decide, by decide, by decide⟩ (by decide)
      (by decide)).mpr (by decide))

/-- `ESC [ 1 K` leaves the cursor's cell, and `ESC [ J` from the second row clears the first one
too. -/
theorem not_erases_column_row :
    ¬Erases { freshTerminal 80 24 with cursorX := 5 } [[49]] .toCursor ∧
      ¬Erases { freshTerminal 80 24 with cursorY := 1 } [] .below := by
  constructor
  · exact fits_of_erases (Or.inl (by decide)) rfl (by decide) (by decide) (by decide)
      fun h ↦ absurd h (by decide)
  · intro h
    have hrows : RowsErasable { freshTerminal 80 24 with cursorY := 1 } 1 24 :=
      fits_of_erases (Or.inl (by decide)) rfl (by decide) (by decide) (by decide)
        (fun h ↦ absurd h (by decide)) h
    rw [rowsErasable_iff ⟨rfl, by decide, by decide, by decide⟩ (by decide) (by decide)] at hrows
    exact absurd hrows (by decide)

end Commands

/-! ## Where a command fits -/

/-- Where a command fits on a screen that holds its region. -/
def FitsRegion (t : Vt100) : Erase → Prop
  | .toLineEnd =>
    (t.screenWidth.toNat ≤ 2 ^ 15 ∨ t.cursorX.toNat + 1 = t.screenWidth.toNat) ∧ RowFollows t
  | .toCursor => False
  | .line => t.screenWidth.toNat ≤ 2 ^ 15 ∧ RowFollows t
  | .below =>
    t.screenWidth.toNat ≤ 2 ^ 15 ∧ t.scrollStartRow.toNat + 2 ≤ t.scrollEndRow.toNat ∧
      t.cursorY.toNat ≤ t.scrollStartRow.toNat
  | .above =>
    t.screenWidth.toNat ≤ 2 ^ 15 ∧ (t.cursorY.toNat + 1 < t.scrollEndRow.toNat ∨
      t.scrollStartRow.toNat + 2 ≤ t.scrollEndRow.toNat)
  | .screen => t.screenWidth.toNat ≤ 2 ^ 15 ∧ t.scrollStartRow.toNat + 2 ≤ t.scrollEndRow.toNat

/-- Where a command fits without line wrap: no row's end scrolls. -/
def FitsWidth (t : Vt100) : Erase → Prop
  | .toLineEnd => t.screenWidth.toNat ≤ 2 ^ 15 ∨ t.cursorX.toNat + 1 = t.screenWidth.toNat
  | .toCursor => False
  | .line | .below | .above | .screen => t.screenWidth.toNat ≤ 2 ^ 15

section Fits

variable {t : Vt100} {ds : List (List (BitVec 8))} {e : Erase}

theorem HoldsRegion.regionSet (h : HoldsRegion t) : RegionSet t := Or.inl h.start

theorem HoldsRegion.regionShown (h : HoldsRegion t) : RegionShown t e := fun _ ↦
  .inr (.inr ⟨h.start, h.stop⟩)

theorem HoldsRegion.eraseFits_iff (h : HoldsRegion t)
    (hy : t.cursorY.toNat < t.screenHeight.toNat) : EraseFits t e ↔ FitsRegion t e := by
  have hstart := h.start
  have hstop := h.stop
  have hnat : (0 : BitVec 16).toNat = 0 := rfl
  cases e with
  | toLineEnd => exact and_congr_right fun _ ↦ quietEnd_iff h hy
  | toCursor => exact Iff.rfl
  | line =>
    have hquiet := quietEnd_iff (t := { t with cursorX := 0 }) ⟨h.wrap, hstart, hstop, h.height⟩ hy
    refine and_congr ?_ hquiet
    dsimp only
    omega
  | below =>
    refine (rowsErasable_iff h hy.le le_rfl).trans (and_congr_right fun _ ↦ ?_)
    omega
  | above =>
    refine (rowsErasable_iff h (Nat.zero_le _) hy.le).trans (and_congr_right fun _ ↦ ?_)
    omega
  | screen =>
    refine (rowsErasable_iff h (Nat.zero_le _) le_rfl).trans (and_congr_right fun _ ↦ ?_)
    omega

/-- **Erasing on a screen that holds its region.** -/
theorem erases_iff_of_holdsRegion (h : HoldsRegion t) (hidle : t.state = .idle)
    (hx : t.cursorX.toNat < t.screenWidth.toNat) (hy : t.cursorY.toNat < t.screenHeight.toNat)
    (hask : e.Asks ds) : Erases t ds e ↔ FitsRegion t e := by
  rw [← h.eraseFits_iff hy]
  exact ⟨fits_of_erases h.regionSet hidle hx hy hask h.regionShown,
    erases_of_fits h.regionSet hidle hx hy hask⟩

theorem eraseFits_iff_of_wrap_off (hwrap : t.cursorWrap = false) : EraseFits t e ↔
    FitsWidth t e := by
  have hon : ¬t.cursorWrap = true := by rw [hwrap]; decide
  have hnone (r' r : BitVec 16) : ¬ClearedBy t r' r := fun h ↦ hon h.1
  have hquiet : QuietEnd t := ⟨fun r ↦ hnone r t.cursorY, fun h ↦ absurd h hon⟩
  have hrow (a b r : BitVec 16) : RowErasable t a b r := by
    refine ⟨.intro r fun r' hcleared ↦ absurd hcleared (hnone r' r), fun r' hpath _ ↦ ?_⟩
    obtain ⟨c, -, hc⟩ := Relation.TransGen.tail'_iff.mp hpath
    exact absurd hc (hnone c r)
  have hrows (a b : BitVec 16) : RowsErasable t a b ↔ t.screenWidth.toNat ≤ 2 ^ 15 :=
    and_iff_left fun r _ _ ↦ hrow a b r
  cases e with
  | toLineEnd => exact and_iff_left hquiet
  | toCursor => exact Iff.rfl
  | line =>
    have hnat : (0 : BitVec 16).toNat = 0 := rfl
    refine (and_iff_left (show QuietEnd { t with cursorX := 0 } from hquiet)).trans ?_
    dsimp only [FitsWidth]
    omega
  | below | above | screen => exact hrows _ _

/-- **Erasing without line wrap.** -/
theorem erases_iff_of_wrap_off (hwrap : t.cursorWrap = false) (hregion : RegionSet t)
    (hidle : t.state = .idle) (hx : t.cursorX.toNat < t.screenWidth.toNat)
    (hy : t.cursorY.toNat < t.screenHeight.toNat) (hask : e.Asks ds) :
    Erases t ds e ↔ FitsWidth t e := by
  rw [← eraseFits_iff_of_wrap_off hwrap]
  refine ⟨fun h ↦ ?_, erases_of_fits hregion hidle hx hy hask⟩
  by_cases hshown : RegionShown t e
  · exact fits_of_erases hregion hidle hx hy hask hshown h
  · -- the only command that is left erases the last cell of a line
    rw [RegionShown, Classical.not_imp] at hshown
    obtain ⟨rfl, hshown⟩ := hshown
    refine (eraseFits_iff_of_wrap_off hwrap).mpr ?_
    dsimp only [FitsWidth]
    omega

end Fits

end Vt100

end Martink
