import Martink.Tty.Vt100Blanks
import Martink.Tty.Vt100Returns

/-!
# Blank cells

What the display shows is a grid of cells, and `tty_put` writes the cell last moved to.
`Paints t S t'` says that between `t` and `t'` blanks were drawn in the cells of `S`, and nothing
else: then exactly these cells are blank afterwards (`Vt100.shows_iff`).

At the end of a row the terminal may scroll, and scrolling clears lines: `ClearedBy` is the relation
between a row and the rows that are cleared at its end, on screens whose lines end where they
should. Clearing a row that ends with others cleared nests, so that a row's end returns exactly if
the relation is well founded below the row (`Vt100.lineEnd_paints`, `Vt100.moveRow_done_of_acc`),
and what it paints are the rows below it.
-/

namespace Martink

/-- A character on the display, in its colours. -/
structure TtyCell where
  /-- The character. -/
  ch : BitVec 8
  /-- Its colour. -/
  fg : BitVec 16
  /-- The colour behind it. -/
  bg : BitVec 16
  deriving DecidableEq

/-- What the display shows, and the cell that it writes next. -/
structure TtyGrid where
  /-- The column of the next cell. -/
  x : BitVec 16
  /-- The row of the next cell. -/
  y : BitVec 16
  /-- What each cell shows. -/
  cell : BitVec 16 → BitVec 16 → TtyCell

def TtyGrid.call (grid : TtyGrid) : TtyCall → TtyGrid
  | .moveCursor x y => { grid with x := x, y := y }
  | .put ch fg bg =>
    { grid with
      cell := fun x y ↦ if x = grid.x ∧ y = grid.y then ⟨ch, fg, bg⟩ else grid.cell x y }

namespace Vt100

/-- A blank in the terminal's colours. -/
def blankCell (t : Vt100) : TtyCell := ⟨ascii ' ', t.frontColor, t.backColor⟩

/-- From `t` to `t'` the display blanks the cells of the screen that meet `E` and changes no other,
whatever it showed before. -/
def Shows (t : Vt100) (E : BitVec 16 → BitVec 16 → Prop) (t' : Vt100) : Prop :=
  ∃ calls, t'.display.calls = t.display.calls ++ calls ∧
    ∀ (grid : TtyGrid) (x y : BitVec 16), x.toNat < t.screenWidth.toNat →
      y.toNat < t.screenHeight.toNat →
        (E x y → (calls.foldl TtyGrid.call grid).cell x y = t.blankCell) ∧
          (¬E x y → (calls.foldl TtyGrid.call grid).cell x y = grid.cell x y)

theorem Shows.congr {t t' : Vt100} {E E' : BitVec 16 → BitVec 16 → Prop} (hshow : Shows t E t')
    (h : ∀ x y : BitVec 16, x.toNat < t.screenWidth.toNat → y.toNat < t.screenHeight.toNat →
      (E x y ↔ E' x y)) : Shows t E' t' := by
  obtain ⟨calls, hcalls, hgrid⟩ := hshow
  refine ⟨calls, hcalls, fun grid x y hx hy ↦ ?_⟩
  rw [← h x y hx hy]
  exact hgrid grid x y hx hy

/-- `t'` comes from `t` by drawing blanks in the cells of `S`. -/
def Paints (t : Vt100) (S : Set (BitVec 16 × BitVec 16)) (t' : Vt100) : Prop :=
  Frame t t' ∧ ∃ cells, t'.display.calls = t.display.calls ++ t.blankCalls cells ∧
    ∀ p, p ∈ cells ↔ p ∈ S

/-! ## Painting -/

section Paints

variable {t t' t'' : Vt100} {S S' : Set (BitVec 16 × BitVec 16)}
  {E : BitVec 16 → BitVec 16 → Prop}

/-- The cell after drawing blanks. -/
theorem foldl_blankCalls (t : Vt100) (cells : List (BitVec 16 × BitVec 16)) :
    ∀ (grid : TtyGrid) (x y : BitVec 16),
      ((t.blankCalls cells).foldl TtyGrid.call grid).cell x y
        = if (x, y) ∈ cells then t.blankCell else grid.cell x y := by
  induction cells with
  | nil => exact fun grid x y ↦ (if_neg List.not_mem_nil).symm
  | cons p cells ih =>
    intro grid x y
    rw [blankCalls_cons, List.foldl_cons, List.foldl_cons, ih]
    by_cases hmem : (x, y) ∈ cells
    · rw [if_pos hmem, if_pos (List.mem_cons_of_mem p hmem)]
    · have hfirst : (x, y) ∈ p :: cells ↔ x = p.1 ∧ y = p.2 := by
        rw [List.mem_cons, or_iff_left hmem, Prod.ext_iff]
      rw [if_neg hmem, if_congr hfirst rfl rfl]
      rfl

/-- **What is shown** is what was painted. -/
theorem shows_iff (h : Paints t S t') :
    Shows t E t' ↔ ∀ x y : BitVec 16, x.toNat < t.screenWidth.toNat →
      y.toNat < t.screenHeight.toNat → ((x, y) ∈ S ↔ E x y) := by
  obtain ⟨-, cells, hcalls, hcells⟩ := h
  constructor
  · rintro ⟨calls, hcalls', hshow⟩ x y hx hy
    obtain rfl : t.blankCalls cells = calls :=
      List.append_cancel_left (hcalls.symm.trans hcalls')
    -- a grid without any blank
    have hgrid := hshow ⟨0, 0, fun _ _ ↦ ⟨0, 0, 0⟩⟩ x y hx hy
    rw [foldl_blankCalls] at hgrid
    have hne : (⟨0, 0, 0⟩ : TtyCell) ≠ t.blankCell := fun heq ↦
      absurd (show (0 : BitVec 8) = ascii ' ' from congrArg TtyCell.ch heq) (by decide)
    rw [← hcells]
    by_cases hE : E x y
    · refine iff_of_true ?_ hE
      by_contra hmem
      exact hne ((if_neg hmem).symm.trans (hgrid.1 hE))
    · refine iff_of_false (fun hmem ↦ hne ?_) hE
      exact (hgrid.2 hE).symm.trans (if_pos hmem)
  · intro hS
    refine ⟨t.blankCalls cells, hcalls, fun grid x y hx hy ↦ ?_⟩
    rw [foldl_blankCalls]
    have hmem := (hcells (x, y)).trans (hS x y hx hy)
    exact ⟨fun hE ↦ if_pos (hmem.mpr hE), fun hE ↦ if_neg (mt hmem.mp hE)⟩

namespace Paints

theorem frame (h : Paints t S t') : Frame t t' := h.1

theorem congr (h : Paints t S t') (hS : ∀ p, p ∈ S ↔ p ∈ S') : Paints t S' t' := by
  obtain ⟨hframe, cells, hcalls, hcells⟩ := h
  exact ⟨hframe, cells, hcalls, fun p ↦ (hcells p).trans (hS p)⟩

theorem of_calls (hframe : Frame t t') (hcalls : t'.display.calls = t.display.calls) :
    Paints t ∅ t' := by
  refine ⟨hframe, [], ?_, fun p ↦ iff_of_false List.not_mem_nil (Set.notMem_empty p)⟩
  rw [hcalls]
  exact (List.append_nil _).symm

theorem trans (h : Paints t S t') (h' : Paints t' S' t'') : Paints t (S ∪ S') t'' := by
  obtain ⟨hframe, cells, hcalls, hcells⟩ := h
  obtain ⟨hframe', cells', hcalls', hcells'⟩ := h'
  refine ⟨hframe.trans hframe', cells ++ cells', ?_, fun p ↦ ?_⟩
  · rw [hcalls', hframe.blankCalls, hcalls, blankCalls_append, List.append_assoc]
  · rw [List.mem_append, hcells, hcells', Set.mem_union]

/-- What paints nothing. -/
theorem then_calls (h : Paints t S t') (hframe : Frame t' t'')
    (hcalls : t''.display.calls = t'.display.calls) : Paints t S t'' :=
  (h.trans (of_calls hframe hcalls)).congr fun p ↦ by rw [Set.union_empty]

theorem blanked (t : Vt100) (cells : List (BitVec 16 × BitVec 16)) :
    Paints t {p | p ∈ cells} (t.blanked cells) :=
  ⟨rfl, cells, rfl, fun _ ↦ Iff.rfl⟩

end Paints

end Paints

/-! ## The end of a row -/

/-- Row `r'` is cleared at the end of row `r`. -/
def ClearedBy (t : Vt100) (r' r : BitVec 16) : Prop :=
  t.cursorWrap = true ∧ ScrollClears t.scrollStartRow t.scrollEndRow
    (lines t.scrollStartRow t.scrollEndRow (u16 (r.toNat + 1))) r'

/-- The cells of the rows that are cleared at the end of row `r`, by a nested scroll or directly. -/
def nestedCells (t : Vt100) (r : BitVec 16) : Set (BitVec 16 × BitVec 16) :=
  {p | p.1.toNat < t.screenWidth.toNat ∧ Relation.TransGen (ClearedBy t) p.2 r}

/-- The cells that clearing the rows from `a` to `b` draws. -/
def clearedCells (t : Vt100) (a b : ℕ) : Set (BitVec 16 × BitVec 16) :=
  {p | p.1.toNat < t.screenWidth.toNat ∧
    ∃ r : BitVec 16, a ≤ r.toNat ∧ r.toNat < b ∧ Relation.ReflTransGen (ClearedBy t) p.2 r}

section LineEnd

variable {t t' u : Vt100} {f : ℕ} {r r' : BitVec 16}

theorem Frame.clearedBy (h : Frame t t') : ClearedBy t' = ClearedBy t := by
  funext r' r
  rw [ClearedBy, h.cursorWrap, h.scrollStartRow, h.scrollEndRow]
  rfl

theorem mem_rowCells {x n : ℕ} {y : BitVec 16} {p : BitVec 16 × BitVec 16} (hx : x + n < 65536) :
    p ∈ rowCells x n y ↔ x ≤ p.1.toNat ∧ p.1.toNat < x + n ∧ p.2 = y := by
  rw [rowCells, List.mem_map]
  constructor
  · rintro ⟨c, hc, rfl⟩
    have hrange := List.mem_range'_1.mp hc
    rw [toNat_u16_natCast]
    exact ⟨by omega, by omega, rfl⟩
  · rintro ⟨hlo, hhi, rfl⟩
    refine ⟨p.1.toNat, List.mem_range'_1.mpr ⟨hlo, hhi⟩, ?_⟩
    rw [u16_toNat]

theorem mem_nestedCells {p : BitVec 16 × BitVec 16} : p ∈ t.nestedCells r ↔
    p.1.toNat < t.screenWidth.toNat ∧
      ∃ r', Relation.ReflTransGen (ClearedBy t) p.2 r' ∧ ClearedBy t r' r := by
  rw [nestedCells, Set.mem_ofPred_eq, Relation.TransGen.tail'_iff]

/-- Clearing the lines of a loop, and one more. -/
theorem mem_clearedCells_succ {a b : ℕ} {c : BitVec 16} (hc : c.toNat = b) (hab : a ≤ b)
    {p : BitVec 16 × BitVec 16} : p ∈ t.clearedCells a (b + 1) ↔ p ∈ t.clearedCells a b ∨
      p.1.toNat < t.screenWidth.toNat ∧ Relation.ReflTransGen (ClearedBy t) p.2 c := by
  constructor
  · rintro ⟨hx, r, hlo, hhi, hpath⟩
    rcases Nat.lt_or_eq_of_le (Nat.lt_succ_iff.mp hhi) with hlt | heq
    · exact Or.inl ⟨hx, r, hlo, hlt, hpath⟩
    · obtain rfl : r = c := BitVec.eq_of_toNat_eq (heq.trans hc.symm)
      exact Or.inr ⟨hx, hpath⟩
  · rintro (⟨hx, r, hlo, hhi, hpath⟩ | ⟨hx, hpath⟩)
    · exact ⟨hx, r, hlo, by omega, hpath⟩
    · exact ⟨hx, c, by omega, by omega, hpath⟩

/-- What is to be shown of the end of a line, for one depth of the recursion. -/
def LineEnds (f : ℕ) : Prop :=
  ∀ t u, 1 ≤ t.screenWidth.toNat → t.screenWidth.toNat ≤ 2 ^ 15 → lineEnd f t = .done u →
    Paints t (t.nestedCells t.cursorY) u ∧ Acc (ClearedBy t) t.cursorY

/-- Clearing one row. -/
theorem row_paints (hline : ∀ g < f, LineEnds g) (hpos : 1 ≤ t.screenWidth.toNat)
    (hw : t.screenWidth.toNat ≤ 2 ^ 15) (hx : t.cursorX = 0)
    (h : blanks (putc f) t.screenWidth.toNat t = .done u) :
    Paints t {p | p.1.toNat < t.screenWidth.toNat ∧
      Relation.ReflTransGen (ClearedBy t) p.2 t.cursorY} u ∧ Acc (ClearedBy t) t.cursorY := by
  obtain ⟨n, hn⟩ : ∃ n, t.screenWidth.toNat = n + 1 := Nat.exists_eq_add_of_le' hpos
  have hzero : t.cursorX.toNat = 0 := congrArg BitVec.toNat hx
  rcases f with _ | g
  · rw [hn, blanks_succ] at h
    cases h
  have hprint := blanks_margin (f := g) (t := t) (n := n) (by omega) fun c _ hhi ↦ by
    rw [lineLimit_of_le hw]
    omega
  rw [hn, hprint] at h
  obtain ⟨hpaints, hacc⟩ := hline g (Nat.lt_succ_self g)
    (t.blanked (rowCells t.cursorX.toNat (n + 1) t.cursorY)) u hpos hw h
  refine ⟨((Paints.blanked t _).trans hpaints).congr fun p ↦ ?_, hacc⟩
  have hlt := t.screenWidth.isLt
  rw [Set.mem_union, Set.mem_ofPred_eq, Set.mem_ofPred_eq, mem_rowCells (by omega), hzero,
    Relation.reflTransGen_iff_eq_or_transGen, hn]
  change _ ∨ p ∈ t.nestedCells t.cursorY ↔ _
  rw [nestedCells, Set.mem_ofPred_eq, hn]
  constructor
  · rintro (⟨-, hlt, hrow⟩ | ⟨hlt, hpath⟩)
    · exact ⟨by omega, Or.inl hrow.symm⟩
    · exact ⟨hlt, Or.inr hpath⟩
  · rintro ⟨hlt, hrow | hpath⟩
    · exact Or.inl ⟨Nat.zero_le _, by omega, hrow.symm⟩
    · exact Or.inr ⟨hlt, hpath⟩

/-- The rows from `a` up to `b`, without it, are cleared. -/
structure Cleared (t : Vt100) (a b : ℕ) (u : Vt100) : Prop where
  /-- Their cells are painted, and those of the scrolls at their ends. -/
  paints : Paints t (t.clearedCells a b) u
  /-- These scrolls come to an end. -/
  ended : ∀ r : BitVec 16, a ≤ r.toNat → r.toNat < b → Acc (ClearedBy t) r

/-- One row of the loop. -/
theorem Cleared.row {a i : ℕ} {v v' : Vt100} (hv : Cleared t a i v) (hline : ∀ g < f, LineEnds g)
    (hpos : 1 ≤ t.screenWidth.toNat) (hw : t.screenWidth.toNat ≤ 2 ^ 15) (hai : a ≤ i)
    (hi : i < 65536)
    (h : blanks (putc f) v.screenWidth.toNat { v with cursorY := u16 i, cursorX := 0 } = .done v') :
    Cleared t a (i + 1) v' := by
  have hframe : Frame t { v with cursorY := u16 i, cursorX := 0 } :=
    hv.paints.frame.trans (Frame.cursor v 0 (u16 i))
  have hrow : (u16 i).toNat = i := by
    rw [toNat_u16_natCast]
    omega
  have hwidth : v.screenWidth = t.screenWidth := hframe.screenWidth
  obtain ⟨hpaints, hacc⟩ := row_paints (t := { v with cursorY := u16 i, cursorX := 0 }) hline
    (by rw [hwidth]; exact hpos) (by rw [hwidth]; exact hw) rfl h
  rw [hframe.clearedBy] at hpaints hacc
  refine ⟨((hv.paints.then_calls (Frame.cursor v 0 (u16 i)) rfl).trans hpaints).congr fun p ↦ ?_,
    ?_⟩
  · rw [mem_clearedCells_succ hrow hai, Set.mem_union, Set.mem_ofPred_eq, hframe.screenWidth]
  · intro r hlo hhi
    rcases Nat.lt_or_eq_of_le (Nat.lt_succ_iff.mp hhi) with hlt | heq
    · exact hv.ended r hlo hlt
    · obtain rfl : r = u16 i := BitVec.eq_of_toNat_eq (heq.trans hrow.symm)
      exact hacc

/-- **Clearing lines** paints their rows and those that are cleared at their ends. -/
theorem clearLines_cleared (hline : ∀ g < f, LineEnds g) (hpos : 1 ≤ t.screenWidth.toNat)
    (hw : t.screenWidth.toNat ≤ 2 ^ 15) {a b : BitVec 16}
    (h : clearLines (putc f) a b t = .done u) : Cleared t a.toNat (b.toNat + 1) u := by
  have hstart : Cleared t a.toNat a.toNat t := by
    refine ⟨(Paints.of_calls (Frame.refl t) rfl).congr fun p ↦ ?_, fun r hlo hhi ↦ by omega⟩
    refine iff_of_false (Set.notMem_empty p) ?_
    rintro ⟨-, r, hlo, hhi, -⟩
    omega
  -- the loop of an empty range does nothing
  rcases Nat.lt_or_ge b.toNat a.toNat with hempty | hle
  · rw [clearLines_of_lt hempty] at h
    cases h
    refine ⟨(hstart.paints.then_calls (Frame.cursor t 0 a) rfl).congr fun p ↦ ?_,
      fun r hlo hhi ↦ by omega⟩
    refine iff_of_false ?_ ?_
    · rintro ⟨-, r, hlo, hhi, -⟩
      omega
    · rintro ⟨-, r, hlo, hhi, -⟩
      omega
  have hlt := b.isLt
  have hclear : (clearLines (putc f) a b t).Sat
      (Cleared t a.toNat (a.toNat + (b.toNat + 1 - a.toNat))) fun _ _ ↦ True := by
    refine Outcome.Sat.andThen (Q := Cleared t a.toNat (a.toNat + (b.toNat + 1 - a.toNat))) ?_
      fun v hv ↦ Outcome.sat_done ⟨hv.paints.then_calls (Frame.cursor v 0 a) rfl, hv.ended⟩
    -- the rows before the loop counter are cleared
    exact Outcome.Sat.forRange (I := fun i ↦ Cleared t a.toNat i) _
      (fun i v hlo hhi hv ↦ ⟨fun hrow ↦ hv.row hline hpos hw hlo (by omega) hrow, fun _ ↦ trivial⟩)
      hstart
  rw [Nat.add_sub_cancel' (by omega)] at hclear
  exact hclear.of_done h

/-- Where nothing is cleared, nothing is painted. -/
theorem nestedCells_of_not (h : ∀ r', ¬ClearedBy t r' r) :
    (∀ p, p ∈ (∅ : Set (BitVec 16 × BitVec 16)) ↔ p ∈ t.nestedCells r) ∧ Acc (ClearedBy t) r := by
  refine ⟨fun p ↦ iff_of_false (Set.notMem_empty p) fun hp ↦ ?_, .intro r fun r' hr' ↦
    absurd hr' (h r')⟩
  obtain ⟨-, r', -, hr'⟩ := mem_nestedCells.mp hp
  exact h r' hr'

/-- **What the end of a line paints**, and that it has ended. -/
theorem lineEnd_paints (f : ℕ) : LineEnds f := by
  -- by the depth of the recursion: a scroll clears lines, which end as this one does
  induction f using Nat.strong_induction_on with
  | _ f ih =>
    intro t u hpos hw h
    rw [lineEnd] at h
    by_cases hwrap : t.cursorWrap = true
    swap
    · rw [if_neg hwrap] at h
      cases h
      obtain ⟨hcells, hacc⟩ := nestedCells_of_not (t := t) (r := t.cursorY) fun r' hr' ↦ hwrap hr'.1
      exact ⟨(Paints.of_calls (Frame.cursor t t.screenWidth t.cursorY) rfl).congr hcells, hacc⟩
    rw [if_pos hwrap, moveRow_eq one_ne_zero] at h
    have hclears (r' : BitVec 16) : ClearedBy t r' t.cursorY ↔
        ScrollClears t.scrollStartRow t.scrollEndRow
          (lines t.scrollStartRow t.scrollEndRow (u16 (t.cursorY.toNat + 1))) r' :=
      and_iff_right hwrap
    generalize parkRow t.scrollStartRow t.scrollEndRow (u16 (t.cursorY.toNat + 1)) = y at h
    have hframe : Frame t { t with cursorX := 0, cursorY := y } := Frame.cursor t 0 y
    rcases eq_or_ne (lines t.scrollStartRow t.scrollEndRow (u16 (t.cursorY.toNat + 1))) 0
      with hzero | hne
    · -- the cursor moves, and nothing is cleared
      rw [hzero, scroll, if_neg (lt_irrefl 0), if_neg (lt_irrefl 0)] at h
      cases h
      obtain ⟨hcells, hacc⟩ := nestedCells_of_not (t := t) (r := t.cursorY) fun r' hr' ↦ by
        have hscroll := (hclears r').mp hr'
        rw [hzero, ScrollClears] at hscroll
        omega
      exact ⟨(Paints.of_calls hframe rfl).congr hcells, hacc⟩
    · obtain ⟨a, b, v, value, hiff, hlines, rfl⟩ := clearLines_of_scroll hne h
      have hcleared := clearLines_cleared
          (t := { t with cursorX := 0, cursorY := y }) ih hpos hw hlines
      have hended := hcleared.ended
      rw [hframe.clearedBy] at hended
      refine ⟨(((Paints.of_calls hframe rfl).trans hcleared.paints).then_calls rfl rfl).congr
        fun p ↦ ?_, .intro _ fun r' hr' ↦ ?_⟩
      · rw [Set.mem_union, mem_nestedCells, clearedCells, Set.mem_ofPred_eq, hframe.clearedBy]
        refine (or_iff_right (Set.notMem_empty p)).trans
          (and_congr_right fun _ ↦ exists_congr fun r' ↦ ?_)
        have hrange : ClearedBy t r' t.cursorY ↔ a.toNat ≤ r'.toNat ∧ r'.toNat < b.toNat + 1 := by
          rw [hclears, hiff, Nat.lt_succ_iff]
        rw [hrange, and_comm (a := Relation.ReflTransGen _ _ _), and_assoc]
      · have hrange := (hiff r').mp ((hclears r').mp hr')
        exact hended r' hrange.1 (by omega)

/-- Rows are finitely many. -/
theorem exists_row_bound (F : BitVec 16 → ℕ) : ∃ M, ∀ r, F r ≤ M := by
  refine ⟨(Finset.range (2 ^ 16)).sup fun i ↦ F (BitVec.ofNat 16 i), fun r ↦ ?_⟩
  have hle := Finset.le_sup (f := fun i ↦ F (BitVec.ofNat 16 i)) (Finset.mem_range.mpr r.isLt)
  rwa [BitVec.ofNat_toNat, BitVec.setWidth_eq] at hle

/-- **The end of a row returns** where no chain of nested scrolls goes on for ever. -/
theorem moveRow_done_of_acc (hw : t.screenWidth.toNat ≤ 2 ^ 15)
    (hregion : t.scrollStartRow ≠ t.scrollEndRow) (hwrap : t.cursorWrap = true)
    (h : Acc (ClearedBy t) r) : ∃ F, ∀ f u, F ≤ f → Frame t u → u.cursorY = r →
      Done t (moveRow (putc f) 1 u) := by
  induction h with
  | intro r _ ih =>
    choose! F hF using ih
    obtain ⟨M, hM⟩ := exists_row_bound F
    refine ⟨M + 1, fun f u hf hu hy ↦ done_moveRow_one hu fun v hv ↦ ?_⟩
    obtain ⟨g, rfl⟩ : ∃ g, f = g + 1 := Nat.exists_eq_add_of_le' (by omega)
    rw [hy]
    refine done_scroll hv hregion (fun hpos ↦ ?_) fun hneg ↦ ?_
    · refine done_clearLines hv hw fun _ c u' hlo hhi hu' hy' ↦ ?_
      exact hF c ⟨hwrap, Or.inl ⟨hpos, hlo, hhi⟩⟩ g u' ((hM c).trans (by omega)) hu' hy'
    · refine done_clearLines hv hw fun _ c u' hlo hhi hu' hy' ↦ ?_
      exact hF c ⟨hwrap, Or.inr ⟨hneg, hlo, hhi⟩⟩ g u' ((hM c).trans (by omega)) hu' hy'

theorem clearLines_done_of_acc (hw : t.screenWidth.toNat ≤ 2 ^ 15)
    (hregion : t.scrollStartRow ≠ t.scrollEndRow) {a b : BitVec 16}
    (h : ∀ r : BitVec 16, a.toNat ≤ r.toNat → r.toNat ≤ b.toNat → Acc (ClearedBy t) r) :
    ∃ f, Done t (clearLines (putc f) a b t) := by
  by_cases hwrap : t.cursorWrap = true
  · have hrows : ∀ r : BitVec 16, ∃ F, a.toNat ≤ r.toNat → r.toNat ≤ b.toNat → ∀ f u, F ≤ f →
        Frame t u → u.cursorY = r → Done t (moveRow (putc f) 1 u) := by
      intro r
      by_cases hr : a.toNat ≤ r.toNat ∧ r.toNat ≤ b.toNat
      · obtain ⟨F, hF⟩ := moveRow_done_of_acc hw hregion hwrap (h r hr.1 hr.2)
        exact ⟨F, fun _ _ ↦ hF⟩
      · exact ⟨0, fun hlo hhi ↦ absurd ⟨hlo, hhi⟩ hr⟩
    choose F hF using hrows
    obtain ⟨M, hM⟩ := exists_row_bound F
    exact ⟨M + 1, done_clearLines (Frame.refl t) hw fun _ c u hlo hhi hu hy ↦
      hF c hlo hhi M u (hM c) hu hy⟩
  · exact ⟨1, done_clearLines (Frame.refl t) hw fun hon ↦ absurd hon hwrap⟩

theorem paints_rule (t : Vt100) (p : BitVec 16 × BitVec 16) :
    PrintRule (fun ch ↦ ch = ascii ' ') fun u ↦ ∃ S, Paints t S u ∧ p ∈ S where
  blank := rfl
  draw ch u hch hu := by
    obtain ⟨S, hpaints, hp⟩ := hu
    rw [hch, draw_blank]
    exact ⟨_, hpaints.trans (Paints.blanked u [u.cursor]), Or.inl hp⟩
  column u x _ hu _ := hu.imp fun S hS ↦ ⟨hS.1.then_calls (Frame.cursor u x u.cursorY) rfl, hS.2⟩
  home u hu := hu.imp fun S hS ↦ ⟨hS.1.then_calls (Frame.cursor u 0 u.cursorY) rfl, hS.2⟩
  row u y hu := hu.imp fun S hS ↦ ⟨hS.1.then_calls (Frame.cursor u u.cursorX y) rfl, hS.2⟩
  scrollValue _ _ hu := hu.imp fun S hS ↦ ⟨hS.1.then_calls rfl rfl, hS.2⟩

/-- Clearing lines paints the first cell of the first line, on any screen. -/
theorem clearLines_first {a b : BitVec 16} (hpos : 1 ≤ t.screenWidth.toNat)
    (hle : a.toNat ≤ b.toNat) (h : clearLines (putc f) a b t = .done u) :
    ∃ S, Paints t S u ∧ ((0, a) : BitVec 16 × BitVec 16) ∈ S := by
  have hrule := paints_rule t (0, a)
  have hkeeps := hrule.keeps f
  obtain ⟨n, hn⟩ : ∃ n, t.screenWidth.toNat = n + 1 := Nat.exists_eq_add_of_le' hpos
  obtain ⟨m, hm⟩ : ∃ m, b.toNat + 1 - a.toNat = m + 1 := Nat.exists_eq_add_of_le' (by omega)
  have hhome : ∃ S, Paints t S (({ t with cursorX := 0, cursorY := a } : Vt100).draw (ascii ' ')) ∧
      ((0, a) : BitVec 16 × BitVec 16) ∈ S := by
    rw [draw_blank]
    exact ⟨_, (Paints.of_calls (Frame.cursor t 0 a) rfl).trans (Paints.blanked _ _),
      Or.inr (List.mem_singleton.mpr rfl)⟩
  have hclear : (clearLines (putc f) a b t).Sat
      (fun u ↦ ∃ S, Paints t S u ∧ ((0, a) : BitVec 16 × BitVec 16) ∈ S) fun _ _ ↦ True := by
    refine Outcome.Sat.andThen ?_ fun v hv ↦ Outcome.sat_done (hrule.row _ a (hrule.home v hv))
    -- the first blank of the first row; what comes after it paints more
    rw [hm, Outcome.forRange, u16_toNat, hn, blanks_succ]
    refine Outcome.Sat.andThen (Outcome.Sat.andThen ?_ fun v hv ↦ (hrule.blanks hkeeps n hv).mono
      (fun _ hu ↦ hu) fun _ _ _ ↦ trivial) fun v hv ↦ (hrule.clearRows hkeeps _ m hv).mono
      (fun _ hu ↦ hu) fun _ _ _ ↦ trivial
    rcases f with _ | g
    · exact Outcome.sat_stuck trivial
    · exact (hrule.moveOne (hrule.keeps g) hhome).mono (fun _ hu ↦ hu) fun _ _ _ ↦ trivial
  exact hclear.of_done h

end LineEnd

end Vt100

end Martink
