import Martink.Tty.Vt100Action
import Martink.Tty.Vt100Parse

/-!
# Moving and placing the cursor

`CSI n A`, `B`, `C` and `D` move the cursor by `n` cells and stop at the margins. Up and to the left
they do (`Nat.sub`); down and to the right the coordinate is cut at the size itself, one behind the
last row or column, so that only the moves that stay on the screen come out right.

`CSI r;c H` and `f` place the cursor, counted from 1. The column is cut at the width in the same
way. It is the second parameter also if there is only one, and a parameter of 0 is 65535 after the
subtraction.
-/

namespace Martink

namespace Vt100

/-- The command returns, with the cursor in column `x` of row `y`, and draws nothing. -/
def GoesTo (t : Vt100) (str : List (BitVec 8)) (x y : ℕ) : Prop :=
  ∀ fuel, ∃ t', vt100Puts fuel t str = .done t' ∧ t'.cursorX.toNat = x ∧ t'.cursorY.toNat = y ∧
    t'.display = t.display

section Commands

variable {t u : Vt100} {ds : List (List (BitVec 8))} {c : BitVec 8} {x y : ℕ}

theorem Parses.sameScreen (h : Parses t u) : SameScreen t u := by
  obtain ⟨state, retState, narg, args, rfl⟩ := h
  rfl

/-- Commands that only move the cursor. -/
theorem goesTo_iff {f : Vt100 → Vt100} {str : List (BitVec 8)}
    (hrun : ∀ fuel, vt100Puts fuel t str = (Outcome.done (f u)).andThen (goto .idle))
    (hdisplay : (f u).display = t.display) :
    GoesTo t str x y ↔ (f u).cursorX.toNat = x ∧ (f u).cursorY.toNat = y := by
  constructor
  · intro h
    obtain ⟨t', hdone, hx, hy, -⟩ := h 0
    rw [hrun] at hdone
    cases hdone
    exact ⟨hx, hy⟩
  · rintro ⟨hx, hy⟩ fuel
    exact ⟨{ f u with state := .idle }, hrun fuel, hx, hy, hdisplay⟩

/-- The count of a command: the first parameter, or 1. -/
def argCount (ds : List (List (BitVec 8))) : ℕ := (params ds).headD 1

theorem count_eq (hnarg : u.narg.toNat = ds.length)
    (hargs : ∀ i : Fin 4, (u.args i).toNat = (params ds).getD i 0) : u.count = argCount ds := by
  have hpos : 0 < u.narg ↔ 0 < ds.length := by rw [BitVec.lt_def, ← hnarg]; rfl
  rw [count, argCount, if_congr hpos rfl rfl, hargs]
  cases ds with
  | nil => rfl
  | cons d ds => rfl

theorem argCount_lt (ds : List (List (BitVec 8))) : argCount ds < 2 ^ 16 := by
  cases ds with
  | nil => exact Nat.one_lt_two_pow (by decide)
  | cons d ds => exact Nat.mod_lt _ (by decide)

/-- Up or to the left, cut at 0. -/
theorem toNat_back (z : BitVec 16) (n : ℕ) :
    (if z.toNat < n then 0 else u16 (z.toNat - n)).toNat = z.toNat - n := by
  split_ifs with hlt
  · exact (Nat.sub_eq_zero_of_le hlt.le).symm
  · have hrow := toNat_u16_of_lt (z := z.toNat - n) (by omega) (by omega)
    omega

/-- Down or to the right: the last row or column is found only without a cut. -/
theorem toNat_forth_iff {z size : BitVec 16} {n : ℕ} (hz : z.toNat < size.toNat) (hn : n < 2 ^ 16) :
    (if u16 (z.toNat + n) > size then size else u16 (z.toNat + n)).toNat
        = min (z.toNat + n) (size.toNat - 1) ↔ z.toNat + n < size.toNat := by
  have hsum := toNat_u16 (z.toNat + n)
  have hsize := size.isLt
  have hgt : u16 (z.toNat + n) > size ↔ size.toNat < (u16 (z.toNat + n)).toNat := BitVec.lt_def
  rw [if_congr hgt rfl rfl]
  split_ifs with hcut <;> omega

/-- A command with a count is executed on the terminal as it was, but for the parser. -/
theorem vt100Puts_count (hidle : t.state = .idle) (hfit : ds.length ≤ 4)
    (hdigits : ∀ d ∈ ds, d ≠ [] ∧ ∀ c ∈ d, isdigit c)
    (hfinal : ¬isdigit c ∧ c ≠ ascii ';' ∧ c ≠ ascii '?') :
    ∃ u, SameScreen t u ∧ u.count = argCount ds ∧ ∀ fuel, vt100Puts fuel t (csiHead ds ++ [c])
      = (u.csiBody fuel (Csi.ofChar c)).andThen (goto .idle) := by
  obtain ⟨u, hparses, hnarg, hargs, hrun⟩ := vt100Puts_command hidle hfit hdigits hfinal
  exact ⟨u, hparses.sameScreen, count_eq hnarg hargs, hrun⟩

theorem goesTo_up (hidle : t.state = .idle) (hfit : ds.length ≤ 4)
    (hdigits : ∀ d ∈ ds, d ≠ [] ∧ ∀ c ∈ d, isdigit c) :
    GoesTo t (csiHead ds ++ [ascii 'A']) t.cursorX.toNat (t.cursorY.toNat - argCount ds) := by
  obtain ⟨u, hsame, hcount, hrun⟩ := vt100Puts_count (c := ascii 'A') hidle hfit hdigits (by decide)
  refine (goesTo_iff (f := moveUp) hrun hsame.display).mpr ⟨?_, ?_⟩
  · exact congrArg BitVec.toNat hsame.cursorX
  · rw [moveUp, hcount, ← hsame.cursorY]
    exact toNat_back u.cursorY _

theorem goesTo_left (hidle : t.state = .idle) (hfit : ds.length ≤ 4)
    (hdigits : ∀ d ∈ ds, d ≠ [] ∧ ∀ c ∈ d, isdigit c) :
    GoesTo t (csiHead ds ++ [ascii 'D']) (t.cursorX.toNat - argCount ds) t.cursorY.toNat := by
  obtain ⟨u, hsame, hcount, hrun⟩ := vt100Puts_count (c := ascii 'D') hidle hfit hdigits (by decide)
  refine (goesTo_iff (f := moveLeft) hrun hsame.display).mpr ⟨?_, ?_⟩
  · rw [moveLeft, hcount, ← hsame.cursorX]
    exact toNat_back u.cursorX _
  · exact congrArg BitVec.toNat hsame.cursorY

theorem goesTo_down_iff (hidle : t.state = .idle) (hy : t.cursorY.toNat < t.screenHeight.toNat)
    (hfit : ds.length ≤ 4) (hdigits : ∀ d ∈ ds, d ≠ [] ∧ ∀ c ∈ d, isdigit c) :
    GoesTo t (csiHead ds ++ [ascii 'B']) t.cursorX.toNat
        (min (t.cursorY.toNat + argCount ds) (t.screenHeight.toNat - 1)) ↔
      t.cursorY.toNat + argCount ds < t.screenHeight.toNat := by
  obtain ⟨u, hsame, hcount, hrun⟩ := vt100Puts_count (c := ascii 'B') hidle hfit hdigits (by decide)
  rw [goesTo_iff (f := moveDown) hrun hsame.display, moveDown, hcount, hsame.screenHeight,
    hsame.cursorY, ← toNat_forth_iff hy (argCount_lt ds)]
  exact and_iff_right (congrArg BitVec.toNat hsame.cursorX)

theorem goesTo_right_iff (hidle : t.state = .idle) (hx : t.cursorX.toNat < t.screenWidth.toNat)
    (hfit : ds.length ≤ 4) (hdigits : ∀ d ∈ ds, d ≠ [] ∧ ∀ c ∈ d, isdigit c) :
    GoesTo t (csiHead ds ++ [ascii 'C'])
        (min (t.cursorX.toNat + argCount ds) (t.screenWidth.toNat - 1)) t.cursorY.toNat ↔
      t.cursorX.toNat + argCount ds < t.screenWidth.toNat := by
  obtain ⟨u, hsame, hcount, hrun⟩ := vt100Puts_count (c := ascii 'C') hidle hfit hdigits (by decide)
  rw [goesTo_iff (f := moveRight) hrun hsame.display, moveRight, hcount, hsame.screenWidth,
    hsame.cursorX, ← toNat_forth_iff hx (argCount_lt ds)]
  exact and_iff_left (congrArg BitVec.toNat hsame.cursorY)

/-- **The cursor keys.** Up and to the left the cursor stops at the margin, for every count; down
and to the right exactly if it need not stop. -/
theorem cursorKeys_iff (hidle : t.state = .idle) (hx : t.cursorX.toNat < t.screenWidth.toNat)
    (hy : t.cursorY.toNat < t.screenHeight.toNat) (hfit : ds.length ≤ 4)
    (hdigits : ∀ d ∈ ds, d ≠ [] ∧ ∀ c ∈ d, isdigit c) :
    let n := argCount ds
    GoesTo t (csiHead ds ++ [ascii 'A']) t.cursorX.toNat (t.cursorY.toNat - n) ∧
    GoesTo t (csiHead ds ++ [ascii 'D']) (t.cursorX.toNat - n) t.cursorY.toNat ∧
    (GoesTo t (csiHead ds ++ [ascii 'B']) t.cursorX.toNat
        (min (t.cursorY.toNat + n) (t.screenHeight.toNat - 1)) ↔
      t.cursorY.toNat + n < t.screenHeight.toNat) ∧
    (GoesTo t (csiHead ds ++ [ascii 'C'])
        (min (t.cursorX.toNat + n) (t.screenWidth.toNat - 1)) t.cursorY.toNat ↔
      t.cursorX.toNat + n < t.screenWidth.toNat) :=
  ⟨goesTo_up hidle hfit hdigits, goesTo_left hidle hfit hdigits,
    goesTo_down_iff hidle hy hfit hdigits, goesTo_right_iff hidle hx hfit hdigits⟩

/-- `ESC [ 5 B` on a fresh terminal. -/
theorem cursorKeys_iff_five :
    GoesTo (freshTerminal 80 24) (csiHead [[53]] ++ [ascii 'B']) 0 5 ∧
      GoesTo (freshTerminal 80 24) (csiHead [[53]] ++ [ascii 'A']) 0 0 := by
  obtain ⟨hup, -, hdown, -⟩ :
      GoesTo (freshTerminal 80 24) (csiHead [[53]] ++ [ascii 'A']) 0 0 ∧ _ ∧ (_ ↔ _) ∧ _ :=
    cursorKeys_iff rfl (by decide) (by decide) (by decide) (by decide)
  exact ⟨hdown.mpr (by decide), hup⟩

/-- `ESC [ 24 B` does not stop in the last of 24 rows. -/
theorem not_goesTo_last_row :
    ¬GoesTo (freshTerminal 80 24) (csiHead [[50, 52]] ++ [ascii 'B']) 0
      (min (0 + 24) (24 - 1)) := by
  intro h
  have hfit : 0 + 24 < 24 :=
    (goesTo_down_iff (t := freshTerminal 80 24) rfl (by decide) (by decide) (by decide)).mp h
  exact absurd hfit (by decide)

/-! ## Placing the cursor -/

/-- A parameter of `H` and `f`: 1 if it is missing or 0. -/
def ordinal (ds : List (List (BitVec 8))) (i : ℕ) : ℕ := max 1 ((params ds).getD i 0)

/-- The row that `CSI r;c H` is meant to place the cursor in. -/
def placeRow (t : Vt100) (r : ℕ) : ℕ :=
  if t.originMode then min (t.scrollStartRow.toNat + r - 1) (t.scrollEndRow.toNat - 1)
  else min r t.screenHeight.toNat - 1

/-- The parameters that place it there: none, or two. The column is on the screen. So is the row; in
origin mode it may be anywhere below the region's start that fits 16 bits, and if the region is the
first row, 0 as well. -/
def PlaceFits (t : Vt100) (ps : List ℕ) : Prop :=
  ps = [] ∨ ∃ r c, ps = [r, c] ∧ (1 ≤ c ∧ c ≤ t.screenWidth.toNat) ∧
    if t.originMode then 1 ≤ r ∧ t.scrollStartRow.toNat + r ≤ 65536 ∨
      r = 0 ∧ t.scrollStartRow.toNat = 0 ∧ t.scrollEndRow.toNat = 1
    else 1 ≤ r ∧ r ≤ t.screenHeight.toNat

/-- The column of `H` and `f` with two parameters. -/
theorem toNat_column_iff {w p : BitVec 16} (hw : 1 ≤ w.toNat) :
    (if u16 (p.toNat - 1) > w then w else u16 (p.toNat - 1)).toNat
      = min (max 1 p.toNat) w.toNat - 1 ↔
      1 ≤ p.toNat ∧ p.toNat ≤ w.toNat := by
  have hsub := toNat_u16 (p.toNat - 1)
  have hgt : u16 (p.toNat - 1) > w ↔ w.toNat < (u16 (p.toNat - 1)).toNat := BitVec.lt_def
  have hp := p.isLt
  have hw' := w.isLt
  rw [if_congr hgt rfl rfl]
  split_ifs with hcut <;> omega

/-- The row in origin mode. -/
theorem toNat_originRow_iff {start stop h p : BitVec 16}
    (hregion : start.toNat < stop.toNat ∧ stop.toNat ≤ h.toNat) :
    let y := u16 ((u16 (p.toNat - 1)).toNat + start.toNat)
    let row := if y ≥ stop then u16 (stop.toNat - 1) else y
    (if row > h then h else row).toNat = min (start.toNat + max 1 p.toNat - 1) (stop.toNat - 1) ↔
      1 ≤ p.toNat ∧ start.toNat + p.toNat ≤ 65536 ∨
        p.toNat = 0 ∧ start.toNat = 0 ∧ stop.toNat = 1 := by
  intro y row
  have hsub := toNat_u16 (p.toNat - 1)
  have hsum : (y.toNat : ℤ) = _ := toNat_u16 ((u16 (p.toNat - 1)).toNat + start.toNat)
  have hlast := toNat_u16_of_lt (z := stop.toNat - 1) (by omega) (by omega)
  have hge : y ≥ stop ↔ stop.toNat ≤ y.toNat := BitVec.le_def
  have hrow : row.toNat = if stop.toNat ≤ y.toNat then stop.toNat - 1 else y.toNat := by
    have hite : row = if stop.toNat ≤ y.toNat then u16 (stop.toNat - 1) else y :=
      if_congr hge rfl rfl
    rw [hite]
    split_ifs
    · omega
    · rfl
  have hgt : row > h ↔ h.toNat < row.toNat := BitVec.lt_def
  have hp := p.isLt
  have hstart := start.isLt
  -- the region is on the screen, so that the clamp to the screen does nothing
  rw [if_congr hgt rfl rfl]
  split_ifs at hrow with hbelow
  · rw [if_neg (by omega), hrow]
    omega
  · rw [if_neg (by omega), hrow]
    omega

/-- Without parameters the cursor goes home. -/
theorem moveCursor_nil (hw : 1 ≤ u.screenWidth.toNat)
    (hregion : u.scrollStartRow.toNat < u.scrollEndRow.toNat ∧
      u.scrollEndRow.toNat ≤ u.screenHeight.toNat) (hnarg : u.narg = 0) :
    u.moveCursor.cursorX.toNat = min 1 u.screenWidth.toNat - 1 ∧
      u.moveCursor.cursorY.toNat = u.placeRow 1 := by
  have hcolumn : u.moveCursor.cursorX = if 0 > u.screenWidth then u.screenWidth else 0 := by
    rw [moveCursor, hnarg]
    rfl
  have hrow : u.moveCursor.cursorY
      = if u.targetRow > u.screenHeight then u.screenHeight else u.targetRow := rfl
  -- without parameters the origin mode is the only thing that moves the cursor from home
  have htarget : u.targetRow = if u.originMode then u.scrollStartRow else 0 := by
    have habove : ¬u.scrollStartRow ≥ u.scrollEndRow :=
      fun hge ↦ absurd (BitVec.le_def.mp hge) (by omega)
    have hstart : u16 ((0 : BitVec 16).toNat + u.scrollStartRow.toNat) = u.scrollStartRow := by
      have hsum : ((0 : BitVec 16).toNat : ℤ) + u.scrollStartRow.toNat = u.scrollStartRow.toNat :=
        zero_add _
      rw [hsum, u16_toNat]
    have hnone : u.targetRow = if u.originMode then
        (if u16 ((0 : BitVec 16).toNat + u.scrollStartRow.toNat) ≥ u.scrollEndRow then
          u16 (u.scrollEndRow.toNat - 1) else u16 ((0 : BitVec 16).toNat + u.scrollStartRow.toNat))
        else 0 := by
      rw [targetRow, hnarg]
      rfl
    rw [hnone, hstart, if_neg habove]
  have hhome : u.targetRow.toNat = u.placeRow 1 := by
    rw [htarget, placeRow]
    split_ifs
    · omega
    · change 0 = _
      omega
  have hfits : u.placeRow 1 < u.screenHeight.toNat := by
    rw [placeRow]
    split_ifs <;> omega
  constructor
  · rw [hcolumn, if_neg (fun hlt ↦ absurd (BitVec.lt_def.mp hlt) (Nat.not_lt_zero _))]
    change 0 = _
    omega
  · rw [hrow, if_neg (fun hlt ↦ absurd (BitVec.lt_def.mp hlt) (by omega)), hhome]

/-- With one parameter the column is the one behind the last. -/
theorem moveCursor_one (hw : 1 ≤ u.screenWidth.toNat) (hnarg : u.narg = 1) (hargs : u.args 1 = 0) :
    u.moveCursor.cursorX.toNat ≠ min 1 u.screenWidth.toNat - 1 := by
  have hcolumn : u.moveCursor.cursorX
      = if (65535 : BitVec 16) > u.screenWidth then u.screenWidth else 65535 := by
    rw [moveCursor, hnarg, hargs]
    rfl
  have hgt : (65535 : BitVec 16) > u.screenWidth ↔ u.screenWidth.toNat < 65535 := BitVec.lt_def
  have hmax : (65535 : BitVec 16).toNat = 65535 := rfl
  rw [hcolumn, if_congr hgt rfl rfl]
  split_ifs <;> omega

/-- With two parameters. -/
theorem moveCursor_two_iff (hw : 1 ≤ u.screenWidth.toNat)
    (hregion : u.scrollStartRow.toNat < u.scrollEndRow.toNat ∧
      u.scrollEndRow.toNat ≤ u.screenHeight.toNat) (hnarg : u.narg = 2) :
    u.moveCursor.cursorX.toNat = min (max 1 (u.args 1).toNat) u.screenWidth.toNat - 1 ∧
        u.moveCursor.cursorY.toNat = u.placeRow (max 1 (u.args 0).toNat) ↔
      (1 ≤ (u.args 1).toNat ∧ (u.args 1).toNat ≤ u.screenWidth.toNat) ∧
        if u.originMode then 1 ≤ (u.args 0).toNat ∧
          u.scrollStartRow.toNat + (u.args 0).toNat ≤ 65536 ∨
          (u.args 0).toNat = 0 ∧ u.scrollStartRow.toNat = 0 ∧ u.scrollEndRow.toNat = 1
        else 1 ≤ (u.args 0).toNat ∧ (u.args 0).toNat ≤ u.screenHeight.toNat := by
  have hcolumn : u.moveCursor.cursorX = if u16 ((u.args 1).toNat - 1) > u.screenWidth then
      u.screenWidth else u16 ((u.args 1).toNat - 1) := by
    rw [moveCursor, hnarg]
    rfl
  have hrow : u.moveCursor.cursorY
      = if u.targetRow > u.screenHeight then u.screenHeight else u.targetRow := rfl
  rw [hcolumn, hrow, targetRow, hnarg, placeRow]
  refine and_congr (toNat_column_iff hw) ?_
  by_cases horigin : u.originMode = true
  · rw [if_pos rfl, if_pos horigin, if_pos horigin, if_pos horigin]
    exact toNat_originRow_iff hregion
  · rw [if_pos rfl, if_neg horigin, if_neg horigin, if_neg horigin]
    exact toNat_column_iff (by omega)

/-- The cursor of `H` and `f` is right exactly for the parameters that fit. -/
theorem moveCursor_iff {ps : List ℕ} (hw : 1 ≤ u.screenWidth.toNat)
    (hregion : u.scrollStartRow.toNat < u.scrollEndRow.toNat ∧
      u.scrollEndRow.toNat ≤ u.screenHeight.toNat)
    (hlen : ps.length ≤ 2) (hnarg : u.narg.toNat = ps.length)
    (hargs : ∀ i : Fin 4, (u.args i).toNat = ps.getD i 0) :
    u.moveCursor.cursorX.toNat = min (max 1 (ps.getD 1 0)) u.screenWidth.toNat - 1 ∧
      u.moveCursor.cursorY.toNat = u.placeRow (max 1 (ps.getD 0 0)) ↔ PlaceFits u ps := by
  match ps, hlen with
  | [], _ =>
    exact iff_of_true (moveCursor_nil hw hregion (BitVec.eq_of_toNat_eq hnarg)) (Or.inl rfl)
  | [r], _ =>
    have hsecond : u.args 1 = 0 := BitVec.eq_of_toNat_eq (hargs 1)
    refine iff_of_false (fun h ↦ moveCursor_one hw (BitVec.eq_of_toNat_eq hnarg) hsecond h.1) ?_
    rintro (hnil | ⟨r', c, hlist, -⟩)
    · cases hnil
    · cases hlist
  | [r, c], _ =>
    obtain rfl : (u.args 0).toNat = r := hargs 0
    obtain rfl : (u.args 1).toNat = c := hargs 1
    refine (moveCursor_two_iff hw hregion (BitVec.eq_of_toNat_eq hnarg)).trans ?_
    simp [PlaceFits]

/-- The command places the cursor. -/
def Places (t : Vt100) (ds : List (List (BitVec 8))) (c : BitVec 8) : Prop :=
  GoesTo t (csiHead ds ++ [c]) (min (ordinal ds 1) t.screenWidth.toNat - 1)
    (t.placeRow (ordinal ds 0))

theorem place_run (hidle : t.state = .idle) (hlen : ds.length ≤ 2)
    (hdigits : ∀ d ∈ ds, d ≠ [] ∧ ∀ c ∈ d, isdigit c) (hc : c = ascii 'H' ∨ c = ascii 'f') :
    ∃ u, Parses t u ∧ u.narg.toNat = ds.length ∧
      (∀ i : Fin 4, (u.args i).toNat = (params ds).getD i 0) ∧
      ∀ fuel, vt100Puts fuel t (csiHead ds ++ [c])
        = (Outcome.done u.moveCursor).andThen (goto .idle) := by
  have hfinal : (¬isdigit c ∧ c ≠ ascii ';' ∧ c ≠ ascii '?') ∧ Csi.ofChar c = .moveCursor := by
    rcases hc with rfl | rfl <;> decide
  obtain ⟨u, hparses, hnarg, hargs, hrun⟩ := vt100Puts_command hidle (by omega) hdigits hfinal.1
  rw [hfinal.2] at hrun
  exact ⟨u, hparses, hnarg, hargs, hrun⟩

theorem places_iff_fits (hidle : t.state = .idle) (hw : 1 ≤ t.screenWidth.toNat)
    (hregion : t.scrollStartRow.toNat < t.scrollEndRow.toNat ∧
      t.scrollEndRow.toNat ≤ t.screenHeight.toNat)
    (hlen : ds.length ≤ 2) (hdigits : ∀ d ∈ ds, d ≠ [] ∧ ∀ c ∈ d, isdigit c)
    (hc : c = ascii 'H' ∨ c = ascii 'f') : Places t ds c ↔ PlaceFits t (params ds) := by
  obtain ⟨u, ⟨state, retState, narg, args, rfl⟩, hnarg, hargs, hrun⟩ :=
    place_run hidle hlen hdigits hc
  rw [Places, goesTo_iff (f := moveCursor) hrun rfl]
  exact moveCursor_iff hw hregion (by simpa [params] using hlen)
    (by simpa [params] using hnarg) hargs

theorem place_draws_nothing (hidle : t.state = .idle) (hlen : ds.length ≤ 2)
    (hdigits : ∀ d ∈ ds, d ≠ [] ∧ ∀ c ∈ d, isdigit c) (hc : c = ascii 'H' ∨ c = ascii 'f')
    (fuel : ℕ) :
    ∃ t', vt100Puts fuel t (csiHead ds ++ [c]) = .done t' ∧ t'.display = t.display := by
  obtain ⟨u, hparses, -, -, hrun⟩ := place_run hidle hlen hdigits hc
  exact ⟨_, hrun fuel, hparses.sameScreen.display⟩

/-- **Placing the cursor.** `CSI r;c H` and `f` draw nothing and place the cursor exactly for the
parameters that fit. -/
theorem places_iff (hidle : t.state = .idle) (hw : 1 ≤ t.screenWidth.toNat)
    (hregion : t.scrollStartRow.toNat < t.scrollEndRow.toNat ∧
      t.scrollEndRow.toNat ≤ t.screenHeight.toNat)
    (hlen : ds.length ≤ 2) (hdigits : ∀ d ∈ ds, d ≠ [] ∧ ∀ c ∈ d, isdigit c)
    (hc : c = ascii 'H' ∨ c = ascii 'f') :
    (∀ fuel, ∃ t', vt100Puts fuel t (csiHead ds ++ [c]) = .done t' ∧ t'.display = t.display) ∧
      (Places t ds c ↔ PlaceFits t (params ds)) :=
  ⟨place_draws_nothing hidle hlen hdigits hc, places_iff_fits hidle hw hregion hlen hdigits hc⟩

/-- `ESC [ 3;7 H` on a fresh terminal. -/
theorem places_iff_third_row : Places (freshTerminal 80 24) [[51], [55]] (ascii 'H') :=
  (places_iff (t := freshTerminal 80 24) rfl (by decide) (by decide) (by decide) (by decide)
    (Or.inl rfl)).2.mpr (Or.inr ⟨3, 7, by decide, by decide, by decide⟩)

/-- `ESC [ 5 H` is meant to go to the first column. -/
theorem not_places_one : ¬Places (freshTerminal 80 24) [[53]] (ascii 'H') := by
  rw [places_iff_fits rfl (by decide) (by decide) (by decide) (by decide) (Or.inl rfl)]
  rintro (hnil | ⟨r, c, hlist, -⟩)
  · cases hnil
  · cases hlist

end Commands

end Vt100

end Martink
