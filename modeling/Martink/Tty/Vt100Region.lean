import Martink.Tty.Vt100Trail

/-!
# The scroll region

The region is set from two parameters of the input, each minus one in 16 bits, and kept until it is
set again; the scroll value is only written by a scroll, as a remainder by the height of the region.
The remainder is C's: scrolling down by more than the height and the value together makes it
negative, and setting a region does not touch it.

`regionOk_of_reached` is the invariant over the runs that meet `KeepsRegion`.
-/

namespace Martink

namespace Vt100

/-- The scroll region is well formed. -/
structure RegionOk (t : Vt100) : Prop where
  /-- It has a row. -/
  start_lt : t.scrollStartRow.toNat < t.scrollEndRow.toNat
  /-- It ends on the screen. -/
  end_le : t.scrollEndRow.toNat ≤ t.screenHeight.toNat
  /-- The scroll value is a row of it. -/
  value_lt : t.scrollValue.toNat < t.scrollEndRow.toNat - t.scrollStartRow.toNat

/-- The scrolls that moving to the rows `ys` makes. -/
def scrolls (start stop : BitVec 16) (ys : List (BitVec 16)) : List ℤ :=
  (ys.map (lines start stop)).filter (· ≠ 0)

/-- The scrolls `ns`, one after the other, from the scroll value `value` on, leave a good one: the
last is up, or down by at most the height of the region. Or the first clears no line and is down by
at most the height and the value together (or the two make a multiple of the height), and the others
do so from the value that it leaves. -/
inductive ScrollsKeep (start stop : BitVec 16) : ℤ → List ℤ → Prop
  | last {value : ℤ} {ns : List ℤ} : (∀ m ∈ ns.getLast?, start.toNat - m ≤ stop.toNat) →
      ScrollsKeep start stop value ns
  | down {value n : ℤ} {ns : List ℤ} : n < 0 → stop.toNat - n ≤ 65535 →
      (start.toNat - n ≤ stop.toNat + value ∨ (stop.toNat - start.toNat : ℤ) ∣ value + n) →
        ScrollsKeep start stop ((value + n) % (stop.toNat - start.toNat)) ns →
          ScrollsKeep start stop value (n :: ns)

theorem scrollsKeep_cons {start stop : BitVec 16} {value n : ℤ} {ns : List ℤ} :
    ScrollsKeep start stop value (n :: ns) ↔
      (∀ m ∈ (n :: ns).getLast?, start.toNat - m ≤ stop.toNat) ∨
        (n < 0 ∧ stop.toNat - n ≤ 65535 ∧
          (start.toNat - n ≤ stop.toNat + value ∨ (stop.toNat - start.toNat : ℤ) ∣ value + n)) ∧
          ScrollsKeep start stop ((value + n) % (stop.toNat - start.toNat)) ns := by
  constructor
  · rintro (hlast | ⟨hdown, hclear, hle, hrest⟩)
    · exact Or.inl hlast
    · exact Or.inr ⟨⟨hdown, hclear, hle⟩, hrest⟩
  · rintro (hlast | ⟨⟨hdown, hclear, hle⟩, hrest⟩)
    · exact .last hlast
    · exact .down hdown hclear hle hrest

/-- The region that `r` sets has its rows on the screen and is higher than the scroll value. -/
def SetsRegion (u : Vt100) : Prop :=
  u.narg = 2 → u.firstArg < u.secondArg →
    1 ≤ u.firstArg.toNat ∧ u.secondArg.toNat ≤ u.screenHeight.toNat + 1 ∧
      u.scrollValue.toNat < u.secondArg.toNat - u.firstArg.toNat

instance ScrollsKeep.decidable (start stop : BitVec 16) :
    ∀ value ns, Decidable (ScrollsKeep start stop value ns)
  | _, [] => .isTrue (.last nofun)
  | value, n :: ns =>
    have := ScrollsKeep.decidable start stop ((value + n) % (stop.toNat - start.toNat)) ns
    decidable_of_iff _ scrollsKeep_cons.symm

instance (u : Vt100) : Decidable (SetsRegion u) := inferInstanceAs (Decidable (_ → _))

def Action.SetsRegion : Action → Prop
  | .csi u k => k = .setScrollRegion → Vt100.SetsRegion u
  | .control .. | .esc .. | .parse => True

instance : DecidablePred Action.SetsRegion
  | .csi _ _ => inferInstanceAs (Decidable (_ → _))
  | .control .. | .esc .. | .parse => .isTrue trivial

/-- The byte does not scroll down by too much, and sets no region that does not fit. -/
def KeepsRegion (t : Vt100) (c : BitVec 8) : Prop :=
  ScrollsKeep t.scrollStartRow t.scrollEndRow t.scrollValue.toNat
      (scrolls t.scrollStartRow t.scrollEndRow (targets t c)) ∧
    (action t c).SetsRegion

instance (t : Vt100) (c : BitVec 8) : Decidable (KeepsRegion t c) :=
  inferInstanceAs (Decidable (_ ∧ _))

/-! ## One scroll -/

section Scroll

variable {putc : BitVec 8 → Vt100 → Vt100Run} {t : Vt100} {n : ℤ}

/-- A remainder of a number that is not negative is less than the height. -/
theorem setScrollValue_lt {scrollHeight : BitVec 16} {z : ℤ} (hz : 0 ≤ z) (t : Vt100) :
    (setScrollValue scrollHeight z t).Sat
      (fun t' ↦ t'.scrollValue.toNat < scrollHeight.toNat) fun _ _ ↦ True := by
  rw [setScrollValue]
  split_ifs with hzero
  · exact Outcome.sat_stuck trivial
  · have hpos : (0 : ℤ) < scrollHeight.toNat := by
      have : scrollHeight.toNat ≠ 0 := fun h ↦ hzero (BitVec.eq_of_toNat_eq h)
      omega
    have hlt := Int.tmod_lt_of_pos z hpos
    have hnonneg := Int.tmod_nonneg (scrollHeight.toNat : ℤ) hz
    have hvalue := toNat_u16_of_lt hnonneg (by omega)
    refine Outcome.sat_done ?_
    dsimp only
    omega

/-- A scroll up, or down by at most the height, leaves a scroll value below the height, whatever it
was before and whatever the scrolls in between do to it. -/
theorem scroll_value_of_le (hregion : t.scrollStartRow.toNat < t.scrollEndRow.toNat) (hn : n ≠ 0)
    (hle : t.scrollStartRow.toNat - n ≤ t.scrollEndRow.toNat) :
    (scroll putc n t).Sat (fun t' ↦ t'.scrollValue.toNat
      < t.scrollEndRow.toNat - t.scrollStartRow.toNat) fun _ _ ↦ True := by
  have hheight := toNat_u16_of_lt (z := t.scrollEndRow.toNat - t.scrollStartRow.toNat) (by omega)
    (by omega)
  have hnext : ∀ {a b : BitVec 16} {z : Vt100 → ℤ}, (∀ u, 0 ≤ z u) →
      ((clearLines putc a b t).andThen fun u ↦
        setScrollValue (u16 (t.scrollEndRow.toNat - t.scrollStartRow.toNat)) (z u) u).Sat
        (fun t' ↦ t'.scrollValue.toNat < t.scrollEndRow.toNat - t.scrollStartRow.toNat)
        fun _ _ ↦ True := by
    intro a b z hz
    refine (clearLines_cursor a b t).andThen fun u _ ↦ ?_
    exact (setScrollValue_lt (hz u) u).mono (fun t' h ↦ by omega) fun _ _ h ↦ h
  rw [scroll]
  split_ifs with hup hdown
  · exact hnext fun u ↦ by omega
  · exact hnext fun u ↦ by omega
  · omega

/-- A scroll down that clears no line may use up the scroll value. -/
theorem scroll_value_of_add_le
    (hregion : t.scrollStartRow.toNat < t.scrollEndRow.toNat) (hn : n < 0)
    (hclear : t.scrollEndRow.toNat - n ≤ 65535)
    (hle : t.scrollStartRow.toNat - n ≤ t.scrollEndRow.toNat + t.scrollValue.toNat ∨
      (t.scrollEndRow.toNat - t.scrollStartRow.toNat : ℤ) ∣ t.scrollValue.toNat + n) :
    (scroll putc n t).Sat (fun t' ↦ (t'.scrollValue.toNat : ℤ)
      = (t.scrollValue.toNat + n) % (t.scrollEndRow.toNat - t.scrollStartRow.toNat))
      fun _ _ ↦ True := by
  have hheight := toNat_u16_of_lt (z := t.scrollEndRow.toNat - t.scrollStartRow.toNat) (by omega)
    (by omega)
  rw [scroll_of_neg hn (by omega) hclear]
  generalize u16 (t.scrollEndRow.toNat - t.scrollStartRow.toNat) = height at hheight ⊢
  rw [← hheight] at hle ⊢
  have hrest : (height.toNat + t.scrollValue.toNat + n).tmod height.toNat
      = (t.scrollValue.toNat + n) % height.toNat := by
    rw [add_assoc, ← Int.add_emod_left]
    rcases hle with hle | hdvd
    · exact Int.tmod_eq_emod_of_nonneg (by omega)
    · have hdvd' := (Int.dvd_add_right (dvd_refl (height.toNat : ℤ))).mpr hdvd
      rw [Int.tmod_eq_zero_of_dvd hdvd', Int.emod_eq_zero_of_dvd hdvd']
  rw [setScrollValue]
  split_ifs with hzero
  · exact Outcome.sat_stuck trivial
  · have hlo := Int.emod_nonneg (t.scrollValue.toNat + n) (b := (height.toNat : ℤ)) (by omega)
    have hhi := Int.emod_lt_of_pos (t.scrollValue.toNat + n) (b := (height.toNat : ℤ)) (by omega)
    refine Outcome.sat_done ?_
    rw [hrest]
    exact toNat_u16_of_lt hlo (by omega)

end Scroll

/-! ## The trail -/

/-- While the rows `ys` are still to be aimed at: the region is the one from `start` to `stop`, and
the remaining scrolls, if any, leave a good scroll value. -/
structure ValueTrail (start stop : BitVec 16) (ys : List (BitVec 16)) (t : Vt100) : Prop where
  /-- The first row of the region. -/
  start_eq : t.scrollStartRow = start
  /-- The row behind it. -/
  stop_eq : t.scrollEndRow = stop
  /-- Without another scroll the value is a row of the region. -/
  value_lt : scrolls start stop ys = [] → t.scrollValue.toNat < stop.toNat - start.toNat
  /-- With others it will be. -/
  keep : ScrollsKeep start stop t.scrollValue.toNat (scrolls start stop ys)

section Trail

variable {start stop y : BitVec 16} {ys : List (BitVec 16)} {t t' : Vt100} {f : ℕ}

theorem scrolls_cons_zero (h : lines start stop y = 0) :
    scrolls start stop (y :: ys) = scrolls start stop ys := by
  simp [scrolls, h]

theorem scrolls_cons (h : lines start stop y ≠ 0) :
    scrolls start stop (y :: ys) = lines start stop y :: scrolls start stop ys := by
  simp [scrolls, h]

/-- One scroll on the trail. -/
theorem valueTrail_scroll (hregion : start.toNat < stop.toNat) (hlines : lines start stop y ≠ 0)
    (h : ValueTrail start stop (y :: ys) t) :
    (scroll (putc f) (lines start stop y) t).Sat (ValueTrail start stop ys) fun _ _ ↦ True := by
  obtain ⟨hstart, hstop, -, hkeep⟩ := h
  rw [scrolls_cons hlines] at hkeep
  generalize lines start stop y = n at hlines hkeep ⊢
  have hframe := frame_scroll (frame_putc f) n t
  subst hstart hstop
  rcases hkeep with hlast | ⟨hdown, hclear, hle, hrest⟩
  · by_cases hnil : scrolls t.scrollStartRow t.scrollEndRow ys = []
    · rw [hnil, List.getLast?_singleton] at hlast
      refine (hframe.and (scroll_value_of_le hregion hlines (hlast n rfl))).mono
        (fun t' h' ↦ ⟨h'.1.scrollStartRow, h'.1.scrollEndRow, fun _ ↦ h'.2, ?_⟩) fun _ _ _ ↦ trivial
      rw [hnil]
      exact .last nofun
    · rw [List.getLast?_cons_of_ne_nil hnil] at hlast
      exact hframe.mono (fun t' hframe ↦ ⟨hframe.scrollStartRow, hframe.scrollEndRow,
        fun hnil' ↦ absurd hnil' hnil, .last hlast⟩) fun _ _ _ ↦ trivial
  · refine (hframe.and (scroll_value_of_add_le hregion hdown hclear hle)).mono
      (fun t' h' ↦ ⟨h'.1.scrollStartRow, h'.1.scrollEndRow, fun _ ↦ ?_, ?_⟩) fun _ _ _ ↦ trivial
    · have hlt := Int.emod_lt_of_pos (t.scrollValue.toNat + n)
        (b := (t.scrollEndRow.toNat - t.scrollStartRow.toNat : ℤ)) (by omega)
      rw [← h'.2] at hlt
      omega
    · rw [h'.2]
      exact hrest

theorem valueTrail_congr (h : ValueTrail start stop ys t) (hregion : t'.region = t.region) :
    ValueTrail start stop ys t' := by
  simp only [region, Prod.mk.injEq] at hregion
  obtain ⟨-, hstart, hstop, hvalue⟩ := hregion
  refine ⟨hstart.trans h.start_eq, hstop.trans h.stop_eq, ?_, ?_⟩
  · rw [hvalue]
    exact h.value_lt
  · rw [hvalue]
    exact h.keep

theorem valueTrail_rule (hregion : start.toNat < stop.toNat) (fuel : ℕ) :
    TrailRule fuel (ValueTrail start stop) fun _ _ ↦ True where
  congr h heq _ := valueTrail_congr h heq
  row {f bottomTop y ys t} _ hrows hy h := by
    have hlines_eq : lines t.scrollStartRow t.scrollEndRow y = lines start stop y := by
      rw [h.start_eq, h.stop_eq]
    rw [moveRow_eq hrows, hy, hlines_eq]
    have hpark : ValueTrail start stop (y :: ys)
        { t with cursorY := parkRow t.scrollStartRow t.scrollEndRow y } := valueTrail_congr h rfl
    by_cases hlines : lines start stop y = 0
    · rw [hlines, scroll, if_neg (lt_irrefl 0), if_neg (lt_irrefl 0)]
      obtain ⟨hstart, hstop, hvalue, hkeep⟩ := hpark
      rw [scrolls_cons_zero hlines] at hvalue hkeep
      exact Outcome.sat_done ⟨hstart, hstop, hvalue, hkeep⟩
    · exact valueTrail_scroll hregion hlines hpark
  noFuel _ _ := trivial
  divZero _ _ := trivial

end Trail

/-! ## Runs -/

section Runs

variable {t u t' : Vt100} {c : BitVec 8} {w h : BitVec 16}

theorem regionOk_of_reset (hreset : RegionReset t) (hheight : 1 ≤ t.screenHeight.toNat) :
    RegionOk t := by
  obtain ⟨hstart, hstop, hvalue⟩ := hreset
  refine ⟨?_, le_of_eq (by rw [hstop]), ?_⟩
  · rw [hstart, hstop]
    exact hheight
  · rw [hstart, hstop, hvalue]
    exact hheight

theorem regionOk_setScrollRegion (hset : SetsRegion u) (hheight : 1 ≤ u.screenHeight.toNat) :
    RegionOk u.setScrollRegion := by
  rw [SetsRegion, firstArg, secondArg] at hset
  rw [setScrollRegion]
  split_ifs with hargs
  · obtain ⟨hpos, hle, hvalue⟩ := hset hargs.1 hargs.2
    have hlt := BitVec.lt_def.mp hargs.2
    have hstart := toNat_u16_of_lt (z := (u.args 0).toNat - 1) (by omega) (by omega)
    have hstop := toNat_u16_of_lt (z := (u.args 1).toNat - 1) (by omega) (by omega)
    constructor <;> dsimp only <;> omega
  · exact regionOk_of_reset ⟨rfl, rfl, rfl⟩ hheight

/-- **One byte.** -/
theorem regionOk_vt100Putc (hh : 1 ≤ h.toNat) (hwf : Wellformed w h t) (hok : RegionOk t)
    (hcond : KeepsRegion t c) (hreturns : Returns t c t') : RegionOk t' := by
  have hwf' := wellformed_of_returns hh hwf hreturns
  have hheight : t'.screenHeight = t.screenHeight := hwf'.screenHeight.trans hwf.screenHeight.symm
  have hpos : 1 ≤ t'.screenHeight.toNat := by
    rw [hwf'.screenHeight]
    exact hh
  obtain ⟨hkeep, hset⟩ := hcond
  obtain ⟨fuel, hdone⟩ := hreturns
  have htrail : ValueTrail t.scrollStartRow t.scrollEndRow (targets t c) t :=
    ⟨rfl, rfl, fun _ ↦ hok.value_lt, hkeep⟩
  rcases (trail_vt100Putc (valueTrail_rule hok.start_lt fuel) (fun _ _ ↦ trivial) htrail).of_done
    hdone with (hend | hreset) | ⟨u, haction, hsame, hregion⟩
  · have hvalue := hend.value_lt rfl
    refine ⟨?_, ?_, ?_⟩
    · rw [hend.start_eq, hend.stop_eq]
      exact hok.start_lt
    · rw [hend.stop_eq, hheight]
      exact hok.end_le
    · rw [hend.start_eq, hend.stop_eq]
      exact hvalue
  · exact regionOk_of_reset hreset hpos
  · rw [haction] at hset
    have huheight : u.setScrollRegion.screenHeight = t'.screenHeight := by
      have : u.setScrollRegion.screenHeight = u.screenHeight := by
        rw [setScrollRegion]
        split_ifs <;> rfl
      rw [this, hsame.screenHeight, hheight]
    have huok : RegionOk u.setScrollRegion := by
      refine regionOk_setScrollRegion (hset rfl) ?_
      rw [hsame.screenHeight, ← hheight]
      exact hpos
    simp only [region, Prod.mk.injEq] at hregion
    obtain ⟨-, hstart, hstop, hvalue⟩ := hregion
    refine ⟨?_, ?_, ?_⟩
    · rw [hstart, hstop]
      exact huok.start_lt
    · rw [hstop, ← huheight]
      exact huok.end_le
    · rw [hstart, hstop, hvalue]
      exact huok.value_lt

end Runs

end Vt100

open Vt100

/-- **The scroll region in every run** whose bytes set regions on the screen and do not scroll down
by too much. -/
theorem regionOk_of_reached {self t : Vt100} {display : TtyDevice}
    (hheight : 1 ≤ display.height.toNat)
    (hrun : Reached Returns KeepsRegion (vt100Init self display) t) : RegionOk t := by
  have hinv : Wellformed display.width display.height t ∧ RegionOk t := by
    refine hrun.invariant (I := fun t ↦ Wellformed display.width display.height t ∧ RegionOk t)
      ⟨wellformed_init self hheight, ?_⟩ fun t c t' h hcond hreturns ↦ ?_
    · exact regionOk_of_reset ⟨rfl, rfl, rfl⟩ hheight
    · exact ⟨wellformed_of_returns hheight h.1 hreturns,
        regionOk_vt100Putc hheight h.1 h.2 hcond hreturns⟩
  exact hinv.2

/-- `ESC [ 2;5r` sets the rows 1, 2 and 3. -/
theorem regionOk_of_reached_margins : ∃ t, Reached Returns KeepsRegion (freshTerminal 80 24) t ∧
    t.scrollStartRow = 1 ∧ t.scrollEndRow = 4 ∧ RegionOk t := by
  have hmeets : Meets KeepsRegion 0 (freshTerminal 80 24)
      [0x1b, ascii '[', ascii '2', ascii ';', ascii '5', ascii 'r'] := by
    decide +kernel
  have hrun : ∃ t, Reached Returns KeepsRegion (freshTerminal 80 24) t ∧
      t.scrollStartRow = 1 ∧ t.scrollEndRow = 4 :=
    ⟨_, reached_of_meets 0 _ .start hmeets, by decide +kernel, by decide +kernel⟩
  obtain ⟨t, hrun, hstart, hstop⟩ := hrun
  exact ⟨t, hrun, hstart, hstop, regionOk_of_reached (by decide) hrun⟩

/-- `ESC [ 0;1r` sets a region that starts in row 65535 and ends before row 0. -/
theorem not_regionOk_margins :
    ∃ t, Path Returns (freshTerminal 80 24)
      [0x1b, ascii '[', ascii '0', ascii ';', ascii '1', ascii 'r'] t ∧ ¬RegionOk t := by
  refine ⟨_, .cons ⟨0, rfl⟩ (.cons ⟨0, rfl⟩ (.cons ⟨0, rfl⟩ (.cons ⟨0, rfl⟩ (.cons ⟨0, rfl⟩
    (.cons ⟨0, rfl⟩ (.nil _)))))), fun hok ↦ ?_⟩
  exact absurd hok.start_lt (by decide)

end Martink
