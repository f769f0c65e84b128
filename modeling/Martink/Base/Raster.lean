import Mathlib.Data.BitVec
import Mathlib.Tactic
import Martink.Base.Outcome

/-!
# Plotting loops

Code that draws calls a procedure `plot` for one point after another. `Plots draw pts` says what
such code amounts to: with enough fuel it returns, having called `plot` for the points of the list
`pts` in order, whatever `plot` does.

`forUpto` is the counting loop up to an inclusive bound, with a signed counter as wide as the bound.
It runs through `span lo hi` unless `hi` is the greatest value of the type, and then never ends.

`lineLoop` is the line algorithm that moves one point at a time and decides by an error term, for
the coordinates of any type that `Coordinate` describes. `lineLoop_plots` says that it ends at the
end point, and `isLine_linePoints` what it plots on the way.

`rowMajor` is a rectangle, row by row.
-/

namespace Martink

/-- `draw` returns if it has fuel enough, and does then what plotting the points of `pts` does. -/
def Plots {κ : Type} (draw : ∀ τ : Type, (τ → κ → κ → Option τ) → ℕ → τ → Option τ)
    (pts : List (κ × κ)) : Prop :=
  ∃ n, ∀ fuel, n ≤ fuel → ∀ (τ : Type) (plot : τ → κ → κ → Option τ) (t : τ),
    draw τ plot fuel t = pts.foldlM (fun t p ↦ plot t p.1 p.2) t

/-- Code that never returns plots no list of points. -/
theorem Plots.exists_ne_none {κ : Type}
    {draw : ∀ τ : Type, (τ → κ → κ → Option τ) → ℕ → τ → Option τ} {pts : List (κ × κ)}
    (h : Plots draw pts) : ∃ fuel, draw Unit (fun _ _ _ ↦ some ()) fuel () ≠ none := by
  obtain ⟨n, hn⟩ := h
  refine ⟨n, ?_⟩
  rw [hn n le_rfl]
  clear hn
  induction pts with
  | nil => exact Option.some_ne_none _
  | cons p pts ih => exact ih

/-! ## Rectangles -/

/-- The points of a rectangle of `w` by `h`, row by row. -/
def rowMajor (x y w h : ℕ) : List (ℕ × ℕ) :=
  (List.range (w * h)).map fun i ↦ (x + i % w, y + i / w)

theorem mem_rowMajor {x y w h : ℕ} {p : ℕ × ℕ} :
    p ∈ rowMajor x y w h ↔ (x ≤ p.1 ∧ p.1 < x + w) ∧ y ≤ p.2 ∧ p.2 < y + h := by
  rw [rowMajor, List.mem_map]
  constructor
  · rintro ⟨i, hi, rfl⟩
    rw [List.mem_range] at hi
    have hw : 0 < w := Nat.pos_of_mul_pos_right (Nat.zero_lt_of_lt hi)
    exact ⟨⟨Nat.le_add_right _ _, Nat.add_lt_add_left (Nat.mod_lt _ hw) _⟩,
      Nat.le_add_right _ _, Nat.add_lt_add_left (Nat.div_lt_of_lt_mul hi) _⟩
  · rintro ⟨⟨hx, hxlt⟩, hy, hylt⟩
    have hcol : p.1 - x < w := by omega
    have hrow : p.2 - y + 1 ≤ h := by omega
    refine ⟨p.1 - x + w * (p.2 - y), List.mem_range.mpr ?_, ?_⟩
    · calc p.1 - x + w * (p.2 - y) < w * (p.2 - y + 1) := by rw [Nat.mul_add_one]; omega
        _ ≤ w * h := Nat.mul_le_mul_left w hrow
    · rw [Nat.add_mul_mod_self_left, Nat.mod_eq_of_lt hcol,
        Nat.add_mul_div_left _ _ (Nat.zero_lt_of_lt hcol), Nat.div_eq_of_lt hcol]
      exact Prod.ext (by omega) (by omega)

theorem nodup_rowMajor (x y w h : ℕ) : (rowMajor x y w h).Nodup := by
  refine List.Nodup.map_on (fun i _ j _ hij ↦ ?_) List.nodup_range
  rw [Prod.mk.injEq] at hij
  rw [← Nat.mod_add_div i w, ← Nat.mod_add_div j w, Nat.add_left_cancel hij.1,
    Nat.add_left_cancel hij.2]

/-! ## Counting loops -/

section Counting

variable {w : ℕ} {τ : Type}

/-- `for (x = lo; x <= hi; ++x)` from the value that its counter has. -/
def forUpto (body : τ → BitVec w → Option τ) (hi : BitVec w) : ℕ → BitVec w → τ → Option τ
  | 0, _, _ => none
  | fuel + 1, x, t =>
    if x.toInt ≤ hi.toInt then do
      let t ← body t x
      forUpto body hi fuel (x + 1) t
    else some t

/-- The values from `lo` to `hi`. -/
def span (lo hi : BitVec w) : List (BitVec w) :=
  (List.range (hi.toInt + 1 - lo.toInt).toNat).map fun i : ℕ ↦ BitVec.ofInt w (lo.toInt + i)

theorem toInt_ofInt_of_le {lo hi : BitVec w} {z : ℤ} (hlo : lo.toInt ≤ z) (hhi : z ≤ hi.toInt) :
    (BitVec.ofInt w z).toInt = z := by
  rw [BitVec.toInt_ofInt]
  have hlower := BitVec.le_two_mul_toInt (x := lo)
  have hupper := BitVec.two_mul_toInt_lt (x := hi)
  refine Int.bmod_eq_of_le_mul_two ?_ ?_
  · push_cast
    omega
  · push_cast
    omega

theorem ofInt_toInt_add_one (x : BitVec w) : BitVec.ofInt w (x.toInt + 1) = x + 1 := by
  rw [BitVec.ofInt_add, BitVec.ofInt_toInt]
  rfl

theorem mem_span {lo hi x : BitVec w} : x ∈ span lo hi ↔ lo.toInt ≤ x.toInt ∧
    x.toInt ≤ hi.toInt := by
  rw [span, List.mem_map]
  constructor
  · rintro ⟨i, hi', rfl⟩
    rw [List.mem_range] at hi'
    rw [toInt_ofInt_of_le (show lo.toInt ≤ _ by omega) (show _ ≤ hi.toInt by omega)]
    omega
  · rintro ⟨hlo, hhi⟩
    refine ⟨(x.toInt - lo.toInt).toNat, List.mem_range.mpr (by omega), ?_⟩
    rw [show lo.toInt + ((x.toInt - lo.toInt).toNat : ℤ) = x.toInt by omega, BitVec.ofInt_toInt]

theorem nodup_span (lo hi : BitVec w) : (span lo hi).Nodup := by
  refine List.Nodup.map_on (fun i hi' j hj h ↦ ?_) List.nodup_range
  rw [List.mem_range] at hi' hj
  have hval := congrArg BitVec.toInt h
  rw [toInt_ofInt_of_le (show lo.toInt ≤ _ by omega) (show _ ≤ hi.toInt by omega),
    toInt_ofInt_of_le (show lo.toInt ≤ _ by omega) (show _ ≤ hi.toInt by omega)] at hval
  omega

theorem span_of_lt {lo hi : BitVec w} (h : hi.toInt < lo.toInt) : span lo hi = [] := by
  rw [span, show (hi.toInt + 1 - lo.toInt).toNat = 0 by omega]
  rfl

theorem toInt_add_one {x hi : BitVec w} (hhi : 2 * (hi.toInt + 1) < 2 ^ w)
    (h : x.toInt ≤ hi.toInt) : (x + 1).toInt = x.toInt + 1 := by
  rw [← ofInt_toInt_add_one, BitVec.toInt_ofInt]
  have hlower := BitVec.le_two_mul_toInt (x := x)
  refine Int.bmod_eq_of_le_mul_two ?_ ?_
  · push_cast
    omega
  · push_cast
    omega

theorem span_of_le {lo hi : BitVec w} (hhi : 2 * (hi.toInt + 1) < 2 ^ w)
    (h : lo.toInt ≤ hi.toInt) : span lo hi = lo :: span (lo + 1) hi := by
  have hnext := toInt_add_one hhi h
  obtain ⟨n, hn⟩ : ∃ n : ℕ, hi.toInt - lo.toInt = n := ⟨(hi.toInt - lo.toInt).toNat, by omega⟩
  rw [span, span, hnext, show (hi.toInt + 1 - lo.toInt).toNat = n + 1 by omega,
    show (hi.toInt + 1 - (lo.toInt + 1)).toNat = n by omega, List.range_succ_eq_map,
    List.map_cons, List.map_map]
  refine congrArg₂ _ ?_ (List.map_congr_left fun i _ ↦ ?_)
  · rw [Nat.cast_zero, add_zero, BitVec.ofInt_toInt]
  · rw [Function.comp_apply, Nat.cast_succ, add_assoc, add_comm 1 (i : ℤ)]

/-- **The counting loop.** Below the greatest value of the type it runs through the span. -/
theorem forUpto_eq (body : τ → BitVec w → Option τ) {hi : BitVec w}
    (hhi : 2 * (hi.toInt + 1) < 2 ^ w) (fuel : ℕ) : ∀ {lo : BitVec w} {t : τ},
      (span lo hi).length < fuel → forUpto body hi fuel lo t = (span lo hi).foldlM body t := by
  induction fuel with
  | zero => exact fun h ↦ absurd h (Nat.not_lt_zero _)
  | succ fuel ih =>
    intro lo t hfuel
    by_cases h : lo.toInt ≤ hi.toInt
    · rw [span_of_le hhi h, List.length_cons] at hfuel
      rw [forUpto, if_pos h, span_of_le hhi h, List.foldlM_cons]
      exact bind_congr fun t' ↦ ih (by omega)
    · rw [forUpto, if_neg h, span_of_lt (by omega)]
      rfl

/-- A counter of the same type cannot get past the greatest value. -/
theorem forUpto_greatest (body : τ → BitVec w → Option τ) {hi : BitVec w}
    (hhi : 2 ^ w ≤ 2 * (hi.toInt + 1)) (fuel : ℕ) : ∀ (lo : BitVec w) (t : τ),
      forUpto body hi fuel lo t = none := by
  induction fuel with
  | zero => exact fun _ _ ↦ rfl
  | succ fuel ih =>
    intro lo t
    have hlo := BitVec.two_mul_toInt_lt (x := lo)
    rw [forUpto, if_pos (by omega)]
    exact Option.bind_eq_none_iff.mpr fun t' _ ↦ ih _ t'

end Counting

/-! ## Lines -/

/-- A type of coordinates: the integer that each of its values stands for, and the value that is
stored for an integer. -/
structure Coordinate (κ : Type) [Add κ] where
  /-- The integer that a value stands for. -/
  val : κ → ℤ
  /-- The value that is stored for an integer. -/
  word : ℤ → κ
  /-- Storing goes through sums. -/
  word_add : ∀ a b, word (a + b) = word a + word b
  /-- A value is stored as itself. -/
  word_val : ∀ k, word (val k) = k
  /-- An integer between two values stands for itself. -/
  val_word : ∀ {a b : κ} {z : ℤ}, val a ≤ z → z ≤ val b → val (word z) = z

namespace Coordinate

def signed (w : ℕ) : Coordinate (BitVec w) where
  val := BitVec.toInt
  word := BitVec.ofInt w
  word_add := BitVec.ofInt_add
  word_val _ := BitVec.ofInt_toInt
  val_word := toInt_ofInt_of_le

def unsigned (w : ℕ) : Coordinate (BitVec w) where
  val x := x.toNat
  word := BitVec.ofInt w
  word_add := BitVec.ofInt_add
  word_val x := by rw [BitVec.ofInt_natCast, BitVec.ofNat_toNat, BitVec.setWidth_eq]
  val_word {a b z} ha hb := by
    have hlt : (b.toNat : ℤ) < (2 ^ w : ℕ) := Int.ofNat_lt.mpr b.isLt
    have hz : 0 ≤ z := by omega
    rw [BitVec.toNat_ofInt, Int.emod_eq_of_lt hz (by omega), Int.toNat_of_nonneg hz]

end Coordinate

/-- Plot, stop at the end point, else move along the axes that the error term selects. -/
def lineLoop {κ τ : Type} [Add κ] [DecidableEq κ] (plot : τ → κ → κ → Option τ)
    (x1 y1 : κ) (dx dy : ℤ)
    (sx sy : κ) : ℕ → κ → κ → ℤ → τ → Option τ
  | 0, _, _, _, _ => none
  | fuel + 1, x0, y0, err, t => do
    let t ← plot t x0 y0
    if x0 = x1 ∧ y0 = y1 then return t
    else
      let e2 := err
      let (err, x0) := if e2 > -dx then (err - dy, x0 + sx) else (err, x0)
      let (err, y0) := if e2 < dy then (err + dx, y0 + sy) else (err, y0)
      lineLoop plot x1 y1 dx dy sx sy fuel x0 y0 err t

/-! ### The walk -/

/-- How far the loop has moved along the axes, and its error term. -/
structure Walk where
  /-- The moves along the first axis. -/
  x : ℤ
  /-- The moves along the second axis. -/
  y : ℤ
  /-- The error term. -/
  err : ℤ

namespace Walk

variable {dx dy : ℤ}

def next (dx dy : ℤ) (s : Walk) : Walk where
  x := if -dx < s.err then s.x + 1 else s.x
  y := if s.err < dy then s.y + 1 else s.y
  err := s.err - (if -dx < s.err then dy else 0) + if s.err < dy then dx else 0

/-- Where the loop starts. -/
def start (dx dy : ℤ) : Walk := ⟨0, 0, (if dx > dy then dx else -dy).tdiv 2⟩

/-- The walk after `i` moves. -/
def after (dx dy : ℤ) (i : ℕ) : Walk := (next dx dy)^[i] (start dx dy)

theorem after_succ (i : ℕ) : after dx dy (i + 1) = next dx dy (after dx dy i) :=
  Function.iterate_succ_apply' _ _ _

/-- On a wide line every move goes along the first axis; the error term counts what the moves along
the second are behind. -/
structure Wide (dx dy : ℤ) (i : ℕ) (s : Walk) : Prop where
  /-- Every move goes along the first axis. -/
  x : s.x = i
  /-- The moves along the second axis. -/
  y_nonneg : 0 ≤ s.y
  /-- The error term is not negative after a move. -/
  err_nonneg : 0 ≤ s.err
  /-- Nor is it as large as the line is wide. -/
  err_lt : s.err < dx
  /-- What the error term counts. -/
  err_eq : s.err = dx / 2 - i * dy + s.y * dx

/-- On the others every move goes along the second axis. -/
structure Tall (dx dy : ℤ) (i : ℕ) (s : Walk) : Prop where
  /-- Every move goes along the second axis. -/
  y : s.y = i
  /-- The moves along the first axis. -/
  x_nonneg : 0 ≤ s.x
  /-- The error term is not positive after a move. -/
  err_nonpos : s.err ≤ 0
  /-- Nor is it as small as the line is high. -/
  lt_err : -dy < s.err
  /-- What the error term counts. -/
  err_eq : s.err = i * dx - s.x * dy - dy / 2

theorem Wide.next {i : ℕ} {s : Walk} (h : Wide dx dy i s) (hdy : 0 ≤ dy) (hlt : dy < dx) :
    Wide dx dy (i + 1) (next dx dy s) := by
  obtain ⟨hx, hy, h0, hdx, herr⟩ := h
  have hmove : -dx < s.err := by omega
  by_cases hturn : s.err < dy
  · refine ⟨?_, ?_, ?_, ?_, ?_⟩ <;> simp only [Walk.next, if_pos hmove, if_pos hturn]
    · push_cast; omega
    · omega
    · omega
    · omega
    · rw [herr]; push_cast; ring
  · refine ⟨?_, ?_, ?_, ?_, ?_⟩ <;> simp only [Walk.next, if_pos hmove, if_neg hturn]
    · push_cast; omega
    · exact hy
    · omega
    · omega
    · rw [herr]; push_cast; ring

theorem Tall.next {i : ℕ} {s : Walk} (h : Tall dx dy i s) (hdx : 0 ≤ dx) (hle : dx ≤ dy) :
    Tall dx dy (i + 1) (next dx dy s) := by
  obtain ⟨hy, hx, h0, hdy, herr⟩ := h
  have hmove : s.err < dy := by omega
  by_cases hturn : -dx < s.err
  · refine ⟨?_, ?_, ?_, ?_, ?_⟩ <;> simp only [Walk.next, if_pos hmove, if_pos hturn]
    · push_cast; omega
    · omega
    · omega
    · omega
    · rw [herr]; push_cast; ring
  · refine ⟨?_, ?_, ?_, ?_, ?_⟩ <;> simp only [Walk.next, if_pos hmove, if_neg hturn]
    · push_cast; omega
    · exact hx
    · omega
    · omega
    · rw [herr]; push_cast; ring

theorem wide_after (hdy : 0 ≤ dy) (hlt : dy < dx) (i : ℕ) : Wide dx dy i (after dx dy i) := by
  induction i with
  | zero =>
    have hhalf : (start dx dy).err = dx / 2 := by
      simp only [start, if_pos hlt]
      exact Int.tdiv_eq_ediv_of_nonneg (by omega)
    have hzero : after dx dy 0 = start dx dy := rfl
    refine ⟨rfl, le_rfl, ?_, ?_, ?_⟩ <;> rw [hzero, hhalf]
    · omega
    · omega
    · simp [start]
  | succ i ih =>
    rw [after_succ]
    exact ih.next hdy hlt

theorem tall_after (hdx : 0 ≤ dx) (hle : dx ≤ dy) (hdy : 0 < dy) (i : ℕ) :
    Tall dx dy i (after dx dy i) := by
  induction i with
  | zero =>
    have hhalf : (start dx dy).err = -(dy / 2) := by
      simp only [start, if_neg (not_lt.mpr hle), Int.neg_tdiv]
      rw [Int.tdiv_eq_ediv_of_nonneg hdy.le]
    have hzero : after dx dy 0 = start dx dy := rfl
    refine ⟨rfl, le_rfl, ?_, ?_, ?_⟩ <;> rw [hzero, hhalf]
    · omega
    · omega
    · simp [start]
  | succ i ih =>
    rw [after_succ]
    exact ih.next hdx hle

/-- Multiples that are less than one apart. -/
theorem le_of_mul_lt {a b m : ℤ} (hm : 0 < m) (h : a * m < b * m + m) : a ≤ b := by
  have hlt : a * m < (b + 1) * m := by
    rw [add_mul, one_mul]
    exact h
  have := lt_of_mul_lt_mul_right hlt hm.le
  omega

theorem Wide.y_le {i : ℕ} {s : Walk} (h : Wide dx dy i s) (hdy : 0 ≤ dy) (hi : (i : ℤ) ≤ dx)
    (hdx : 0 < dx) : s.y ≤ dy := by
  refine le_of_mul_lt hdx ?_
  have hmoved : i * dy ≤ dx * dy := mul_le_mul_of_nonneg_right hi hdy
  have hlt := h.err_lt
  have herr := h.err_eq
  rw [mul_comm dy dx]
  omega

theorem Tall.x_le {i : ℕ} {s : Walk} (h : Tall dx dy i s) (hdx : 0 ≤ dx) (hi : (i : ℤ) ≤ dy)
    (hdy : 0 < dy) : s.x ≤ dx := by
  refine le_of_mul_lt hdy ?_
  have hmoved : i * dx ≤ dy * dx := mul_le_mul_of_nonneg_right hi hdx
  have hlt := h.lt_err
  have herr := h.err_eq
  rw [mul_comm dx dy]
  omega

/-- After as many moves as the longer axis is long, both distances have been made good. -/
theorem Wide.y_eq {i : ℕ} {s : Walk} (h : Wide dx dy i s) (hdy : 0 ≤ dy) (hi : (i : ℤ) = dx)
    (hdx : 0 < dx) : s.y = dy := by
  refine le_antisymm (h.y_le hdy hi.le hdx) (le_of_mul_lt hdx ?_)
  have hnonneg := h.err_nonneg
  have herr := h.err_eq
  rw [hi, mul_comm dx dy] at herr
  omega

theorem Tall.x_eq {i : ℕ} {s : Walk} (h : Tall dx dy i s) (hdx : 0 ≤ dx) (hi : (i : ℤ) = dy)
    (hdy : 0 < dy) : s.x = dx := by
  refine le_antisymm (h.x_le hdx hi.le hdy) (le_of_mul_lt hdy ?_)
  have hnonpos := h.err_nonpos
  have herr := h.err_eq
  rw [hi, mul_comm dy dx] at herr
  omega

/-- Where the walk is after `i` moves of at most the longer axis. -/
structure Progress (dx dy : ℤ) (i : ℕ) (s : Walk) : Prop where
  /-- It has not left the box on one side of the first axis. -/
  x_nonneg : 0 ≤ s.x
  /-- Nor on the other. -/
  x_le : s.x ≤ dx
  /-- It has not left the box on one side of the second axis. -/
  y_nonneg : 0 ≤ s.y
  /-- Nor on the other. -/
  y_le : s.y ≤ dy
  /-- On a wide line it has made all moves along the first axis. -/
  x_eq : dy ≤ dx → s.x = i
  /-- On a tall line it has made all moves along the second axis. -/
  y_eq : dx ≤ dy → s.y = i

/-- On a diagonal the two distances grow together. -/
theorem Tall.x_eq_of_diagonal {i : ℕ} {s : Walk} (h : Tall dx dy i s) (hdiag : dx = dy)
    (hdy : 0 < dy) : s.x = i := by
  have herr := h.err_eq
  have hnonpos := h.err_nonpos
  have hlt := h.lt_err
  rw [hdiag] at herr
  refine le_antisymm (le_of_mul_lt hdy ?_) (le_of_mul_lt hdy ?_)
  · omega
  · omega

theorem progress_after (hdx : 0 ≤ dx) (hdy : 0 ≤ dy) {i : ℕ} (hi : (i : ℤ) ≤ max dx dy) :
    Progress dx dy i (after dx dy i) := by
  rcases lt_or_ge dy dx with hlt | hle
  · rw [max_eq_left hlt.le] at hi
    have h := wide_after hdy hlt i
    have hx := h.x
    exact ⟨by omega, by omega, h.y_nonneg, h.y_le hdy hi (by omega), fun _ ↦ hx,
      fun hle ↦ absurd hle (not_le.mpr hlt)⟩
  · rw [max_eq_right hle] at hi
    rcases hdy.eq_or_lt with rfl | hpos
    · obtain rfl : i = 0 := by omega
      have hzero : after dx 0 0 = start dx 0 := rfl
      rw [hzero]
      exact ⟨le_rfl, hdx, le_rfl, le_rfl, fun _ ↦ rfl, fun _ ↦ rfl⟩
    · have h := tall_after hdx hle hpos i
      have hy := h.y
      exact ⟨h.x_nonneg, h.x_le hdx hi hpos, by omega, by omega,
        fun hge ↦ h.x_eq_of_diagonal (le_antisymm hle hge) hpos, fun _ ↦ hy⟩

/-- **The walk ends at the end point.** -/
theorem after_max (hdx : 0 ≤ dx) (hdy : 0 ≤ dy) {i : ℕ} (hi : (i : ℤ) = max dx dy) :
    (after dx dy i).x = dx ∧ (after dx dy i).y = dy := by
  rcases lt_or_ge dy dx with hlt | hle
  · rw [max_eq_left hlt.le] at hi
    have h := wide_after hdy hlt i
    exact ⟨h.x.trans hi, h.y_eq hdy hi (by omega)⟩
  · rw [max_eq_right hle] at hi
    rcases hdy.eq_or_lt with rfl | hpos
    · obtain rfl : i = 0 := by omega
      exact ⟨le_antisymm hdx hle, rfl⟩
    · have h := tall_after hdx hle hpos i
      exact ⟨h.x_eq hdx hi hpos, h.y.trans hi⟩

/-- One move along each axis at most. -/
theorem next_x (dx dy : ℤ) (s : Walk) : (next dx dy s).x = s.x ∨ (next dx dy s).x = s.x + 1 := by
  simp only [next]
  split_ifs
  · exact .inr rfl
  · exact .inl rfl

theorem next_y (dx dy : ℤ) (s : Walk) : (next dx dy s).y = s.y ∨ (next dx dy s).y = s.y + 1 := by
  simp only [next]
  split_ifs
  · exact .inr rfl
  · exact .inl rfl

end Walk

/-! ### What a line plots -/

/-- The direction along an axis. -/
def lineSign (a b : ℤ) : ℤ := if a < b then 1 else -1

/-- What is asked of the points of a line. -/
structure IsLine {κ : Type} (val : κ → ℤ) (x0 y0 x1 y1 : κ) (pts : List (κ × κ)) : Prop where
  /-- There are as many points as the longer side of the box has. -/
  length : (pts.length : ℤ) = max |val x1 - val x0| |val y1 - val y0| + 1
  /-- It begins at the first end. -/
  first : pts.head? = some (x0, y0)
  /-- It ends at the second one. -/
  last : pts.getLast? = some (x1, y1)
  /-- Each step goes by at most one along both axes, and by one along the longer one. -/
  steps : pts.IsChain fun p q ↦ |val q.1 - val p.1| ≤ 1 ∧ |val q.2 - val p.2| ≤ 1 ∧
    (|val y1 - val y0| ≤ |val x1 - val x0| → |val q.1 - val p.1| = 1) ∧
    (|val x1 - val x0| ≤ |val y1 - val y0| → |val q.2 - val p.2| = 1)
  /-- No point is outside the box of the ends. -/
  box : ∀ p ∈ pts, val p.1 ∈ Set.uIcc (val x0) (val x1) ∧ val p.2 ∈ Set.uIcc (val y0) (val y1)

theorem lineSign_mul_abs (a b : ℤ) : a + lineSign a b * |b - a| = b := by
  rw [lineSign]
  split_ifs with h
  · rw [abs_of_pos (by omega)]
    omega
  · rw [abs_of_nonpos (by omega)]
    omega

theorem lineSign_mul_mem {a b k : ℤ} (h0 : 0 ≤ k) (hk : k ≤ |b - a|) :
    a + lineSign a b * k ∈ Set.uIcc a b := by
  rw [lineSign, Set.mem_uIcc]
  split_ifs with h
  · rw [abs_of_pos (by omega)] at hk
    omega
  · rw [abs_of_nonpos (by omega)] at hk
    omega

theorem lineSign_ne_zero (a b : ℤ) : lineSign a b ≠ 0 := by
  rw [lineSign]
  split_ifs
  · exact one_ne_zero
  · exact neg_ne_zero.mpr one_ne_zero

theorem abs_lineSign_mul (a b k : ℤ) : |lineSign a b * k| = |k| := by
  rw [lineSign]
  split_ifs
  · rw [one_mul]
  · rw [neg_one_mul, abs_neg]

namespace Coordinate

variable {κ : Type} [Add κ] (c : Coordinate κ) (x0 y0 x1 y1 : κ)

def dx : ℤ := |c.val x1 - c.val x0|

/-- The point that the walk is at. -/
def linePoint (s : Walk) : κ × κ :=
  (c.word (c.val x0 + lineSign (c.val x0) (c.val x1) * s.x),
    c.word (c.val y0 + lineSign (c.val y0) (c.val y1) * s.y))

/-- The points of the line, from its start. -/
def linePoints : List (κ × κ) :=
  (List.range ((max (c.dx x0 x1) (c.dx y0 y1)).toNat + 1)).map fun i ↦
    c.linePoint x0 y0 x1 y1 (Walk.after (c.dx x0 x1) (c.dx y0 y1) i)

variable {c x0 y0 x1 y1}

theorem val_word_of_mem {a b : κ} {z : ℤ} (h : z ∈ Set.uIcc (c.val a) (c.val b)) :
    c.val (c.word z) = z := by
  rcases Set.mem_uIcc.mp h with ⟨hlo, hhi⟩ | ⟨hlo, hhi⟩
  · exact c.val_word hlo hhi
  · exact c.val_word hlo hhi

variable {s : Walk} {i : ℕ}

theorem val_linePoint (h : Walk.Progress (c.dx x0 x1) (c.dx y0 y1) i s) :
    c.val (c.linePoint x0 y0 x1 y1 s).1 = c.val x0 + lineSign (c.val x0) (c.val x1) * s.x ∧
      c.val (c.linePoint x0 y0 x1 y1 s).2 = c.val y0 + lineSign (c.val y0) (c.val y1) * s.y :=
  ⟨val_word_of_mem (lineSign_mul_mem h.x_nonneg h.x_le),
    val_word_of_mem (lineSign_mul_mem h.y_nonneg h.y_le)⟩

/-- Only the end of both distances is the end point. -/
theorem of_linePoint_eq (h : Walk.Progress (c.dx x0 x1) (c.dx y0 y1) i s)
    (hend : c.linePoint x0 y0 x1 y1 s = (x1, y1)) : s.x = c.dx x0 x1 ∧ s.y = c.dx y0 y1 := by
  obtain ⟨hx, hy⟩ := val_linePoint h
  rw [hend] at hx hy
  have hx' := (lineSign_mul_abs (c.val x0) (c.val x1)).trans hx
  have hy' := (lineSign_mul_abs (c.val y0) (c.val y1)).trans hy
  exact ⟨(mul_left_cancel₀ (lineSign_ne_zero _ _) (add_left_cancel hx')).symm,
    (mul_left_cancel₀ (lineSign_ne_zero _ _) (add_left_cancel hy')).symm⟩

theorem linePoint_start (s : Walk) (hx : s.x = 0) (hy : s.y = 0) :
    c.linePoint x0 y0 x1 y1 s = (x0, y0) := by
  rw [linePoint, hx, hy, mul_zero, add_zero, mul_zero, add_zero, c.word_val, c.word_val]

theorem linePoint_end (s : Walk) (hx : s.x = c.dx x0 x1) (hy : s.y = c.dx y0 y1) :
    c.linePoint x0 y0 x1 y1 s = (x1, y1) := by
  rw [linePoint, hx, hy, dx, dx, lineSign_mul_abs, lineSign_mul_abs, c.word_val, c.word_val]

/-- **What a line plots.** -/
theorem isLine_linePoints : IsLine c.val x0 y0 x1 y1 (c.linePoints x0 y0 x1 y1) := by
  have hdx : 0 ≤ c.dx x0 x1 := abs_nonneg _
  have hdy : 0 ≤ c.dx y0 y1 := abs_nonneg _
  obtain ⟨n, hn⟩ : ∃ n : ℕ, (n : ℤ) = max (c.dx x0 x1) (c.dx y0 y1) :=
    ⟨(max (c.dx x0 x1) (c.dx y0 y1)).toNat, Int.toNat_of_nonneg (le_max_of_le_left hdx)⟩
  have hrange : (max (c.dx x0 x1) (c.dx y0 y1)).toNat + 1 = n + 1 := by omega
  have hprogress (i : ℕ) (hi : i ≤ n) := Walk.progress_after hdx hdy (i := i) (by omega)
  constructor
  case length =>
    rw [linePoints, List.length_map, List.length_range, hrange, Nat.cast_succ, hn]
    rfl
  case first =>
    rw [linePoints, List.range_succ_eq_map, List.map_cons, List.head?_cons,
      linePoint_start _ rfl rfl]
  case last =>
    obtain ⟨hx, hy⟩ := Walk.after_max hdx hdy hn
    rw [linePoints, hrange, List.range_succ, List.map_append, List.map_singleton,
      List.getLast?_concat, linePoint_end _ hx hy]
  case steps =>
    rw [linePoints, hrange, List.isChain_map, List.isChain_range_succ]
    intro i hi
    have h := hprogress i hi.le
    have h' := hprogress (i + 1) hi
    rw [(val_linePoint h).1, (val_linePoint h).2, (val_linePoint h').1, (val_linePoint h').2,
      add_sub_add_left_eq_sub, add_sub_add_left_eq_sub, ← mul_sub, ← mul_sub, abs_lineSign_mul,
      abs_lineSign_mul]
    refine ⟨?_, ?_, fun hwide ↦ ?_, fun htall ↦ ?_⟩
    · rw [Walk.after_succ]
      generalize Walk.after (c.dx x0 x1) (c.dx y0 y1) i = s
      rcases Walk.next_x (c.dx x0 x1) (c.dx y0 y1) s with hx | hx
      · simp [hx]
      · simp [hx]
    · rw [Walk.after_succ]
      generalize Walk.after (c.dx x0 x1) (c.dx y0 y1) i = s
      rcases Walk.next_y (c.dx x0 x1) (c.dx y0 y1) s with hy | hy
      · simp [hy]
      · simp [hy]
    · simp [h.x_eq hwide, h'.x_eq hwide]
    · simp [h.y_eq htall, h'.y_eq htall]
  case box =>
    intro p hp
    obtain ⟨i, hi, rfl⟩ := List.mem_map.mp hp
    rw [hrange, List.mem_range] at hi
    have h := hprogress i (by omega)
    rw [(val_linePoint h).1, (val_linePoint h).2]
    exact ⟨lineSign_mul_mem h.x_nonneg h.x_le, lineSign_mul_mem h.y_nonneg h.y_le⟩

/-! ### The loop follows the walk -/

theorem linePoint_next (s : Walk) (dx dy : ℤ) :
    c.linePoint x0 y0 x1 y1 (s.next dx dy)
      = (if -dx < s.err then (c.linePoint x0 y0 x1 y1 s).1 + c.word (lineSign (c.val x0) (c.val x1))
          else (c.linePoint x0 y0 x1 y1 s).1,
        if s.err < dy then (c.linePoint x0 y0 x1 y1 s).2 + c.word (lineSign (c.val y0) (c.val y1))
          else (c.linePoint x0 y0 x1 y1 s).2) := by
  simp only [linePoint, Walk.next]
  congr 1
  · split_ifs
    · rw [← c.word_add, mul_add, mul_one, add_assoc]
    · rfl
  · split_ifs
    · rw [← c.word_add, mul_add, mul_one, add_assoc]
    · rfl

variable [DecidableEq κ] {τ : Type} (plot : τ → κ → κ → Option τ)

/-- The loop, up to the first point that is the end point. -/
theorem lineLoop_eq {dx dy : ℤ} (n : ℕ) : ∀ {s : Walk} {fuel : ℕ} {t : τ}, n < fuel →
    (∀ i < n, c.linePoint x0 y0 x1 y1 ((Walk.next dx dy)^[i] s) ≠ (x1, y1)) →
    c.linePoint x0 y0 x1 y1 ((Walk.next dx dy)^[n] s) = (x1, y1) →
    lineLoop plot x1 y1 dx dy (c.word (lineSign (c.val x0) (c.val x1)))
        (c.word (lineSign (c.val y0) (c.val y1))) fuel (c.linePoint x0 y0 x1 y1 s).1
        (c.linePoint x0 y0 x1 y1 s).2 s.err t
      = ((List.range (n + 1)).map fun i ↦
          c.linePoint x0 y0 x1 y1 ((Walk.next dx dy)^[i] s)).foldlM
            (fun t p ↦ plot t p.1 p.2) t := by
  induction n with
  | zero =>
    rintro s (_ | fuel) t hfuel - hend
    · exact absurd hfuel (lt_irrefl _)
    · rw [Function.iterate_zero_apply] at hend
      rw [lineLoop, hend, List.range_one, List.map_singleton, Function.iterate_zero_apply, hend,
        List.foldlM_cons]
      refine bind_congr fun t' ↦ ?_
      rw [if_pos ⟨rfl, rfl⟩]
      rfl
  | succ n ih =>
    rintro s (_ | fuel) t hfuel hne hend
    · exact absurd hfuel (Nat.not_lt_zero _)
    · have hhere : ¬((c.linePoint x0 y0 x1 y1 s).1 = x1 ∧ (c.linePoint x0 y0 x1 y1 s).2 = y1) :=
        fun h ↦ hne 0 (Nat.succ_pos n) (Prod.ext h.1 h.2)
      rw [lineLoop, List.range_succ_eq_map, List.map_cons, List.foldlM_cons, List.map_map]
      refine bind_congr fun t' ↦ ?_
      have hrest := ih (s := s.next dx dy) (t := t') (Nat.lt_of_succ_lt_succ hfuel)
        (fun i hi ↦ hne (i + 1) (by omega)) hend
      rw [if_neg hhere]
      refine Eq.trans ?_ hrest
      -- What the branches leave in the three variables is the next state of the walk.
      rw [linePoint_next]
      by_cases hmove : -dx < s.err <;> by_cases hturn : s.err < dy
      · simp only [Walk.next, if_pos hmove, if_pos hturn, gt_iff_lt]
      · simp only [Walk.next, if_pos hmove, if_neg hturn, gt_iff_lt, add_zero]
      · simp only [Walk.next, if_neg hmove, if_pos hturn, gt_iff_lt, sub_zero]
      · simp only [Walk.next, if_neg hmove, if_neg hturn, gt_iff_lt, sub_zero, add_zero]

/-- **The line loop.** Started at one end of a line, it plots the points of the line and returns. -/
theorem lineLoop_plots (c : Coordinate κ) (x0 y0 x1 y1 : κ) : Plots (fun τ plot fuel t ↦
    lineLoop (τ := τ) plot x1 y1 (c.dx x0 x1) (c.dx y0 y1)
    (c.word (lineSign (c.val x0) (c.val x1))) (c.word (lineSign (c.val y0) (c.val y1))) fuel x0 y0
    ((if c.dx x0 x1 > c.dx y0 y1 then c.dx x0 x1 else -c.dx y0 y1).tdiv 2) t)
    (c.linePoints x0 y0 x1 y1) := by
  have hdx : 0 ≤ c.dx x0 x1 := abs_nonneg _
  have hdy : 0 ≤ c.dx y0 y1 := abs_nonneg _
  obtain ⟨n, hn⟩ : ∃ n : ℕ, (n : ℤ) = max (c.dx x0 x1) (c.dx y0 y1) :=
    ⟨(max (c.dx x0 x1) (c.dx y0 y1)).toNat, Int.toNat_of_nonneg (le_max_of_le_left hdx)⟩
  refine ⟨n + 1, fun fuel hfuel τ plot t ↦ ?_⟩
  have hstart : c.linePoint x0 y0 x1 y1 (Walk.start (c.dx x0 x1) (c.dx y0 y1)) = (x0, y0) :=
    linePoint_start _ rfl rfl
  have hend := Walk.after_max hdx hdy hn
  have hprogress (i : ℕ) (hi : i ≤ n) := Walk.progress_after hdx hdy (i := i) (by omega)
  have hne (i : ℕ) (hi : i < n) :
      c.linePoint x0 y0 x1 y1 (Walk.after (c.dx x0 x1) (c.dx y0 y1) i) ≠ (x1, y1) := by
    intro h
    obtain ⟨hx, hy⟩ := of_linePoint_eq (hprogress i hi.le) h
    rcases le_total (c.dx x0 x1) (c.dx y0 y1) with hle | hle
    · have := (hprogress i hi.le).y_eq hle
      rw [max_eq_right hle] at hn
      omega
    · have := (hprogress i hi.le).x_eq hle
      rw [max_eq_left hle] at hn
      omega
  have h := lineLoop_eq plot n (t := t) hfuel hne (linePoint_end _ hend.1 hend.2)
  have hrange : (max (c.dx x0 x1) (c.dx y0 y1)).toNat + 1 = n + 1 := by omega
  rw [hstart] at h
  rw [linePoints, hrange]
  exact h

end Coordinate

end Martink
