import Mathlib.Data.List.Basic
import Mathlib.Tactic

/-!
# Tilings

A store that is scanned from one item to the next, each item saying how long it is, is a row of
tiles. What a tile is at a position is a parameter. A row can be cut between two tiles and put
together again, and a tile is replaced without a look at the others.
-/

namespace Martink

variable {τ : Type*} (IsTile : ℕ → τ → Prop) (size : τ → ℕ)

/-- The tiles cover the positions from the first one up to the second. -/
def Tiles : ℕ → List τ → ℕ → Prop
  | p, [], q => p = q
  | p, t :: ts, q => IsTile p t ∧ Tiles (p + size t) ts q

/-- `t` is the tile at `p` in a row that begins at `lo`. -/
def TileAt (lo : ℕ) (ts : List τ) (p : ℕ) (t : τ) : Prop :=
  ∃ pre post, ts = pre ++ t :: post ∧ p = lo + (pre.map size).sum

/-- A tile of the row ends at `p`, or the row begins there. -/
def Boundary (lo : ℕ) (ts : List τ) (p : ℕ) : Prop :=
  ∃ before after, ts.map size = before ++ after ∧ p = lo + before.sum

variable {IsTile size}

@[simp] theorem tiles_nil {p q : ℕ} : Tiles IsTile size p [] q ↔ p = q := Iff.rfl

@[simp] theorem tiles_cons {p q : ℕ} {t : τ} {ts : List τ} :
    Tiles IsTile size p (t :: ts) q ↔ IsTile p t ∧ Tiles IsTile size (p + size t) ts q := Iff.rfl

/-- Where a row ends. -/
theorem Tiles.eq_add {ts : List τ} : ∀ {p q : ℕ}, Tiles IsTile size p ts q →
    q = p + (ts.map size).sum := by
  induction ts with
  | nil =>
    rintro p q rfl
    simp
  | cons t ts ih =>
    rintro p q ⟨-, h⟩
    rw [ih h, List.map_cons, List.sum_cons, Nat.add_assoc]

theorem Tiles.le {ts : List τ} {p q : ℕ} (h : Tiles IsTile size p ts q) : p ≤ q := by
  rw [h.eq_add]
  exact Nat.le_add_right p _

/-- A row of tiles that are not empty has no more tiles than positions. -/
theorem Tiles.length_le (hpos : ∀ p t, IsTile p t → 0 < size t) {ts : List τ} : ∀ {p q : ℕ},
    Tiles IsTile size p ts q → p + ts.length ≤ q := by
  induction ts with
  | nil =>
    rintro p q rfl
    simp
  | cons t ts ih =>
    rintro p q ⟨ht, h⟩
    have hsize := hpos p t ht
    have hrest := ih h
    rw [List.length_cons]
    omega

theorem tiles_append {ts us : List τ} : ∀ {p r : ℕ}, Tiles IsTile size p (ts ++ us) r ↔
    ∃ q, Tiles IsTile size p ts q ∧ Tiles IsTile size q us r := by
  induction ts with
  | nil => simp
  | cons t ts ih => simp [ih, and_assoc]

/-- Tiles stay tiles if those inside the row do. -/
theorem Tiles.imp {IsTile' : ℕ → τ → Prop} {ts : List τ} : ∀ {p q : ℕ},
    (∀ x t, p ≤ x → x + size t ≤ q → IsTile x t → IsTile' x t) →
      Tiles IsTile size p ts q → Tiles IsTile' size p ts q := by
  induction ts with
  | nil => exact fun _ h ↦ h
  | cons t ts ih =>
    rintro p q himp ⟨ht, h⟩
    exact ⟨himp p t le_rfl h.le ht, ih (fun x u hx ↦ himp x u ((Nat.le_add_right p _).trans hx)) h⟩

theorem Tiles.isTile {ts : List τ} {lo hi p : ℕ} {t : τ} (h : Tiles IsTile size lo ts hi)
    (ht : TileAt size lo ts p t) : IsTile p t ∧ lo ≤ p ∧ p + size t ≤ hi := by
  obtain ⟨pre, post, rfl, rfl⟩ := ht
  obtain ⟨q, hpre, htile, hpost⟩ := tiles_append.mp h
  have hq := hpre.eq_add
  have hle := hpost.le
  subst hq
  exact ⟨htile, Nat.le_add_right _ _, hle⟩

theorem tileAt_cons {lo p : ℕ} {t u : τ} {ts : List τ} :
    TileAt size lo (u :: ts) p t ↔ p = lo ∧ t = u ∨ TileAt size (lo + size u) ts p t := by
  constructor
  · rintro ⟨pre, post, hts, rfl⟩
    rcases pre with _ | ⟨v, pre⟩
    · obtain ⟨rfl, rfl⟩ := List.cons.inj hts
      exact Or.inl ⟨by simp, rfl⟩
    · obtain ⟨rfl, rfl⟩ := List.cons.inj hts
      exact Or.inr ⟨pre, post, rfl, by simp [Nat.add_assoc]⟩
  · rintro (⟨rfl, rfl⟩ | ⟨pre, post, rfl, rfl⟩)
    · exact ⟨[], ts, rfl, by simp⟩
    · exact ⟨u :: pre, post, rfl, by simp [Nat.add_assoc]⟩

theorem tileAt_append {lo p : ℕ} {t : τ} {ts us : List τ} :
    TileAt size lo (ts ++ us) p t ↔
      TileAt size lo ts p t ∨ TileAt size (lo + (ts.map size).sum) us p t := by
  induction ts generalizing lo with
  | nil => simp [TileAt]
  | cons u ts ih => simp [tileAt_cons, ih, or_assoc, Nat.add_assoc]

@[simp] theorem not_tileAt_nil {lo p : ℕ} {t : τ} : ¬TileAt size lo [] p t := by
  simp [TileAt]

theorem TileAt.le {lo p : ℕ} {t : τ} {ts : List τ} (h : TileAt size lo ts p t) : lo ≤ p := by
  obtain ⟨pre, post, rfl, rfl⟩ := h
  exact Nat.le_add_right _ _

/-- **Two tiles do not overlap**, unless they are one. -/
theorem TileAt.separate {ts : List τ} : ∀ {lo p q : ℕ} {t u : τ}, TileAt size lo ts p t →
    TileAt size lo ts q u → p + size t ≤ q ∨ q + size u ≤ p ∨ p = q ∧ t = u := by
  induction ts with
  | nil =>
    intro lo p q t u h
    exact absurd h not_tileAt_nil
  | cons v ts ih =>
    intro lo p q t u hp hq
    rcases tileAt_cons.mp hp with ⟨rfl, rfl⟩ | hp
    · rcases tileAt_cons.mp hq with ⟨rfl, rfl⟩ | hq
      · exact Or.inr (Or.inr ⟨rfl, rfl⟩)
      · exact Or.inl hq.le
    · rcases tileAt_cons.mp hq with ⟨rfl, rfl⟩ | hq
      · exact Or.inr (Or.inl hp.le)
      · exact ih hp hq

/-- A row is cut at a boundary. -/
theorem Tiles.cut {ts : List τ} {lo hi p : ℕ} (h : Tiles IsTile size lo ts hi)
    (hp : Boundary size lo ts p) :
    ∃ us vs, ts = us ++ vs ∧ Tiles IsTile size lo us p ∧ Tiles IsTile size p vs hi := by
  obtain ⟨before, after, hsizes, rfl⟩ := hp
  obtain ⟨us, vs, rfl, rfl, rfl⟩ := List.map_eq_append_iff.mp hsizes
  obtain ⟨q, hus, hvs⟩ := tiles_append.mp h
  obtain rfl := hus.eq_add
  exact ⟨us, vs, rfl, hus, hvs⟩

theorem Tiles.boundary {us vs : List τ} {lo p : ℕ} (h : Tiles IsTile size lo us p) :
    Boundary size lo (us ++ vs) p :=
  ⟨us.map size, vs.map size, List.map_append, h.eq_add⟩

/-- **A tile is replaced** by one of its size, and the others stay what they are. -/
theorem Tiles.replace {IsTile' : ℕ → τ → Prop} {ts : List τ} {lo hi p : ℕ} {t t' : τ}
    (hpos : ∀ x u, IsTile x u → 0 < size u) (h : Tiles IsTile size lo ts hi)
    (hat : TileAt size lo ts p t)
    (hsize : size t' = size t) (ht' : IsTile' p t')
    (hother : ∀ x u, IsTile x u → x + size u ≤ p ∨ p + size t ≤ x → IsTile' x u) :
    ∃ ts', Tiles IsTile' size lo ts' hi ∧ ts'.map size = ts.map size ∧
      ∀ q u, TileAt size lo ts' q u ↔ q = p ∧ u = t' ∨ q ≠ p ∧ TileAt size lo ts q u := by
  obtain ⟨pre, post, rfl, rfl⟩ := hat
  obtain ⟨q, hpre, ht, hpost⟩ := tiles_append.mp h
  obtain rfl := hpre.eq_add
  refine ⟨pre ++ t' :: post,
    tiles_append.mpr ⟨_, hpre.imp ?_, ht', ?_⟩, by simp [hsize], fun q u ↦ ?_⟩
  · exact fun x u _ hx htile ↦ hother x u htile (Or.inl hx)
  · rw [hsize]
    exact hpost.imp fun x u hx _ htile ↦ hother x u htile (Or.inr hx)
  · rw [tileAt_append, tileAt_append, tileAt_cons, tileAt_cons, hsize]
    constructor
    · rintro (hq | ⟨rfl, rfl⟩ | hq)
      · have hu := hpre.isTile hq
        have hsizeu := hpos q u hu.1
        exact Or.inr ⟨by omega, Or.inl hq⟩
      · exact Or.inl ⟨rfl, rfl⟩
      · exact Or.inr ⟨(Nat.lt_of_lt_of_le (Nat.lt_add_of_pos_right (hpos _ t ht)) hq.le).ne',
        Or.inr (Or.inr hq)⟩
    · rintro (⟨rfl, rfl⟩ | ⟨hne, hq | ⟨rfl, -⟩ | hq⟩)
      · exact Or.inr (Or.inl ⟨rfl, rfl⟩)
      · exact Or.inl hq
      · exact absurd rfl hne
      · exact Or.inr (Or.inr hq)

section Covered

variable (size) (P : τ → Bool) (a b : ℕ)

/-- How many positions from `a` up to `b` lie in tiles of a kind, in a row that begins at `p`. -/
def covered : ℕ → List τ → ℕ
  | _, [] => 0
  | p, t :: ts => (if P t then min (p + size t) b - max p a else 0) + covered (p + size t) ts

variable {size P a b}

theorem covered_append (ts us : List τ) : ∀ p, covered size P a b p (ts ++ us)
    = covered size P a b p ts + covered size P a b (p + (ts.map size).sum) us := by
  induction ts with
  | nil => simp [covered]
  | cons t ts ih =>
    intro p
    simp [covered, ih, Nat.add_assoc]

theorem covered_singleton (p : ℕ) (t : τ) :
    covered size P a b p [t] = if P t then min (p + size t) b - max p a else 0 := Nat.add_zero _

/-- Tiles before the positions cover none of them. -/
theorem covered_before (ts : List τ) : ∀ {p}, p + (ts.map size).sum ≤ a →
    covered size P a b p ts = 0 := by
  induction ts with
  | nil => exact fun _ ↦ rfl
  | cons t ts ih =>
    intro p h
    rw [List.map_cons, List.sum_cons] at h
    rw [covered, ih (by omega)]
    split_ifs <;> omega

/-- Nor do tiles behind them. -/
theorem covered_behind (ts : List τ) : ∀ {p}, b ≤ p → covered size P a b p ts = 0 := by
  induction ts with
  | nil => exact fun _ ↦ rfl
  | cons t ts ih =>
    intro p h
    rw [covered, ih (h.trans (Nat.le_add_right _ _))]
    split_ifs <;> omega

end Covered

end Martink
