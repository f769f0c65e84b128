import Martink.Tty.Vt100Action
import Martink.Tty.Vt100Parse

/-!
# Setting colours

`CSI p₁;…;pₙ m` takes its parameters from the last to the first, so that the first one that sets a
colour wins. Each colour is overwritten by the parameters that set it and kept by the others; of
such a sequence only the last one counts (`foldl_overwrite`). The two orders therefore agree exactly
when the first and the last parameter that set a colour set the same one.
-/

namespace Martink

/-! ## Overwriting -/

/-- A register that is overwritten by some inputs and kept by the others ends with the last one that
overwrites it. -/
theorem foldl_overwrite {α β : Type*} (write : α → Option β) (as : List α) :
    ∀ b, as.foldl (fun b a ↦ (write a).getD b) b = (as.filterMap write).getLast?.getD b := by
  induction as with
  | nil => exact fun b ↦ rfl
  | cons a as ih =>
    intro b
    rw [List.foldl_cons, ih, List.filterMap_cons]
    cases write a with
    | none => rfl
    | some b' =>
      dsimp only
      rw [List.getLast?_cons]
      rfl

/-- Registers in pairs. -/
theorem foldl_prod {α β γ : Type*} (f : β → α → β) (g : γ → α → γ) (as : List α) :
    ∀ p : β × γ, as.foldl (fun p a ↦ (f p.1 a, g p.2 a)) p = (as.foldl f p.1, as.foldl g p.2) := by
  induction as with
  | nil => exact fun p ↦ rfl
  | cons a as ih => exact fun p ↦ ih (f p.1 a, g p.2 a)

namespace Vt100

/-- The front colour that a parameter sets. -/
def frontOf (n : ℕ) : Option (BitVec 16) :=
  if n = 0 then some 0xffff
  else if 30 ≤ n ∧ n < 38 then some (colors.getD (n - 30) 0) else none

/-- The back colour that a parameter sets. -/
def backOf (n : ℕ) : Option (BitVec 16) :=
  if n = 0 then some 0x0000
  else if 40 ≤ n ∧ n < 48 then some (colors.getD (n - 40) 0) else none

/-- The pair of colours that one parameter makes of another: 0 resets both, the thirties set the
front and the forties the back colour. -/
def sgrStep (p : BitVec 16 × BitVec 16) (n : ℕ) : BitVec 16 × BitVec 16 :=
  if n = 0 then (0xffff, 0x0000)
  else if 30 ≤ n ∧ n < 38 then (colors.getD (n - 30) 0, p.2)
  else if 40 ≤ n ∧ n < 48 then (p.1, colors.getD (n - 40) 0)
  else p

/-- What `m` is meant to do: the parameters in order, and a reset if there are none. -/
def sgr (p : BitVec 16 × BitVec 16) (ps : List ℕ) : BitVec 16 × BitVec 16 :=
  if ps = [] then (0xffff, 0x0000) else ps.foldl sgrStep p

/-- Of the parameters that set a colour, the first and the last set the same one. -/
def OrderFree (ps : List ℕ) : Prop :=
  (ps.filterMap frontOf).head? = (ps.filterMap frontOf).getLast? ∧
    (ps.filterMap backOf).head? = (ps.filterMap backOf).getLast?

instance (ps : List ℕ) : Decidable (OrderFree ps) := inferInstanceAs (Decidable (_ ∧ _))

/-- The colours that are set. -/
def colorPair (t : Vt100) : BitVec 16 × BitVec 16 := (t.frontColor, t.backColor)

theorem sgrStep_eq (p : BitVec 16 × BitVec 16) (n : ℕ) :
    sgrStep p n = ((frontOf n).getD p.1, (backOf n).getD p.2) := by
  rw [sgrStep, frontOf, backOf]
  split_ifs with hzero hfront hback
  · rfl
  · omega
  · rfl
  · rfl
  · rfl

theorem foldl_sgrStep (ps : List ℕ) (p : BitVec 16 × BitVec 16) :
    ps.foldl sgrStep p
      = ((ps.filterMap frontOf).getLast?.getD p.1, (ps.filterMap backOf).getLast?.getD p.2) := by
  have hstep : sgrStep = fun p n ↦ ((frontOf n).getD p.1, (backOf n).getD p.2) :=
    funext₂ sgrStep_eq
  have hpair := foldl_prod (fun b n ↦ (frontOf n).getD b) (fun b n ↦ (backOf n).getD b) ps p
  rw [hstep, hpair, foldl_overwrite, foldl_overwrite]

theorem foldl_reverse_sgrStep (ps : List ℕ) (p : BitVec 16 × BitVec 16) :
    ps.reverse.foldl sgrStep p
      = ((ps.filterMap frontOf).head?.getD p.1, (ps.filterMap backOf).head?.getD p.2) := by
  rw [foldl_sgrStep, List.filterMap_reverse, List.filterMap_reverse, List.getLast?_reverse,
    List.getLast?_reverse]

theorem getD_head?_eq_iff {α : Type*} (as : List α) (a : α) :
    as.head?.getD a = as.getLast?.getD a ↔ as.head? = as.getLast? := by
  rcases as with _ | ⟨b, as⟩
  · exact iff_of_true rfl rfl
  · rw [List.head?_cons, List.getLast?_cons]
    exact Option.some_inj.symm

/-- **The order of the parameters.** -/
theorem foldl_reverse_eq_iff (ps : List ℕ) (p : BitVec 16 × BitVec 16) :
    ps.reverse.foldl sgrStep p = ps.foldl sgrStep p ↔ OrderFree ps := by
  rw [foldl_reverse_sgrStep, foldl_sgrStep, Prod.mk.injEq, getD_head?_eq_iff, getD_head?_eq_iff,
    OrderFree]

/-! ## The loop -/

section Loop

variable {t u : Vt100} {ps : List ℕ}

theorem colorPair_setColor (n : ℕ) (t : Vt100) :
    (t.setColor n).colorPair = sgrStep t.colorPair n := by
  rcases eq_or_ne n 0 with rfl | hn
  · rfl
  · rw [setColor, sgrStep, if_neg hn, if_neg hn]
    split_ifs <;> rfl

theorem args_setColor (n : ℕ) (t : Vt100) : (t.setColor n).args = t.args := by
  obtain ⟨front, back, hcolor⟩ := setColor_eq n t
  rw [hcolor]

/-- The loop over the first `n` parameters, from the last to the first. -/
theorem setColorsLoop_eq (n : ℕ) : ∀ {u : Vt100}, (∀ i : Fin 4, (u.args i).toNat = ps.getD i 0) →
    n ≤ 4 → n ≤ ps.length → ∃ t', setColorsLoop n u = .done t' ∧
      t'.colorPair = (ps.take n).reverse.foldl sgrStep u.colorPair := by
  -- by the parameters that are left, whose last is taken first
  induction n with
  | zero => exact fun {u} _ _ _ ↦ ⟨u, rfl, rfl⟩
  | succ n ih =>
    intro u hargs hfour hlen
    have hlast : (u.args ⟨n, hfour⟩).toNat = ps[n] := by
      rw [hargs, List.getD_eq_getElem]
    obtain ⟨t', hdone, hcolors⟩ :=
      ih (u := ({ u with narg := BitVec.ofNat 8 n } : Vt100).setColor ps[n])
      (fun i ↦ by rw [args_setColor]; exact hargs i) (by omega) (by omega)
    refine ⟨t', ?_, ?_⟩
    · rw [setColorsLoop]
      dsimp only
      rw [dif_pos (show n < 4 from hfour), hlast]
      exact hdone
    · rw [hcolors, colorPair_setColor, List.take_succ_eq_append_getElem (by omega),
        List.reverse_append]
      rfl

/-- The parameters are applied from the last to the first. -/
theorem setColors_eq (hlen : ps.length ≤ 4) (hnarg : u.narg.toNat = ps.length)
    (hargs : ∀ i : Fin 4, (u.args i).toNat = ps.getD i 0) :
    ∃ t', u.setColors = .done t' ∧ t'.colorPair = sgr u.colorPair ps.reverse := by
  rw [setColors, hnarg, sgr]
  rcases eq_or_ne ps [] with rfl | hps
  · have hzero : u.narg = 0 := BitVec.eq_of_toNat_eq hnarg
    rw [if_pos hzero]
    exact ⟨_, rfl, rfl⟩
  · have hpos := List.length_pos_iff.mpr hps
    have hsome : u.narg ≠ 0 := fun hzero ↦ by
      rw [hzero] at hnarg
      exact absurd hnarg (ne_of_lt hpos)
    rw [if_neg hsome, if_neg (mt List.reverse_eq_nil_iff.mp hps)]
    obtain ⟨t', hdone, hcolors⟩ := setColorsLoop_eq ps.length hargs hlen le_rfl
    rw [List.take_length] at hcolors
    exact ⟨t', hdone, hcolors⟩

/-! ## The command -/

variable {ds : List (List (BitVec 8))}

/-- `CSI p₁;…;pₙ m` returns and sets the colours as it is meant to. -/
def SetsColors (t : Vt100) (ds : List (List (BitVec 8))) : Prop :=
  ∀ fuel, ∃ t', vt100Puts fuel t (csiHead ds ++ [ascii 'm']) = .done t' ∧
    t'.colorPair = sgr t.colorPair (params ds)

/-- The colours that the command sets. -/
theorem vt100Puts_setColors (hidle : t.state = .idle) (hfit : ds.length ≤ 4)
    (hdigits : ∀ d ∈ ds, d ≠ [] ∧ ∀ c ∈ d, isdigit c) :
    ∃ t', (∀ fuel, vt100Puts fuel t (csiHead ds ++ [ascii 'm']) = .done t') ∧
      t'.colorPair = sgr t.colorPair (params ds).reverse := by
  obtain ⟨u, ⟨state, retState, narg, args, rfl⟩, hnarg, hargs, hrun⟩ :=
    vt100Puts_command (c := ascii 'm') hidle hfit hdigits (by decide)
  have hlen : (params ds).length = ds.length := List.length_map ..
  obtain ⟨t', hdone, hcolors⟩ := setColors_eq (hlen.trans_le hfit) (hnarg.trans hlen.symm) hargs
  refine ⟨{ t' with state := .idle }, fun fuel ↦ ?_, hcolors⟩
  rw [hrun, csiBody.eq_def]
  change (setColors _).andThen _ = _
  rw [hdone]
  rfl

/-- **Setting colours.** The command applies its parameters from the last to the first; it sets the
colours that they mean from the first to the last exactly if the order does not matter. -/
theorem setsColors_iff (hidle : t.state = .idle) (hfit : ds.length ≤ 4)
    (hdigits : ∀ d ∈ ds, d ≠ [] ∧ ∀ c ∈ d, isdigit c) : SetsColors t ds ↔
      OrderFree (params ds) := by
  obtain ⟨t', hrun, hcolors⟩ := vt100Puts_setColors hidle hfit hdigits
  have hsets : SetsColors t ds ↔
      sgr t.colorPair (params ds).reverse = sgr t.colorPair (params ds) := by
    rw [← hcolors]
    constructor
    · intro h
      obtain ⟨u, hdone, hcolor⟩ := h 0
      rw [hrun] at hdone
      cases hdone
      exact hcolor
    · exact fun h fuel ↦ ⟨t', hrun fuel, h⟩
  rw [hsets, sgr, sgr]
  rcases eq_or_ne (params ds) [] with hnil | hps
  · rw [hnil]
    exact iff_of_true rfl ⟨rfl, rfl⟩
  · rw [if_neg hps, if_neg (mt List.reverse_eq_nil_iff.mp hps)]
    exact foldl_reverse_eq_iff _ _

/-- `ESC [ 31;42 m`. -/
theorem setsColors_iff_red_green : SetsColors (freshTerminal 80 24) [[51, 49], [52, 50]] :=
  (setsColors_iff rfl (by decide) (by decide)).mpr (by decide)

/-- `ESC [ 0;31 m` is meant to leave the front colour red. -/
theorem not_setsColors_reset : ¬SetsColors (freshTerminal 80 24) [[48], [51, 49]] := by
  intro h
  obtain ⟨u, hdone, hcolor⟩ := h 0
  obtain ⟨t', hrun, hcolors⟩ : ∃ t', (∀ fuel, vt100Puts fuel (freshTerminal 80 24)
      (csiHead [[48], [51, 49]] ++ [ascii 'm']) = .done t') ∧ _ :=
    vt100Puts_setColors rfl (by decide) (by decide)
  rw [hrun] at hdone
  cases hdone
  exact absurd (hcolors.symm.trans hcolor) (by decide)

end Loop

end Vt100

end Martink
