import Mathlib.Data.List.GetD
import Martink.Tty.Vt100Args

/-!
# Reading the parameters of a control sequence

`_st_esc_sq_bracket` and `_st_command_arg` hand the bytes of `ESC [ d₁ ; … ; dₙ F` to each other
through `ret_state`. `Vt100.inList` is the state behind the numbers `ds`, the last of which may
still grow: a digit extends that number (`vt100Putc_digit`), a separator starts an empty one
(`vt100Putc_separator`), and any other byte is executed with the numbers as parameters
(`vt100Putc_final`). Nothing but the parser moves before that (`Vt100.Parses`).
-/

namespace Martink

/-! ## Numbers -/

/-- The value of a string of decimal digits. -/
def numeral (digits : List (BitVec 8)) : ℕ := digits.foldl (fun v c ↦ v * 10 + (c.toNat - 48)) 0

/-- The bytes of a control sequence with the parameters `ds`, up to its final byte. -/
def csiHead (ds : List (List (BitVec 8))) : List (BitVec 8) :=
  0x1b :: ascii '[' :: [ascii ';'].intercalate ds

theorem numeral_append (digits : List (BitVec 8)) (c : BitVec 8) :
    numeral (digits ++ [c]) = numeral digits * 10 + (c.toNat - 48) := by
  rw [numeral, List.foldl_append]
  rfl

/-- The number before the digit may already be cut. -/
theorem u16_digit (n : ℕ) {c : BitVec 8} (hdigit : isdigit c) :
    u16 ((u16 n).toNat * 10 + (c.toNat - 48)) = u16 ↑(n * 10 + (c.toNat - 48)) := by
  have hge := hdigit.1
  have hleft := toNat_u16 ((u16 n).toNat * 10 + (c.toNat - 48))
  apply BitVec.eq_of_toNat_eq
  simp only [toNat_u16_natCast] at hleft ⊢
  omega

namespace Vt100

/-- Only the parser has moved. -/
def Parses (t u : Vt100) : Prop :=
  ∃ state retState narg args,
    u = { t with state := state, retState := retState, narg := narg, args := args }

/-- The parameters as `args` keeps them. -/
def numbers (ds : List (List (BitVec 8))) : Fin 4 → BitVec 16 :=
  fun i ↦ u16 (numeral (ds.getD i []))

/-- The terminal behind the numbers `ds` of a control sequence that has begun in state `t`. -/
def inList (t : Vt100) (ds : List (List (BitVec 8))) : Vt100 :=
  { t with
    narg := BitVec.ofNat 8 (ds.length - 1), args := numbers ds
    state := .commandArg, retState := some .escSqBracket }

/-- The terminal as the final byte finds it. -/
def atFinal (t : Vt100) (ds : List (List (BitVec 8))) : Vt100 :=
  { t with
    narg := BitVec.ofNat 8 ds.length, args := numbers ds
    state := .escSqBracket, retState := some .escSqBracket }

theorem numbers_append_nil (ds : List (List (BitVec 8))) : numbers (ds ++ [[]]) = numbers ds := by
  funext i
  rw [numbers, numbers]
  rcases Nat.lt_or_ge i ds.length with hlt | hge
  · rw [List.getD_append _ _ _ _ hlt]
  · rw [List.getD_append_right _ _ _ _ hge, List.getD_eq_default _ _ hge]
    cases i.val - ds.length <;> rfl

theorem numbers_eq_ite (ds : List (List (BitVec 8))) (i : Fin 4) :
    (numbers ds i).toNat = if h : i.val < ds.length then numeral ds[i.val] % 2 ^ 16 else 0 := by
  rw [numbers, toNat_u16_natCast]
  split_ifs with hi
  · rw [List.getD_eq_getElem _ _ hi]
    rfl
  · rw [List.getD_eq_default _ _ (not_lt.mp hi)]
    rfl

section Steps

variable {fuel : ℕ} {t u : Vt100} {c : BitVec 8} {ds : List (List (BitVec 8))} {d : List (BitVec 8)}

theorem narg_inList (hds : ds ≠ []) :
    BitVec.ofNat 8 (ds.length - 1) + 1 = BitVec.ofNat 8 ds.length := by
  have hpos := List.length_pos_iff.mpr hds
  rw [← Nat.sub_add_cancel hpos, BitVec.ofNat_add]
  rfl

/-- A digit multiplies the last number by ten, in 16 bits. -/
theorem argDigit_numbers (hfit : ds.length < 4) (hdigit : isdigit c)
    (hnarg : u.narg = BitVec.ofNat 8 ds.length) (hargs : u.args = numbers (ds ++ [d])) :
    argDigit c u = .done { u with args := numbers (ds ++ [d ++ [c]]) } := by
  have hlen : u.narg.toNat = ds.length := by
    rw [hnarg, BitVec.toNat_ofNat]
    omega
  rw [argDigit, dif_pos (by omega)]
  dsimp only
  congr 2
  funext i
  rw [hargs, Function.update_apply]
  split_ifs with hi
  · have hval : i.val = ds.length := by rw [hi, ← hlen]
    have hlast : ∀ e : List (BitVec 8), (ds ++ [e]).getD ds.length [] = e := fun e ↦ by
      rw [List.getD_append_right _ _ _ _ le_rfl, Nat.sub_self]
      rfl
    rw [numbers, numbers, ← hi, hval, hlast, hlast, numeral_append, u16_digit _ hdigit]
  · have hne : i.val ≠ ds.length := fun hval ↦ hi (Fin.ext (hval.trans hlen.symm))
    rw [numbers, numbers]
    rcases Nat.lt_or_gt_of_ne hne with hlt | hgt
    · rw [List.getD_append _ _ _ _ hlt, List.getD_append _ _ _ _ hlt]
    · rw [List.getD_eq_default _ _ (by simp; omega), List.getD_eq_default _ _ (by simp; omega)]

/-- The first digit. -/
theorem vt100Putc_firstDigit (hdigit : isdigit c) :
    vt100Putc fuel { t.clearArgs with state := .escSqBracket } c = .done (t.inList [[c]]) := by
  have hempty : (fun _ ↦ 0 : Fin 4 → BitVec 16) = numbers ([] ++ [[]]) := by
    rw [numbers_append_nil]
    rfl
  rw [vt100Putc]
  dsimp only
  rw [stEscSqBracket, if_pos hdigit, argDigit_numbers (by decide) hdigit rfl hempty]
  rfl

theorem vt100Putc_digit (hfit : ds.length < 4) (hdigit : isdigit c) :
    vt100Putc fuel (t.inList (ds ++ [d])) c = .done (t.inList (ds ++ [d ++ [c]])) := by
  have hnarg : (t.inList (ds ++ [d])).narg = BitVec.ofNat 8 ds.length := by simp [inList]
  have hputc : vt100Putc fuel (t.inList (ds ++ [d])) c = argDigit c (t.inList (ds ++ [d])) :=
    if_pos hdigit
  rw [hputc, argDigit_numbers hfit hdigit hnarg rfl]
  simp [inList]

theorem vt100Putc_separator (hds : ds ≠ []) :
    vt100Putc fuel (t.inList ds) (ascii ';') = .done (t.inList (ds ++ [[]])) := by
  have hputc : vt100Putc fuel (t.inList ds) (ascii ';')
      = .done { t.inList ds with narg := BitVec.ofNat 8 (ds.length - 1) + 1 } := rfl
  rw [hputc, narg_inList hds]
  simp [inList, numbers_append_nil]

/-- The final byte is executed with the numbers as parameters, and leaves the control sequence. -/
theorem vt100Putc_final (hds : ds ≠ []) (hdigit : ¬isdigit c) (hsep : c ≠ ascii ';')
    (hquestion : c ≠ ascii '?') :
    vt100Putc fuel (t.inList ds) c
      = ((t.atFinal ds).csiBody fuel (Csi.ofChar c)).andThen (goto .idle) := by
  have hcsi : Csi.ofChar c ≠ .question := fun h ↦ hquestion ((csi_question_iff c).mp h)
  have hputc : vt100Putc fuel (t.inList ds) c = (t.inList ds).stCommandArg fuel c := rfl
  have hfinal : { t.inList ds with
      narg := (t.inList ds).narg + 1, state := RetState.target (t.inList ds).retState }
      = t.atFinal ds := by
    rw [atFinal, ← narg_inList hds]
    rfl
  rw [hputc, stCommandArg, if_neg hdigit, if_neg hsep, hfinal]
  change (t.atFinal ds).stEscSqBracket fuel c = _
  rw [stEscSqBracket, if_neg hdigit, if_neg hsep]
  dsimp only
  rw [if_neg hcsi]

end Steps

/-! ## Whole sequences -/

section Sequences

variable {fuel : ℕ} {t u : Vt100} {ds : List (List (BitVec 8))}

theorem vt100Puts_append (str str' : List (BitVec 8)) : ∀ t : Vt100,
    vt100Puts fuel t (str ++ str') = (vt100Puts fuel t str).andThen (vt100Puts fuel · str') := by
  induction str with
  | nil => exact fun t ↦ rfl
  | cons c str ih =>
    intro t
    rw [List.cons_append, vt100Puts, vt100Puts]
    cases vt100Putc fuel t c with
    | done u => exact ih u
    | stuck e u => rfl

theorem vt100Puts_digits (hfit : ds.length < 4) (digits : List (BitVec 8)) :
    ∀ d, (∀ c ∈ digits, isdigit c) →
      vt100Puts fuel (t.inList (ds ++ [d])) digits = .done (t.inList (ds ++ [d ++ digits])) := by
  induction digits with
  | nil =>
    intro d _
    rw [List.append_nil]
    rfl
  | cons c digits ih =>
    intro d hdigits
    obtain ⟨hc, hrest⟩ := List.forall_mem_cons.mp hdigits
    rw [vt100Puts, vt100Putc_digit hfit hc, Outcome.andThen_done, ih _ hrest, List.append_assoc]
    rfl

/-- The bytes that follow the beginning `d₀` of a number. -/
theorem vt100Puts_list (rest : List (List (BitVec 8))) : ∀ (ds : List (List (BitVec 8))) (d₀ d),
    ds.length + rest.length < 4 → (∀ c ∈ d, isdigit c) → (∀ e ∈ rest, ∀ c ∈ e, isdigit c) →
      vt100Puts fuel (t.inList (ds ++ [d₀])) ([ascii ';'].intercalate (d :: rest))
        = .done (t.inList (ds ++ (d₀ ++ d) :: rest)) := by
  induction rest with
  | nil =>
    intro ds d₀ d hfit hd _
    rw [List.intercalate_singleton]
    exact vt100Puts_digits hfit d d₀ hd
  | cons e rest ih =>
    intro ds d₀ d hfit hd hrest
    rw [List.length_cons] at hfit
    obtain ⟨he, hrest⟩ := List.forall_mem_cons.mp hrest
    have hnext := ih (ds ++ [d₀ ++ d]) [] e (by simp; omega) he hrest
    rw [List.intercalate_cons_cons, List.append_assoc, vt100Puts_append,
      vt100Puts_digits (by omega) d d₀ hd, Outcome.andThen_done, List.singleton_append, vt100Puts,
      vt100Putc_separator (by simp), Outcome.andThen_done, hnext, List.append_assoc]
    rfl

/-- **The parameters of a control sequence.** -/
theorem vt100Puts_csiHead (hidle : t.state = .idle) (hds : ds ≠ []) (hfit : ds.length ≤ 4)
    (hdigits : ∀ d ∈ ds, d ≠ [] ∧ ∀ c ∈ d, isdigit c) :
    vt100Puts fuel t (csiHead ds) = .done (t.inList ds) := by
  obtain ⟨d, rest, rfl⟩ := List.exists_cons_of_ne_nil hds
  obtain ⟨⟨hd, hcs⟩, hrest⟩ := List.forall_mem_cons.mp hdigits
  obtain ⟨c, cs, rfl⟩ := List.exists_cons_of_ne_nil hd
  obtain ⟨hc, hcs⟩ := List.forall_mem_cons.mp hcs
  have hescape : vt100Putc fuel t 0x1b = .done { t with state := .escape } :=
    vt100Putc_control fuel hidle rfl
  have hbracket : vt100Putc fuel { t with state := .escape } (ascii '[')
      = .done { t.clearArgs with state := .escSqBracket } := rfl
  have hlist : vt100Puts fuel (t.inList [[c]]) ([ascii ';'].intercalate (cs :: rest))
      = .done (t.inList ((c :: cs) :: rest)) :=
    vt100Puts_list rest [] [c] cs (by simpa using hfit) hcs fun e he ↦ (hrest e he).2
  rw [csiHead, vt100Puts, hescape, Outcome.andThen_done, vt100Puts, hbracket, Outcome.andThen_done,
    List.intercalate_cons_cons_left, vt100Puts, vt100Putc_firstDigit hc, Outcome.andThen_done]
  exact hlist

/-! ## Until the final byte -/

/-- The terminal reads the parameters of a control sequence that has begun in state `t`. -/
def Reads (t u : Vt100) : Prop := Parses t u ∧ (u.state = .escSqBracket ∨ u.state = .commandArg)

theorem parses_argDigit {c : BitVec 8} (h : Parses t u) :
    (argDigit c u).Sat (fun u' ↦ Parses t u' ∧ u'.state = u.state) fun _ _ ↦ True := by
  obtain ⟨state, retState, narg, args, rfl⟩ := h
  rw [argDigit]
  split_ifs
  · exact Outcome.sat_done ⟨⟨_, _, _, _, rfl⟩, rfl⟩
  · exact Outcome.sat_stuck trivial

/-- A digit or a separator moves nothing but the parser. -/
theorem reads_vt100Putc {c : BitVec 8} (hc : isdigit c ∨ c = ascii ';') (h : Reads t u) :
    (vt100Putc fuel u c).Sat (Reads t) fun _ _ ↦ True := by
  obtain ⟨hparses, hstate | hstate⟩ := h
  · have hret : Parses t { u with retState := some .escSqBracket } := by
      obtain ⟨state, retState, narg, args, rfl⟩ := hparses
      exact ⟨_, _, _, _, rfl⟩
    rw [vt100Putc, hstate]
    dsimp only
    rw [stEscSqBracket]
    rcases hc with hdigit | rfl
    · rw [if_pos hdigit]
      refine (parses_argDigit hret).andThen fun u' h' ↦ Outcome.sat_done ⟨?_, Or.inr rfl⟩
      obtain ⟨state, retState, narg, args, rfl⟩ := h'.1
      exact ⟨_, _, _, _, rfl⟩
    · rw [if_neg not_isdigit_sep, if_pos rfl]
      exact Outcome.sat_done ⟨hparses, Or.inl hstate⟩
  · rw [vt100Putc, hstate]
    dsimp only
    rw [stCommandArg]
    rcases hc with hdigit | rfl
    · rw [if_pos hdigit]
      exact (parses_argDigit hparses).mono (fun u' h' ↦ ⟨h'.1, Or.inr (h'.2.trans hstate)⟩)
        fun _ _ h' ↦ h'
    · rw [if_neg not_isdigit_sep, if_pos rfl]
      obtain ⟨state, retState, narg, args, rfl⟩ := hparses
      exact Outcome.sat_done ⟨⟨_, _, _, _, rfl⟩, Or.inr hstate⟩

theorem reads_vt100Puts (str : List (BitVec 8)) (hstr : ∀ c ∈ str, isdigit c ∨ c = ascii ';') :
    ∀ {u : Vt100}, Reads t u → (vt100Puts fuel u str).Sat (Reads t) fun _ _ ↦ True := by
  induction str with
  | nil => exact fun h ↦ Outcome.sat_done h
  | cons c str ih =>
    obtain ⟨hc, hrest⟩ := List.forall_mem_cons.mp hstr
    exact fun h ↦ (reads_vt100Putc hc h).andThen fun u' h' ↦ ih hrest h'

theorem mem_intercalate (hdigits : ∀ d ∈ ds, ∀ c ∈ d, isdigit c) :
    ∀ c ∈ [ascii ';'].intercalate ds, isdigit c ∨ c = ascii ';' := by
  induction ds with
  | nil => exact fun c hc ↦ absurd hc List.not_mem_nil
  | cons d ds ih =>
    obtain ⟨hd, hrest⟩ := List.forall_mem_cons.mp hdigits
    rcases ds with _ | ⟨e, ds⟩
    · rw [List.intercalate_singleton]
      exact fun c hc ↦ Or.inl (hd c hc)
    · rw [List.intercalate_cons_cons, List.forall_mem_append, List.forall_mem_append]
      refine ⟨⟨fun c hc ↦ Or.inl (hd c hc), fun c hc ↦ Or.inr (List.mem_singleton.mp hc)⟩, ?_⟩
      exact ih hrest

theorem vt100Puts_prefix {str str' : List (BitVec 8)} (hstr : str <+: str')
    (hdone : vt100Puts fuel t str' = .done u) : ∃ u', vt100Puts fuel t str = .done u' := by
  obtain ⟨rest, rfl⟩ := hstr
  rw [vt100Puts_append] at hdone
  rcases hstr : vt100Puts fuel t str with u' | ⟨e, u'⟩
  · exact ⟨u', rfl⟩
  · rw [hstr] at hdone
    cases hdone

/-- **Reading parameters.** No byte before the final one moves anything but the parser. -/
theorem parses_csiHead (hidle : t.state = .idle) (hds : ds ≠ []) (hfit : ds.length ≤ 4)
    (hdigits : ∀ d ∈ ds, d ≠ [] ∧ ∀ c ∈ d, isdigit c) {str : List (BitVec 8)}
    (hstr : str <+: csiHead ds) : ∃ u, vt100Puts fuel t str = .done u ∧ Parses t u := by
  have hhead : vt100Puts fuel t (csiHead ds) = .done (t.inList ds) :=
    vt100Puts_csiHead hidle hds hfit hdigits
  obtain ⟨u, hdone⟩ := vt100Puts_prefix hstr hhead
  refine ⟨u, hdone, ?_⟩
  have hescape : vt100Putc fuel t 0x1b = .done { t with state := .escape } :=
    vt100Putc_control fuel hidle rfl
  rw [csiHead, List.prefix_cons_iff] at hstr
  rcases hstr with rfl | ⟨str, rfl, hstr⟩
  · cases hdone
    exact ⟨_, _, _, _, rfl⟩
  rw [vt100Puts, hescape, Outcome.andThen_done] at hdone
  rw [List.prefix_cons_iff] at hstr
  rcases hstr with rfl | ⟨str, rfl, hstr⟩
  · cases hdone
    exact ⟨_, _, _, _, rfl⟩
  have hmem : ∀ c ∈ str, isdigit c ∨ c = ascii ';' :=
    fun c hc ↦ mem_intercalate (fun d hd ↦ (hdigits d hd).2) c (hstr.subset hc)
  have hreads : Reads t { t.clearArgs with state := .escSqBracket } :=
    ⟨⟨_, _, _, _, rfl⟩, Or.inl rfl⟩
  exact ((reads_vt100Puts str hmem hreads).of_done hdone).1

/-- The values of the numbers, in 16 bits. -/
def params (ds : List (List (BitVec 8))) : List ℕ := ds.map fun d ↦ numeral d % 2 ^ 16

theorem numbers_eq_params (ds : List (List (BitVec 8))) (i : Fin 4) :
    (numbers ds i).toNat = (params ds).getD i 0 := by
  rw [numbers, toNat_u16_natCast, params]
  rcases Nat.lt_or_ge i ds.length with hlt | hge
  · rw [List.getD_eq_getElem _ _ hlt, List.getD_eq_getElem _ _ (by rwa [List.length_map]),
      List.getElem_map]
    rfl
  · rw [List.getD_eq_default _ _ hge, List.getD_eq_default _ _ (by rwa [List.length_map])]
    rfl

/-- **Commands.** The state that the final byte is executed on, also when there is no number. -/
theorem vt100Puts_command {c : BitVec 8} (hidle : t.state = .idle) (hfit : ds.length ≤ 4)
    (hdigits : ∀ d ∈ ds, d ≠ [] ∧ ∀ c ∈ d, isdigit c)
    (hfinal : ¬isdigit c ∧ c ≠ ascii ';' ∧ c ≠ ascii '?') :
    ∃ u, Parses t u ∧ u.narg.toNat = ds.length ∧
      (∀ i : Fin 4, (u.args i).toNat = (params ds).getD i 0) ∧
      ∀ fuel, vt100Puts fuel t (csiHead ds ++ [c])
        = (u.csiBody fuel (Csi.ofChar c)).andThen (goto .idle) := by
  rcases eq_or_ne ds [] with rfl | hds
  · refine ⟨{ t.clearArgs with state := .escSqBracket }, ⟨_, _, _, _, rfl⟩, rfl, fun i ↦ rfl,
      fun fuel ↦ ?_⟩
    have hcsi : Csi.ofChar c ≠ .question := fun h ↦ hfinal.2.2 ((csi_question_iff c).mp h)
    have hescape : vt100Putc fuel t 0x1b = .done { t with state := .escape } :=
      vt100Putc_control fuel hidle rfl
    have hbracket : vt100Putc fuel { t with state := .escape } (ascii '[')
        = .done { t.clearArgs with state := .escSqBracket } := rfl
    have hlast : vt100Putc fuel { t.clearArgs with state := .escSqBracket } c
        = ({ t.clearArgs with state := .escSqBracket } : Vt100).stEscSqBracket fuel c := rfl
    rw [csiHead, List.intercalate_nil, List.cons_append, List.cons_append,
      List.nil_append, vt100Puts,
      hescape, Outcome.andThen_done, vt100Puts, hbracket, Outcome.andThen_done, vt100Puts, hlast,
      stEscSqBracket, if_neg hfinal.1, if_neg hfinal.2.1]
    dsimp only
    rw [if_neg hcsi]
    exact Outcome.andThen_done_right _
  · refine ⟨t.atFinal ds, ⟨_, _, _, _, rfl⟩, ?_, numbers_eq_params ds, fun fuel ↦ ?_⟩
    · rw [atFinal, BitVec.toNat_ofNat]
      omega
    · rw [vt100Puts_append, vt100Puts_csiHead hidle hds hfit hdigits,
        Outcome.andThen_done, vt100Puts, vt100Putc_final hds hfinal.1 hfinal.2.1 hfinal.2.2]
      exact Outcome.andThen_done_right _

/-- **The parameters of a control sequence.** The final byte is executed with as many parameters as
there are numbers, each with its value in 16 bits; nothing but the parser moves before that, and the
terminal is idle afterwards. -/
theorem vt100Puts_csi {c : BitVec 8} (fuel : ℕ) (hidle : t.state = .idle) (hds : ds ≠ [])
    (hfit : ds.length ≤ 4) (hdigits : ∀ d ∈ ds, d ≠ [] ∧ ∀ c ∈ d, isdigit c)
    (hfinal : ¬isdigit c ∧ c ≠ ascii ';' ∧ c ≠ ascii '?') :
    (∀ str, str <+: csiHead ds → ∃ u, vt100Puts fuel t str = .done u ∧ Parses t u) ∧
    (∃ u, Parses t u ∧ u.narg.toNat = ds.length ∧
      (∀ i : Fin 4, (u.args i).toNat
        = if h : i.val < ds.length then numeral ds[i.val] % 2 ^ 16 else 0) ∧
      vt100Puts fuel t (csiHead ds ++ [c])
        = (u.csiBody fuel (Csi.ofChar c)).andThen (goto .idle)) ∧
    ∀ t', vt100Puts fuel t (csiHead ds ++ [c]) = .done t' → t'.state = .idle := by
  have hlen : (t.atFinal ds).narg.toNat = ds.length := by
    rw [atFinal, BitVec.toNat_ofNat]
    omega
  have hrun : vt100Puts fuel t (csiHead ds ++ [c])
      = ((t.atFinal ds).csiBody fuel (Csi.ofChar c)).andThen (goto .idle) := by
    rw [vt100Puts_append, vt100Puts_csiHead hidle hds hfit hdigits, Outcome.andThen_done, vt100Puts,
      vt100Putc_final hds hfinal.1 hfinal.2.1 hfinal.2.2]
    exact Outcome.andThen_done_right _
  refine ⟨fun str ↦ parses_csiHead hidle hds hfit hdigits, ?_, fun t' hdone ↦ ?_⟩
  · exact ⟨t.atFinal ds, ⟨_, _, _, _, rfl⟩, hlen, numbers_eq_ite ds, hrun⟩
  · rw [hrun] at hdone
    have hidle' : (((t.atFinal ds).csiBody fuel (Csi.ofChar c)).andThen (goto .idle)).Sat
        (fun u ↦ u.state = .idle) fun _ _ ↦ True :=
      Outcome.Sat.andThen (Q := fun _ ↦ True) ⟨fun _ ↦ trivial, fun _ ↦ trivial⟩
        fun u _ ↦ Outcome.sat_done rfl
    exact hidle'.of_done hdone

/-- `ESC [ 007;65548 H` on a fresh terminal: the parameters are 7 and 12. -/
theorem vt100Puts_csi_moveCursor :
    ∃ u, Parses (freshTerminal 80 24) u ∧ u.narg.toNat = 2 ∧
      (u.args 0).toNat = 7 ∧ (u.args 1).toNat = 12 ∧ (u.args 2).toNat = 0 ∧
      vt100Puts 0 (freshTerminal 80 24)
        (csiHead [[48, 48, 55], [54, 53, 53, 52, 56]] ++ [ascii 'H'])
        = (u.csiBody 0 .moveCursor).andThen (goto .idle) := by
  have hidle : (freshTerminal 80 24).state = .idle := rfl
  have hds : [[48, 48, 55], [54, 53, 53, 52, 56]] ≠ ([] : List (List (BitVec 8))) := by decide
  have hfinal : ¬isdigit (ascii 'H') ∧ ascii 'H' ≠ ascii ';' ∧ ascii 'H' ≠ ascii '?' := by decide
  obtain ⟨u, hparses, hnarg, hargs, hrun⟩ :=
    (vt100Puts_csi 0 hidle hds (by decide) (by decide) hfinal).2.1
  exact ⟨u, hparses, hnarg, hargs 0, hargs 1, hargs 2, hrun⟩

end Sequences

end Vt100

end Martink
