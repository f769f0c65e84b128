import Martink.Tty.Vt100Moves

/-!
# The parameters of a control sequence

The terminal stores at most four parameters, and counts them in eight bits without a check. `scan`
reads the input alone: it follows the escape and control sequences, counts the parameters, and
rejects a byte that begins a digit of a fifth one, or sets colours with more than four.

`agrees_vt100Putc` compares the terminal with it byte by byte: as long as the scanner accepts, no
byte makes the terminal index outside `args`, whether it returns or not, and a byte that it rejects
makes it do so at once. `vt100Putc_args_iff` is the result for whole inputs.
-/

namespace Martink

open Vt100

/-! ## The scanner -/

/-- What the bytes read so far are part of. Inside a control sequence: whether it is private (after
`?`), whether a list of parameters has begun, and how many of them are complete. -/
inductive Phase
  | text | escape | charset
  | params (question inList : Bool) (n : ℕ)
  deriving DecidableEq

/-- The final byte of a control sequence with `n` parameters. -/
def scanFinal (question : Bool) (n : ℕ) (c : BitVec 8) : Option Phase :=
  if question then some .text
  else if c = ascii '?' then some (.params true false n)
  else if c = ascii 'm' ∧ 4 < n % 256 then none
  else some .text

def scan : Phase → BitVec 8 → Option Phase
  | .text, c => some (if c = 0x1b then .escape else .text)
  | .escape, c =>
    some (if c = ascii '[' then .params false false 0
      else if c = ascii '(' ∨ c = ascii ')' ∨ c = ascii '#' then .charset
      else if c = 0x1b then .escape
      else .text)
  | .charset, _ => some .text
  | .params question inList n, c =>
    if isdigit c then if n % 256 < 4 then some (.params question true n) else none
    else
      let n := if inList then n + 1 else n
      if c = ascii ';' then some (.params question inList n) else scanFinal question n c

/-- No control sequence of the input has too many parameters. -/
def argsFit (bytes : List (BitVec 8)) : Prop := (bytes.foldlM scan .text).isSome

instance (bytes : List (BitVec 8)) : Decidable (argsFit bytes) :=
  inferInstanceAs (Decidable (_ = true))

/-! ## Terminal and scanner -/

def returnState (question : Bool) : RetState := if question then .escQuestion else .escSqBracket

/-- The terminal is in the state that belongs to the phase. -/
def Matches (t : Vt100) : Phase → Prop
  | .text => t.state = .idle
  | .escape => t.state = .escape
  | .charset => t.state = .escHash ∨ t.state = .escLeftBr ∨ t.state = .escRightBr
  | .params question false n =>
    t.state = RetState.target (some (returnState question)) ∧ t.narg = BitVec.ofNat 8 n
  | .params question true n =>
    t.state = .commandArg ∧ t.retState = some (returnState question) ∧ t.narg = BitVec.ofNat 8 n

/-- The run and the verdict of the scanner: accepted bytes lead to a matching state and to no index
outside `args`, and a rejected byte to nothing else. -/
def Agrees (o : Vt100Run) : Option Phase → Prop
  | some p => o.Sat (fun t ↦ Matches t p) fun e _ ↦ e ≠ .args
  | none => ∃ t, o = .stuck .args t

section Bodies

variable {fuel : ℕ} {c : BitVec 8} {t : Vt100} {o : Vt100Run}

theorem agrees_of_frame (h : o.Sat (Frame t) fun e s ↦ e ≠ .args ∧ Frame t s)
    (hidle : t.state = .idle) : Agrees o (some .text) :=
  h.mono (fun _ h ↦ h.state.trans hidle) fun _ _ h ↦ h.1

theorem agrees_goto {p : Phase} {state : Vt100State} (h : o.Sat (fun _ ↦ True) fun e _ ↦ e ≠ .args)
    (hstate : ∀ t : Vt100, Matches { t with state := state } p) :
    Agrees (o.andThen (goto state)) (some p) :=
  h.andThen fun t _ ↦ Outcome.sat_done (hstate t)

theorem noArgs_of_frame (h : o.Sat (Frame t) fun e s ↦ e ≠ .args ∧ Frame t s) :
    o.Sat (fun _ ↦ True) fun e _ ↦ e ≠ .args :=
  h.mono (fun _ _ ↦ trivial) fun _ _ h ↦ h.1

theorem noArgs_done (t : Vt100) :
    (.done t : Vt100Run).Sat (fun _ ↦ True) fun e _ ↦ e ≠ .args := Outcome.sat_done trivial

/-- No body but that of `m` uses an index that depends on the number of parameters. -/
theorem noArgs_csiBody (csi : Csi) (hcsi : csi ≠ .setColors) :
    (t.csiBody fuel csi).Sat (fun _ ↦ True) fun e _ ↦ e ≠ .args := by
  have hlines := fun a b t ↦ noArgs_of_frame (frame_clearLines (frame_putc fuel) a b t)
  have hblanks := fun n t ↦ noArgs_of_frame (frame_blanks (frame_putc fuel) n t)
  cases csi with
  | clearScreen =>
    rw [csiBody, clearScreen]
    split_ifs
    · exact hlines _ _ _
    · exact hlines _ _ _
    · exact (hlines _ _ _).andThen fun t' _ ↦ noArgs_done _
    · exact noArgs_done _
  | clearLine =>
    rw [csiBody, clearLine]
    refine Outcome.Sat.andThen (Q := fun _ ↦ True) ?_ fun t' _ ↦ noArgs_done _
    split_ifs
    · exact hblanks _ _
    · exact hblanks _ _
    · exact hblanks _ _
    · exact noArgs_done _
  | deleteChars =>
    exact (noArgs_of_frame (frame_move (frame_putc fuel) _ _ t)).andThen fun t' _ ↦ hblanks _ _
  | setColors => exact absurd rfl hcsi
  | cursorUp | cursorDown | cursorRight | cursorLeft | moveCursor | saveCursor | restoreCursor
  | setScrollRegion | question | other => exact noArgs_done _

/-- The loop of `m` meets its parameters if there are at most four, and fails at once otherwise. -/
theorem setColorsLoop_of_le {n : ℕ} (hn : n ≤ 4) :
    ∀ t : Vt100, ∃ t', setColorsLoop n t = .done t' := by
  induction n with
  | zero => exact fun t ↦ ⟨t, rfl⟩
  | succ n ih =>
    intro t
    rw [setColorsLoop, dif_pos (by omega : n < 4)]
    exact ih (by omega) _

theorem setColorsLoop_of_lt {n : ℕ} (hn : 4 < n) (t : Vt100) :
    ∃ t', setColorsLoop n t = .stuck .args t' := by
  obtain ⟨m, rfl⟩ : ∃ m, n = m + 1 := Nat.exists_eq_add_of_le' (by omega)
  exact ⟨_, by rw [setColorsLoop, dif_neg (by omega)]⟩

theorem csi_setColors_iff (c : BitVec 8) : Csi.ofChar c = .setColors ↔ c = ascii 'm' := by
  revert c
  decide

theorem csi_question_iff (c : BitVec 8) : Csi.ofChar c = .question ↔ c = ascii '?' := by
  revert c
  decide

theorem control_escape_iff (c : BitVec 8) : Control.ofChar c = .escape ↔ c = 0x1b := by
  revert c
  decide

/-! ## One byte -/

theorem agrees_argDigit (question : Bool) {n : ℕ} (hnarg : t.narg = BitVec.ofNat 8 n)
    (hret : t.retState = some (returnState question)) :
    Agrees ((argDigit c t).andThen (goto .commandArg))
      (if n % 256 < 4 then some (.params question true n) else none) := by
  have hn : t.narg.toNat = n % 256 := by rw [hnarg, BitVec.toNat_ofNat]
  rw [argDigit]
  split_ifs with hlt hfit hfit
  · exact Outcome.sat_done ⟨rfl, hret, hnarg⟩
  · omega
  · omega
  · exact ⟨t, rfl⟩

theorem agrees_stIdle (h : t.state = .idle) : Agrees (t.stIdle fuel c) (scan .text c) := by
  have hputc := frame_putc fuel
  have htext : Control.ofChar c ≠ .escape → scan .text c = some .text := by
    intro hne
    rw [scan, if_neg fun hc ↦ hne ((control_escape_iff c).mpr hc)]
  rw [stIdle]
  rcases hc : Control.ofChar c <;> rw [controlBody]
  · rw [htext (by simp [hc])]
    exact agrees_of_frame (Outcome.sat_done (Frame.refl t)) h
  · rw [htext (by simp [hc])]
    refine agrees_of_frame (Outcome.Sat.andThen (frame_move hputc 0 1 t) fun t' ht' ↦ ?_) h
    exact Outcome.sat_done (ht'.trans (Frame.cursor t' 0 t'.cursorY))
  · rw [htext (by simp [hc])]
    exact agrees_of_frame (Outcome.sat_done (Frame.cursor t 0 t.cursorY)) h
  · rw [htext (by simp [hc])]
    exact agrees_of_frame (frame_move hputc (-1) 0 t) h
  · rw [htext (by simp [hc])]
    exact agrees_of_frame ((hputc _ t).andThen fun t' ht' ↦ ht'.sat (frame_move hputc (-1) 0 t')) h
  · rw [htext (by simp [hc])]
    exact agrees_of_frame (frame_blanks hputc _ t) h
  · rw [scan, if_pos ((control_escape_iff c).mp hc)]
    exact Outcome.sat_done rfl
  · rw [htext (by simp [hc])]
    exact agrees_of_frame (hputc c t) h

theorem agrees_stEscape (h : t.state = .escape) : Agrees (t.stEscape fuel c) (scan .escape c) := by
  have hmove := fun dx dy ↦ noArgs_of_frame (frame_move (frame_putc fuel) dx dy t)
  have hscan : ∀ c, scan .escape c = some (match Esc.ofChar c with
      | .sqBracket => .params false false 0
      | .leftBr | .rightBr | .hash => .charset
      | .escape => .escape
      | _ => .text) := by
    decide
  rw [stEscape, hscan]
  rcases Esc.ofChar c <;> rw [escBody]
  · exact Outcome.sat_done ⟨rfl, rfl⟩
  · exact Outcome.sat_done (Or.inr (Or.inl rfl))
  · exact Outcome.sat_done (Or.inr (Or.inr rfl))
  · exact Outcome.sat_done (Or.inl rfl)
  · exact agrees_goto (hmove 0 1) fun _ ↦ rfl
  · exact agrees_goto (hmove 0 (-1)) fun _ ↦ rfl
  · exact (hmove 0 1).andThen fun _ _ ↦ Outcome.sat_done rfl
  · exact Outcome.sat_done rfl
  · exact Outcome.sat_done rfl
  · exact Outcome.sat_done rfl
  · exact Outcome.sat_done h
  · exact Outcome.sat_done rfl

/-- The final byte of a control sequence that is not private. -/
theorem agrees_csi {n : ℕ} (hnarg : t.narg = BitVec.ofNat 8 n) :
    Agrees ((t.csiBody fuel (Csi.ofChar c)).andThen
      (goto (if Csi.ofChar c = .question then .escQuestion else .idle))) (scanFinal false n c) := by
  rw [scanFinal, if_neg Bool.false_ne_true]
  by_cases hquestion : Csi.ofChar c = .question
  · rw [if_pos hquestion, if_pos ((csi_question_iff c).mp hquestion), hquestion]
    exact Outcome.sat_done ⟨rfl, hnarg⟩
  rw [if_neg hquestion, if_neg fun hc ↦ hquestion ((csi_question_iff c).mpr hc)]
  by_cases hcolors : Csi.ofChar c = .setColors
  · have hn : t.narg.toNat = n % 256 := by rw [hnarg, BitVec.toNat_ofNat]
    rw [hcolors, csiBody, setColors, hn]
    rcases Nat.lt_or_ge 4 (n % 256) with hmany | hfew
    · obtain ⟨t', ht'⟩ := setColorsLoop_of_lt hmany (if t.narg = 0 then t.resetColors else t)
      rw [ht', if_pos ⟨(csi_setColors_iff c).mp hcolors, hmany⟩]
      exact ⟨t', rfl⟩
    · obtain ⟨t', ht'⟩ := setColorsLoop_of_le hfew (if t.narg = 0 then t.resetColors else t)
      rw [ht', if_neg fun h ↦ absurd h.2 (by omega)]
      exact Outcome.sat_done rfl
  · rw [if_neg fun h ↦ hcolors ((csi_setColors_iff c).mpr h.1)]
    exact agrees_goto (noArgs_csiBody _ hcolors) fun _ ↦ rfl

section Params

variable {question inList : Bool} {n : ℕ}

theorem not_isdigit_sep : ¬isdigit (ascii ';') := by decide

theorem scan_digit (h : isdigit c) :
    scan (.params question inList n) c
      = if n % 256 < 4 then some (.params question true n) else none := by
  rw [scan, if_pos h]

theorem scan_sep :
    scan (.params question inList n) (ascii ';')
      = some (.params question inList (if inList then n + 1 else n)) := by
  rw [scan, if_neg not_isdigit_sep]
  exact if_pos rfl

theorem scan_final (h : ¬isdigit c) (hsep : c ≠ ascii ';') :
    scan (.params question inList n) c
      = scanFinal question (if inList then n + 1 else n) c := by
  rw [scan, if_neg h]
  exact if_neg hsep

theorem agrees_stEscSqBracket_final (h : ¬isdigit c) (hsep : c ≠ ascii ';')
    (hnarg : t.narg = BitVec.ofNat 8 n) :
    Agrees (t.stEscSqBracket fuel c) (scanFinal false n c) := by
  rw [stEscSqBracket, if_neg h, if_neg hsep]
  exact agrees_csi hnarg

theorem agrees_stEscQuestion_final (h : ¬isdigit c) (hsep : c ≠ ascii ';') :
    Agrees (t.stEscQuestion c) (scanFinal true n c) := by
  rw [stEscQuestion, if_neg h, if_neg hsep]
  split_ifs
  · exact Outcome.sat_done rfl
  · exact Outcome.sat_done rfl

theorem agrees_stEscSqBracket (hnarg : t.narg = BitVec.ofNat 8 n) (h : t.state = .escSqBracket) :
    Agrees (t.stEscSqBracket fuel c) (scan (.params false false n) c) := by
  by_cases hdigit : isdigit c
  · rw [stEscSqBracket, if_pos hdigit, scan_digit hdigit]
    exact agrees_argDigit false hnarg rfl
  by_cases hsep : c = ascii ';'
  · rw [stEscSqBracket, if_neg hdigit, if_pos hsep, hsep, scan_sep]
    exact Outcome.sat_done ⟨h, hnarg⟩
  · rw [scan_final hdigit hsep]
    exact agrees_stEscSqBracket_final hdigit hsep hnarg

theorem agrees_stEscQuestion (hnarg : t.narg = BitVec.ofNat 8 n) (h : t.state = .escQuestion) :
    Agrees (t.stEscQuestion c) (scan (.params true false n) c) := by
  by_cases hdigit : isdigit c
  · rw [stEscQuestion, if_pos hdigit, scan_digit hdigit]
    exact agrees_argDigit true hnarg rfl
  by_cases hsep : c = ascii ';'
  · rw [stEscQuestion, if_neg hdigit, if_pos hsep, hsep, scan_sep]
    exact Outcome.sat_done ⟨h, hnarg⟩
  · rw [scan_final hdigit hsep]
    exact agrees_stEscQuestion_final hdigit hsep

theorem agrees_stCommandArg (hnarg : t.narg = BitVec.ofNat 8 n)
    (hret : t.retState = some (returnState question)) (h : t.state = .commandArg) :
    Agrees (t.stCommandArg fuel c) (scan (.params question true n) c) := by
  have hnext : t.narg + 1 = BitVec.ofNat 8 (n + 1) := by
    rw [hnarg, BitVec.ofNat_add]
    rfl
  by_cases hdigit : isdigit c
  · have hstay : (argDigit c t).andThen (goto .commandArg) = argDigit c t := by
      rw [argDigit]
      split_ifs
      · rw [Outcome.andThen_done, goto, ← h]
      · rfl
    rw [stCommandArg, if_pos hdigit, scan_digit hdigit, ← hstay]
    exact agrees_argDigit question hnarg hret
  by_cases hsep : c = ascii ';'
  · rw [stCommandArg, if_neg hdigit, if_pos hsep, hsep, scan_sep]
    exact Outcome.sat_done ⟨h, hret, hnext⟩
  · rw [stCommandArg, if_neg hdigit, if_neg hsep, scan_final hdigit hsep]
    dsimp only
    rw [hret]
    cases question with
    | false => exact agrees_stEscSqBracket_final hdigit hsep hnext
    | true => exact agrees_stEscQuestion_final hdigit hsep

end Params

/-- **One byte.** Terminal and scanner agree on it. -/
theorem agrees_vt100Putc {p : Phase} (h : Matches t p) :
    Agrees (vt100Putc fuel t c) (scan p c) := by
  rcases p with _ | _ | _ | ⟨question, inList, n⟩
  · have hidle : t.state = .idle := h
    rw [vt100Putc, hidle]
    exact agrees_stIdle hidle
  · have hescape : t.state = .escape := h
    rw [vt100Putc, hescape]
    exact agrees_stEscape hescape
  · rcases h with hstate | hstate | hstate
    · rw [vt100Putc, hstate]
      exact Outcome.sat_done rfl
    · rw [vt100Putc, hstate]
      exact Outcome.sat_done rfl
    · rw [vt100Putc, hstate]
      exact Outcome.sat_done rfl
  · cases inList with
    | false =>
      obtain ⟨hstate, hnarg⟩ := h
      cases question with
      | false =>
        have hsq : t.state = .escSqBracket := hstate
        rw [vt100Putc, hsq]
        exact agrees_stEscSqBracket hnarg hsq
      | true =>
        have hquestion : t.state = .escQuestion := hstate
        rw [vt100Putc, hquestion]
        exact agrees_stEscQuestion hnarg hquestion
    | true =>
      obtain ⟨hstate, hret, hnarg⟩ := h
      rw [vt100Putc, hstate]
      exact agrees_stCommandArg hnarg hret hstate

end Bodies

/-! ## Whole inputs -/

theorem scan_of_path {t t' : Vt100} {p : Phase} {bytes : List (BitVec 8)}
    (hrun : Path Returns t bytes t') (h : Matches t p) :
    ∃ p', bytes.foldlM scan p = some p' ∧ Matches t' p' := by
  refine Path.scans (R := Matches) (fun t c t' p hmatch hreturns ↦ ?_) hrun h
  obtain ⟨fuel, hdone⟩ := hreturns
  have hagrees : Agrees (vt100Putc fuel t c) (scan p c) := agrees_vt100Putc hmatch
  rcases hscan : scan p c with _ | p'
  · rw [hscan] at hagrees
    obtain ⟨s, hstuck⟩ := hagrees
    rw [hdone] at hstuck
    cases hstuck
  · rw [hscan] at hagrees
    exact ⟨p', rfl, hagrees.of_done hdone⟩

/-- **The parameters stay inside `args` exactly on inputs that the scanner accepts.** After any
input that the terminal has processed, the next byte makes it index outside `args`, for some depth
of the recursion, exactly when the input with that byte has a control sequence with too many
parameters. -/
theorem vt100Putc_args_iff {self t : Vt100} {display : TtyDevice} {bytes : List (BitVec 8)}
    (hrun : Path Returns (vt100Init self display) bytes t) (c : BitVec 8) :
    (∀ fuel t', vt100Putc fuel t c ≠ .stuck .args t') ↔ argsFit (bytes ++ [c]) := by
  obtain ⟨p, hscan, hmatch⟩ := scan_of_path (p := .text) hrun rfl
  have hfit : argsFit (bytes ++ [c]) ↔ (scan p c).isSome = true := by
    rw [argsFit, List.foldlM_append, hscan]
    simp
  rw [hfit]
  have hagrees : ∀ fuel, Agrees (vt100Putc fuel t c) (scan p c) := fun _ ↦ agrees_vt100Putc hmatch
  rcases hnext : scan p c with _ | p'
  · simp only [hnext] at hagrees
    obtain ⟨t', hstuck⟩ := hagrees 0
    exact iff_of_false (fun h ↦ h 0 t' hstuck) (by simp)
  · simp only [hnext] at hagrees
    exact iff_of_true (fun fuel t' hstuck ↦ (hagrees fuel).of_stuck hstuck rfl) rfl

/-- After one parameter a second one may begin. -/
theorem vt100Putc_args_second : ∃ t,
    Path Returns (freshTerminal 80 24) [0x1b, ascii '[', ascii '1', ascii ';'] t ∧
      ∀ fuel t', vt100Putc fuel t (ascii '2') ≠ .stuck .args t' := by
  have hrun : ∃ t, Path Returns (freshTerminal 80 24) [0x1b, ascii '[', ascii '1', ascii ';'] t :=
    ⟨_, .cons ⟨0, rfl⟩ (.cons ⟨0, rfl⟩ (.cons ⟨0, rfl⟩ (.cons ⟨0, rfl⟩ (.nil _))))⟩
  obtain ⟨t, ht⟩ := hrun
  exact ⟨t, ht, (vt100Putc_args_iff ht (ascii '2')).mpr (by decide)⟩

/-- `ESC [ 1;1;1;1;1`: the digit of the fifth parameter. -/
theorem vt100Puts_fifth_parameter :
    ∃ t, vt100Puts 0 (freshTerminal 80 24) [0x1b, ascii '[', ascii '1', ascii ';', ascii '1',
      ascii ';', ascii '1', ascii ';', ascii '1', ascii ';', ascii '1'] = .stuck .args t :=
  ⟨_, rfl⟩

end Martink
