import Martink.Tty.Vt100Moves

/-!
# What a byte does

Most bytes of the input belong to the parser. `action` tells which case of which state function a
byte executes, and on which state: a control character, a byte after an escape, or the final byte of
a control sequence; `performs_action` is the inversion of `vt100_putc` that goes with it.

`SettingsRule` is what has to be shown of a property of the settings for every byte to keep it.
`Wellformed` collects what holds of the settings in every run (`wellformed_reached`): the sizes
agree with the display's, and the scroll region starts above its end, unless a start row of `0 - 1`
has been set.
-/

namespace Martink

namespace Vt100

/-! ## Actions -/

/-- A case of a state function, and the state that it is executed on. -/
inductive Action
  | control (term : Vt100) (k : Control)
  | esc (term : Vt100) (k : Esc)
  | csi (term : Vt100) (k : Csi)
  /-- The byte only changes the parser and the modes. -/
  | parse

def action (t : Vt100) (c : BitVec 8) : Action :=
  match t.state with
  | .idle => .control t (Control.ofChar c)
  | .escape => .esc t (Esc.ofChar c)
  | .escSqBracket =>
    if isdigit c ∨ c = ascii ';' then .parse else .csi t (Csi.ofChar c)
  | .commandArg =>
    if isdigit c ∨ c = ascii ';' then .parse
    else
      let t := { t with narg := t.narg + 1, state := RetState.target t.retState }
      match t.retState with
      | some .escSqBracket => .csi t (Csi.ofChar c)
      | some .escQuestion => .parse
      | none => .control t (Control.ofChar c)
  | .escQuestion | .escHash | .escLeftBr | .escRightBr => .parse

/-- The terminal without what the parser changes. -/
def screen (t : Vt100) : Vt100 :=
  { t with
    cursorWrap := false, originMode := false, narg := 0, args := fun _ ↦ 0
    state := .idle, retState := none }

def SameScreen (t t' : Vt100) : Prop := t'.screen = t.screen

namespace SameScreen

variable {t t' : Vt100}

theorem cursorX (h : SameScreen t t') : t'.cursorX = t.cursorX := congrArg (fun u ↦ u.cursorX) h

theorem cursorY (h : SameScreen t t') : t'.cursorY = t.cursorY := congrArg (fun u ↦ u.cursorY) h

theorem savedCursorX (h : SameScreen t t') : t'.savedCursorX = t.savedCursorX :=
  congrArg (fun u ↦ u.savedCursorX) h

theorem savedCursorY (h : SameScreen t t') : t'.savedCursorY = t.savedCursorY :=
  congrArg (fun u ↦ u.savedCursorY) h

theorem screenWidth (h : SameScreen t t') : t'.screenWidth = t.screenWidth :=
  congrArg (fun u ↦ u.screenWidth) h

theorem screenHeight (h : SameScreen t t') : t'.screenHeight = t.screenHeight :=
  congrArg (fun u ↦ u.screenHeight) h

theorem scrollStartRow (h : SameScreen t t') : t'.scrollStartRow = t.scrollStartRow :=
  congrArg (fun u ↦ u.scrollStartRow) h

theorem scrollEndRow (h : SameScreen t t') : t'.scrollEndRow = t.scrollEndRow :=
  congrArg (fun u ↦ u.scrollEndRow) h

theorem scrollValue (h : SameScreen t t') : t'.scrollValue = t.scrollValue :=
  congrArg (fun u ↦ u.scrollValue) h

theorem display (h : SameScreen t t') : t'.display = t.display := congrArg (fun u ↦ u.display) h

end SameScreen

/-- The fault of a digit for which `args` has no room. -/
def NoRoom (t : Vt100) (c : BitVec 8) (e : Vt100Fault) (s : Vt100) : Prop :=
  e = .args ∧ SameScreen t s ∧ isdigit c ∧ 4 ≤ t.narg.toNat

/-- What it means that `c` performs an action. -/
def Performs (fuel : ℕ) (t : Vt100) (c : BitVec 8) : Action → Prop
  | .control u k =>
    SameScreen t u ∧ u.cursorWrap = t.cursorWrap ∧ vt100Putc fuel t c = u.controlBody fuel c k
  | .esc u k => SameScreen t u ∧ u.cursorWrap = t.cursorWrap ∧ vt100Putc fuel t c = u.escBody fuel k
  | .csi u k =>
    SameScreen t u ∧ u.cursorWrap = t.cursorWrap ∧ vt100Putc fuel t c
      = (u.csiBody fuel k).andThen (goto (if k = .question then .escQuestion else .idle))
  | .parse => (vt100Putc fuel t c).Sat (SameScreen t) (NoRoom t c)

section Parse

variable {fuel : ℕ} {t u : Vt100} {c : BitVec 8} {X : Vt100Fault → Vt100 → Prop}

theorem parse_goto (h : SameScreen t u) (state : Vt100State) :
    (goto state u).Sat (SameScreen t) X :=
  Outcome.sat_done h

theorem parse_argDigit (h : SameScreen t u) (hnarg : u.narg = t.narg) (hdigit : isdigit c) :
    (argDigit c u).Sat (SameScreen t) (NoRoom t c) := by
  rw [argDigit]
  split_ifs with hfit
  · exact Outcome.sat_done h
  · rw [hnarg, not_lt] at hfit
    exact Outcome.sat_stuck ⟨rfl, h, hdigit, hfit⟩

theorem parse_stEscQuestion (h : SameScreen t u) (hnarg : isdigit c → u.narg = t.narg) :
    (u.stEscQuestion c).Sat (SameScreen t) (NoRoom t c) := by
  rw [stEscQuestion]
  split_ifs with hdigit
  · exact (parse_argDigit (u := { u with retState := some .escQuestion }) h (hnarg hdigit)
      hdigit).andThen fun u' h' ↦ parse_goto h' _
  · exact Outcome.sat_done h
  · refine parse_goto ?_ _
    rw [setMode]
    split_ifs
    · exact h
    · exact h
    · exact h
  · exact parse_goto h _

/-- **The inversion of `vt100_putc`.** -/
theorem performs_action : Performs fuel t c (action t c) := by
  have hsame : SameScreen t t := rfl
  rw [action]
  rcases hstate : t.state
  · exact ⟨hsame, rfl, by rw [vt100Putc, hstate]; rfl⟩
  · exact ⟨hsame, rfl, by rw [vt100Putc, hstate]; rfl⟩
  · dsimp only
    split_ifs with hparse
    · rw [Performs, vt100Putc, hstate]
      dsimp only
      rw [stEscSqBracket]
      rcases hparse with hdigit | hsep
      · rw [if_pos hdigit]
        exact (parse_argDigit (u := { t with retState := some .escSqBracket }) hsame rfl
          hdigit).andThen fun u h ↦ parse_goto h _
      · rw [if_neg (by rw [hsep]; decide), if_pos hsep]
        exact Outcome.sat_done hsame
    · rw [not_or] at hparse
      refine ⟨hsame, rfl, ?_⟩
      rw [vt100Putc, hstate]
      dsimp only
      rw [stEscSqBracket, if_neg hparse.1, if_neg hparse.2]
  · rw [Performs, vt100Putc, hstate]
    exact parse_stEscQuestion hsame fun _ ↦ rfl
  · rw [Performs, vt100Putc, hstate]
    exact parse_goto hsame _
  · rw [Performs, vt100Putc, hstate]
    exact parse_goto hsame _
  · rw [Performs, vt100Putc, hstate]
    exact parse_goto hsame _
  · dsimp only
    have hnext : SameScreen t { t with narg := t.narg + 1, state := RetState.target t.retState } :=
      rfl
    split_ifs with hparse
    · rw [Performs, vt100Putc, hstate]
      dsimp only
      rw [stCommandArg]
      rcases hparse with hdigit | hsep
      · rw [if_pos hdigit]
        exact parse_argDigit hsame rfl hdigit
      · rw [if_neg (by rw [hsep]; decide), if_pos hsep]
        exact Outcome.sat_done hsame
    · rw [not_or] at hparse
      have hputc : vt100Putc fuel t c = t.stCommandArg fuel c := by rw [vt100Putc, hstate]
      rw [stCommandArg, if_neg hparse.1, if_neg hparse.2] at hputc
      dsimp only at hputc
      rcases hret : t.retState with _ | _ | _
      · rw [hret] at hputc hnext
        exact ⟨hnext, rfl, hputc⟩
      · rw [hret] at hputc hnext
        refine ⟨hnext, rfl, hputc.trans ?_⟩
        dsimp only
        rw [stEscSqBracket, if_neg hparse.1, if_neg hparse.2]
      · rw [hret] at hputc hnext
        rw [Performs, hputc]
        exact parse_stEscQuestion hnext fun hdigit ↦ absurd hdigit hparse.1

end Parse

/-- The action does not index outside `args`, if it is what the byte `c` does in state `t`. -/
def Action.ArgsFit (t : Vt100) (c : BitVec 8) : Action → Prop
  | .csi u k => k = .setColors → u.narg.toNat ≤ 4
  | .parse => isdigit c → t.narg.toNat < 4
  | .control .. | .esc .. => True

instance (t : Vt100) (c : BitVec 8) : DecidablePred (Action.ArgsFit t c)
  | .csi _ _ => inferInstanceAs (Decidable (_ → _))
  | .parse => inferInstanceAs (Decidable (_ → _))
  | .control .. | .esc .. => .isTrue trivial

/-- The byte does not make the terminal index outside `args`. -/
def ArgsFit (t : Vt100) (c : BitVec 8) : Prop := (action t c).ArgsFit t c

instance (t : Vt100) (c : BitVec 8) : Decidable (ArgsFit t c) :=
  inferInstanceAs (Decidable ((action t c).ArgsFit t c))

/-! ## What every byte keeps -/

section Rule

variable {I : Vt100 → Prop} {t : Vt100} {fuel : ℕ} {c : BitVec 8}

theorem setColor_eq (n : ℕ) (t : Vt100) :
    ∃ front back, t.setColor n = { t with frontColor := front, backColor := back } := by
  rw [setColor]
  split_ifs <;> exact ⟨_, _, rfl⟩

/-- `m` changes the colours and uses up the parameters, if there are at most four. -/
theorem setColors_sat (t : Vt100) :
    t.setColors.Sat (fun t' ↦ ∃ n front back,
      t' = { t with narg := n, frontColor := front, backColor := back })
      fun e t' ↦ e = .args ∧ 4 < t.narg.toNat ∧ t'.display = t.display := by
  have hloop : ∀ n (u : Vt100),
      (∃ m front back, u = { t with narg := m, frontColor := front, backColor := back }) →
        (setColorsLoop n u).Sat (fun t' ↦ ∃ m front back,
          t' = { t with narg := m, frontColor := front, backColor := back })
          fun e t' ↦ e = .args ∧ 4 < n ∧ t'.display = t.display := by
    intro n
    induction n with
    | zero => exact fun u hu ↦ Outcome.sat_done hu
    | succ n ih =>
      rintro u ⟨m, front, back, rfl⟩
      rw [setColorsLoop]
      split_ifs with hfit
      · obtain ⟨front', back', hcolor⟩ := setColor_eq (t.args ⟨n, hfit⟩).toNat
          { t with narg := BitVec.ofNat 8 n, frontColor := front, backColor := back }
        exact (ih _ ⟨BitVec.ofNat 8 n, front', back', hcolor⟩).mono (fun _ h ↦ h)
          fun _ _ h ↦ ⟨h.1, Nat.lt_succ_of_lt h.2.1, h.2.2⟩
      · exact Outcome.sat_stuck ⟨rfl, Nat.lt_succ_of_le (not_lt.mp hfit), rfl⟩
  rw [setColors]
  refine hloop _ _ ?_
  split_ifs
  · exact ⟨t.narg, _, _, rfl⟩
  · exact ⟨t.narg, t.frontColor, t.backColor, rfl⟩

/-- A property of the settings that every byte keeps, as long as the bytes that save the cursor and
that reset the terminal do. -/
structure SettingsRule (I : Vt100 → Prop) : Prop where
  /-- Drawing keeps it. -/
  frame : ∀ {t u}, I t → Frame t u → I u
  /-- So does what leaves the settings alone. -/
  sameScreen : ∀ {t u}, I t → SameScreen t u → I u
  /-- Colours and parameters do not matter to it. -/
  colors : ∀ {t} n front back, I t → I { t with narg := n, frontColor := front, backColor := back }
  /-- Resetting the region keeps it. -/
  resetScroll : ∀ {t}, I t → I t.resetScroll
  /-- So does setting it. -/
  setScrollRegion : ∀ {t}, I t → I t.setScrollRegion

/-- The terminal after a save of the cursor. -/
def saveCursor (t : Vt100) : Vt100 :=
  { t with savedCursorX := t.cursorX, savedCursorY := t.cursorY }

namespace SettingsRule

theorem sat {o : Vt100Run} (rule : SettingsRule I) (h : I t)
    (ho : o.Sat (Frame t) fun e s ↦ e ≠ .args ∧ Frame t s) : o.Sat I fun _ _ ↦ True :=
  ho.mono (fun _ ↦ rule.frame h) fun _ _ _ ↦ trivial

theorem cursor (rule : SettingsRule I) (x y : BitVec 16) (h : I t) :
    I { t with cursorX := x, cursorY := y } := rule.frame h (Frame.cursor t x y)

theorem goto (rule : SettingsRule I) (h : I t) (state : Vt100State) :
    (goto state t).Sat I fun _ _ ↦ True :=
  Outcome.sat_done (rule.sameScreen h rfl)

theorem controlBody (rule : SettingsRule I) (h : I t) (k : Control) :
    (t.controlBody fuel c k).Sat I fun _ _ ↦ True := by
  have hputc := frame_putc fuel
  have hcolumn : ∀ {t}, I t → I { t with cursorX := 0 } := fun {t} h ↦ rule.cursor 0 t.cursorY h
  cases k with
  | ignore => exact Outcome.sat_done h
  | newLine =>
    rw [Vt100.controlBody]
    exact (rule.sat h (frame_move hputc 0 1 t)).andThen fun t' h' ↦ Outcome.sat_done (hcolumn h')
  | carriageReturn => exact Outcome.sat_done (hcolumn h)
  | backspace => exact rule.sat h (frame_move hputc (-1) 0 t)
  | del => exact (rule.sat h (hputc _ t)).andThen fun t' h' ↦
      rule.sat h' (frame_move hputc (-1) 0 t')
  | tab => exact rule.sat h (frame_blanks hputc _ t)
  | escape => exact rule.goto h _
  | print => exact rule.sat h (hputc c t)

theorem escBody (rule : SettingsRule I) (h : I t) {k : Esc}
    (hsave : k = .saveCursor → I t.saveCursor) (hreset : k = .reset → I t.reset) :
    (t.escBody fuel k).Sat I fun _ _ ↦ True := by
  have hmove := fun dx dy ↦ rule.sat h (frame_move (frame_putc fuel) dx dy t)
  cases k with
  | down =>
    rw [Vt100.escBody]
    exact (hmove 0 1).andThen fun t' h' ↦ rule.goto h' _
  | up =>
    rw [Vt100.escBody]
    exact (hmove 0 (-1)).andThen fun t' h' ↦ rule.goto h' _
  | nextLine =>
    rw [Vt100.escBody]
    exact (hmove 0 1).andThen fun t' h' ↦ rule.goto (rule.cursor 0 t'.cursorY h') _
  | saveCursor => exact rule.goto (hsave rfl) _
  | restoreCursor => exact rule.goto (rule.cursor _ _ h) _
  | reset => exact rule.goto (hreset rfl) _
  | escape => exact Outcome.sat_done h
  | sqBracket | leftBr | rightBr | hash | other => exact Outcome.sat_done (rule.sameScreen h rfl)

theorem csiBody (rule : SettingsRule I) (h : I t) {k : Csi}
    (hsave : k = .saveCursor → I t.saveCursor) : (t.csiBody fuel k).Sat I fun _ _ ↦ True := by
  have hputc := frame_putc fuel
  cases k with
  | clearScreen =>
    rw [Vt100.csiBody, clearScreen]
    split_ifs
    · exact rule.sat h (frame_clearLines hputc _ _ t)
    · exact rule.sat h (frame_clearLines hputc _ _ t)
    · exact (rule.sat h (frame_clearLines hputc _ _ t)).andThen
        fun t' h' ↦ Outcome.sat_done (rule.resetScroll h')
    · exact Outcome.sat_done h
  | clearLine =>
    rw [Vt100.csiBody, clearLine]
    refine Outcome.Sat.andThen (Q := I) ?_ fun t' h' ↦ Outcome.sat_done (rule.cursor _ _ h')
    have hhome := rule.cursor 0 t.cursorY h
    split_ifs
    · exact rule.sat h (frame_blanks hputc _ t)
    · exact rule.sat hhome (frame_blanks hputc _ _)
    · exact rule.sat hhome (frame_blanks hputc _ _)
    · exact Outcome.sat_done h
  | deleteChars =>
    rw [Vt100.csiBody, deleteChars]
    exact (rule.sat h (frame_move hputc _ _ t)).andThen
      fun t' h' ↦ rule.sat h' (frame_blanks hputc _ t')
  | setColors =>
    refine (setColors_sat t).mono ?_ fun _ _ _ ↦ trivial
    rintro t' ⟨n, front, back, rfl⟩
    exact rule.colors n front back h
  | setScrollRegion => exact Outcome.sat_done (rule.setScrollRegion h)
  | cursorUp => exact Outcome.sat_done (rule.cursor t.cursorX _ h)
  | cursorDown => exact Outcome.sat_done (rule.cursor t.cursorX _ h)
  | cursorRight => exact Outcome.sat_done (rule.cursor _ t.cursorY h)
  | cursorLeft => exact Outcome.sat_done (rule.cursor _ t.cursorY h)
  | moveCursor => exact Outcome.sat_done (rule.cursor _ _ h)
  | restoreCursor => exact Outcome.sat_done (rule.cursor _ _ h)
  | saveCursor => exact Outcome.sat_done (hsave rfl)
  | question | other => exact Outcome.sat_done h

/-- **A byte** keeps what the rule is about, if a save or a reset that it executes does. -/
theorem vt100Putc (rule : SettingsRule I) (h : I t)
    (hsave : ∀ u, (action t c = .esc u .saveCursor ∨ action t c = .csi u .saveCursor) → I u →
      I u.saveCursor)
    (hreset : ∀ u, action t c = .esc u .reset → I u → I u.reset) :
    (vt100Putc fuel t c).Sat I fun _ _ ↦ True := by
  have hperforms : Performs fuel t c (action t c) := performs_action
  rcases hact : action t c with ⟨u, k⟩ | ⟨u, k⟩ | ⟨u, k⟩ | _ <;> rw [hact] at hperforms
  · rw [hperforms.2.2]
    exact rule.controlBody (rule.sameScreen h hperforms.1) k
  · have hu := rule.sameScreen h hperforms.1
    rw [hperforms.2.2]
    refine rule.escBody hu ?_ ?_
    · rintro rfl
      exact hsave u (Or.inl hact) hu
    · rintro rfl
      exact hreset u hact hu
  · have hu := rule.sameScreen h hperforms.1
    rw [hperforms.2.2]
    refine Outcome.Sat.andThen (rule.csiBody hu ?_) fun t' h' ↦ rule.goto h' _
    rintro rfl
    exact hsave u (Or.inr hact) hu
  · exact Outcome.Sat.mono hperforms (fun _ hsame ↦ rule.sameScreen h hsame) fun _ _ _ ↦ trivial

end SettingsRule

end Rule

/-! ## Settings in every run -/

/-- Sizes and scroll region as every run keeps them, on a display of `w` columns and `h` rows. -/
structure Wellformed (w h : BitVec 16) (t : Vt100) : Prop where
  /-- The terminal has the columns. -/
  screenWidth : t.screenWidth = w
  /-- The terminal has the rows. -/
  screenHeight : t.screenHeight = h
  /-- The display has the columns. -/
  width : t.display.width = w
  /-- The display has the rows. -/
  height : t.display.height = h
  /-- The region has a row, or begins in the last row there can be. -/
  region : t.scrollStartRow.toNat < t.scrollEndRow.toNat ∨
    t.scrollStartRow.toNat = 65535 ∧ t.scrollEndRow.toNat < 65535

section Wellformed

variable {w h : BitVec 16} {t u : Vt100} {o : Vt100Run} {fuel : ℕ}

theorem Wellformed.of_frame (hwf : Wellformed w h t) (hframe : Frame t u) : Wellformed w h u where
  screenWidth := hframe.screenWidth.trans hwf.screenWidth
  screenHeight := hframe.screenHeight.trans hwf.screenHeight
  width := hframe.width.trans hwf.width
  height := hframe.height.trans hwf.height
  region := by
    rw [hframe.scrollStartRow, hframe.scrollEndRow]
    exact hwf.region

theorem Wellformed.of_sameScreen (hwf : Wellformed w h t) (hsame : SameScreen t u) :
    Wellformed w h u where
  screenWidth := hsame.screenWidth.trans hwf.screenWidth
  screenHeight := hsame.screenHeight.trans hwf.screenHeight
  width := (congrArg TtyDevice.width hsame.display).trans hwf.width
  height := (congrArg TtyDevice.height hsame.display).trans hwf.height
  region := by
    rw [hsame.scrollStartRow, hsame.scrollEndRow]
    exact hwf.region

theorem wellformed_resetScroll (hh : 1 ≤ h.toNat) (hwf : Wellformed w h t) :
    Wellformed w h t.resetScroll where
  screenWidth := hwf.screenWidth
  screenHeight := hwf.screenHeight
  width := hwf.width
  height := hwf.height
  region := by
    left
    rw [resetScroll, hwf.screenHeight]
    exact hh

theorem wellformed_reset (hh : 1 ≤ h.toNat) (hw : t.display.width = w)
    (hheight : t.display.height = h) : Wellformed w h t.reset where
  screenWidth := hw
  screenHeight := hheight
  width := hw
  height := hheight
  region := by
    left
    rw [reset, ttyGetSize, hheight]
    exact hh

theorem wellformed_setScrollRegion (hh : 1 ≤ h.toNat) (hwf : Wellformed w h t) :
    Wellformed w h t.setScrollRegion := by
  rw [setScrollRegion]
  split_ifs with hset
  · have hlt := BitVec.lt_def.mp hset.2
    have hstart := toNat_u16 ((t.args 0).toNat - 1)
    have hend := toNat_u16_of_lt (z := (t.args 1).toNat - 1) (by omega) (by omega)
    refine ⟨hwf.screenWidth, hwf.screenHeight, hwf.width, hwf.height, ?_⟩
    dsimp only
    omega
  · exact wellformed_resetScroll hh hwf

/-- Whatever the case of a byte does, a well-formed terminal stays so. -/
theorem wellformed_rule (hh : 1 ≤ h.toNat) : SettingsRule (Wellformed w h) where
  frame hwf hframe := hwf.of_frame hframe
  sameScreen hwf hsame := hwf.of_sameScreen hsame
  colors _ _ _ hwf := ⟨hwf.1, hwf.2, hwf.3, hwf.4, hwf.5⟩
  resetScroll hwf := wellformed_resetScroll hh hwf
  setScrollRegion hwf := wellformed_setScrollRegion hh hwf

/-- Every byte keeps the settings well formed. -/
theorem wellformed_vt100Putc (hh : 1 ≤ h.toNat) (hwf : Wellformed w h t) (c : BitVec 8) :
    (vt100Putc fuel t c).Sat (Wellformed w h) fun _ _ ↦ True :=
  (wellformed_rule hh).vt100Putc hwf (fun _ _ hwf' ↦ ⟨hwf'.1, hwf'.2, hwf'.3, hwf'.4, hwf'.5⟩)
    fun _ _ hwf' ↦ wellformed_reset hh hwf'.width hwf'.height

theorem wellformed_init (self : Vt100) {display : TtyDevice} (hh : 1 ≤ display.height.toNat) :
    Wellformed display.width display.height (vt100Init self display) :=
  wellformed_reset hh rfl rfl

theorem wellformed_of_returns (hh : 1 ≤ h.toNat) {c : BitVec 8} (hwf : Wellformed w h t)
    (hreturns : Returns t c u) : Wellformed w h u := by
  obtain ⟨fuel, hdone⟩ := hreturns
  have hsat : (vt100Putc fuel t c).Sat (Wellformed w h) fun _ _ ↦ True :=
    wellformed_vt100Putc hh hwf c
  exact hsat.of_done hdone

/-- **The settings in every run.** -/
theorem wellformed_reached {self : Vt100} {display : TtyDevice}
    {cond : Vt100 → BitVec 8 → Prop} (hh : 1 ≤ display.height.toNat)
    (hrun : Reached Returns cond (vt100Init self display) t) :
    Wellformed display.width display.height t :=
  hrun.invariant (wellformed_init self hh) fun _ _ _ hwf _ ↦ wellformed_of_returns hh hwf

end Wellformed

/-! ## Runs that can be computed -/

section Meets

variable {cond : Vt100 → BitVec 8 → Prop} {fuel : ℕ} {start : Vt100}

/-- The bytes meet `cond` one after the other, and are processed. -/
def Meets (cond : Vt100 → BitVec 8 → Prop) (fuel : ℕ) : Vt100 → List (BitVec 8) → Prop
  | _, [] => True
  | t, c :: str => cond t c ∧
    match vt100Putc fuel t c with
    | .done t' => Meets cond fuel t' str
    | .stuck _ _ => False

instance Meets.decidable [∀ t c, Decidable (cond t c)] : ∀ t str, Decidable (Meets cond fuel t str)
  | _, [] => .isTrue trivial
  | t, c :: str =>
    have : Decidable (match vt100Putc fuel t c with
        | .done t' => Meets cond fuel t' str
        | .stuck _ _ => False) :=
      match vt100Putc fuel t c with
      | .done t' => Meets.decidable t' str
      | .stuck _ _ => .isFalse id
    inferInstanceAs (Decidable (_ ∧ _))

theorem reached_of_meets (fuel : ℕ) (str : List (BitVec 8)) : ∀ {t : Vt100},
    Reached Returns cond start t →
    Meets cond fuel t str → Reached Returns cond start (vt100Puts fuel t str).state := by
  induction str with
  | nil => exact fun h _ ↦ h
  | cons c str ih =>
    rintro t h ⟨hcond, hmeets⟩
    rw [vt100Puts]
    rcases hdone : vt100Putc fuel t c with t' | ⟨e, t'⟩
    · rw [hdone] at hmeets
      exact ih (h.step hcond ⟨fuel, hdone⟩) hmeets
    · rw [hdone] at hmeets
      exact hmeets.elim

end Meets

end Vt100

end Martink
