import Martink.Base.Outcome
import Martink.Base.Word

/-!
# The VT100 terminal

`vt100.c` is a state machine over the incoming bytes that keeps a cursor, a scroll region and the
parameters of the current control sequence, and prints by calls to a display. Printing at the right
margin moves the cursor down, moving down can scroll, scrolling clears lines, and clearing a line
prints blanks: the recursion of `putc` goes through `move`, `scroll` and `clearLines`. It need not
end, so `putc` takes the depth of the recursion it is allowed as `fuel`; the other three take the
`putc` they call.

Code runs to an `Outcome`. Besides running out of fuel it can be stuck on an index outside `args`
and on a division by zero, both of which C leaves undefined. `int` is 32 bits wide, so that the
conversions to `int16_t` and `uint16_t` are the only places where an intermediate result is cut.
-/

namespace Martink

/-! ## The display -/

inductive TtyCall
  | moveCursor (x y : BitVec 16)
  | put (ch : BitVec 8) (fg bg : BitVec 16)
  deriving DecidableEq

/-- The display device: the size it reports, and the calls it has received. -/
structure TtyDevice where
  /-- The number of columns. -/
  width : BitVec 16
  /-- The number of rows. -/
  height : BitVec 16
  /-- The calls, in order. -/
  calls : List TtyCall

def ttyPut (self : TtyDevice) (ch : BitVec 8) (fg bg : BitVec 16) : TtyDevice :=
  { self with calls := self.calls ++ [.put ch fg bg] }

def ttyMoveCursor (self : TtyDevice) (x y : BitVec 16) : TtyDevice :=
  { self with calls := self.calls ++ [.moveCursor x y] }

def ttyGetSize (self : TtyDevice) : BitVec 16 × BitVec 16 := (self.width, self.height)

/-! ## The terminal -/

/-- The state functions that `state` points to. -/
inductive Vt100State
  | idle | escape | escSqBracket | escQuestion | escHash | escLeftBr | escRightBr | commandArg
  deriving DecidableEq

/-- The state functions that `ret_state` points to. -/
inductive RetState
  | escSqBracket | escQuestion
  deriving DecidableEq

structure Vt100 where
  /-- Line wrap is on. -/
  cursorWrap : Bool
  /-- Positions count from the region. -/
  originMode : Bool
  /-- The display. -/
  display : TtyDevice
  /-- The column of the cursor. -/
  cursorX : BitVec 16
  /-- The row of the cursor. -/
  cursorY : BitVec 16
  /-- The column of the saved cursor. -/
  savedCursorX : BitVec 16
  /-- The row of the saved cursor. -/
  savedCursorY : BitVec 16
  /-- The first row of the scroll region. -/
  scrollStartRow : BitVec 16
  /-- The row behind the scroll region. -/
  scrollEndRow : BitVec 16
  /-- The colour of the background. -/
  backColor : BitVec 16
  /-- The colour of the characters. -/
  frontColor : BitVec 16
  /-- How far the region has scrolled. -/
  scrollValue : BitVec 16
  /-- The number of parameters. -/
  narg : BitVec 8
  /-- The parameters. -/
  args : Fin 4 → BitVec 16
  /-- The number of rows. -/
  screenHeight : BitVec 16
  /-- The number of columns. -/
  screenWidth : BitVec 16
  /-- What the next byte is read as. -/
  state : Vt100State
  /-- The state after a parameter. -/
  retState : Option RetState

inductive Vt100Fault
  | fuel | args | divZero
  deriving DecidableEq

abbrev Vt100Run := Outcome Vt100Fault Vt100

def ascii (c : Char) : BitVec 8 := BitVec.ofNat 8 c.toNat

def isdigit (c : BitVec 8) : Prop := 48 ≤ c.toNat ∧ c.toNat ≤ 57

instance (c : BitVec 8) : Decidable (isdigit c) := inferInstanceAs (Decidable (_ ∧ _))

namespace Vt100

def reset (self : Vt100) : Vt100 :=
  let size := ttyGetSize self.display
  { self with
    screenWidth := size.1, screenHeight := size.2
    backColor := 0x0000, frontColor := 0xffff
    cursorX := 0, cursorY := 0, savedCursorX := 0, savedCursorY := 0
    narg := 0, state := .idle, retState := none
    scrollValue := 0, scrollStartRow := 0, scrollEndRow := size.2
    cursorWrap := true, originMode := false }

def resetScroll (self : Vt100) : Vt100 :=
  { self with scrollStartRow := 0, scrollEndRow := self.screenHeight, scrollValue := 0 }

/-! ## Moving and printing -/

/-- The first half of `_vt100_move`: the new column, and the rows to move down. -/
def column (screenWidth : BitVec 16) (cursorWrap : Bool) (cursorX : BitVec 16)
    (rightLeft bottomTop : ℤ) : Option (BitVec 16 × ℤ) :=
  let newX := s16 (rightLeft + cursorX.toNat)
  let width := s16 screenWidth.toNat
  if width ≤ newX then
    if cursorWrap then
      if width = 0 then none
      else some (u16 (newX.tmod width), s16 (bottomTop + newX.tdiv width))
    else some (u16 newX, bottomTop)
  else if newX < 0 then
    if width = 0 then none
    else some (u16 (width - (newX.natAbs : ℤ).tmod width + 1),
      s16 (bottomTop + (newX.tdiv width - 1)))
  else some (u16 newX, bottomTop)

/-- The lines to scroll when the cursor moves to row `newY`, as the `uint16_t` they are kept in. -/
def toScroll (scrollStartRow scrollEndRow newY : BitVec 16) : BitVec 16 :=
  if scrollEndRow ≤ newY then u16 (newY.toNat - scrollEndRow.toNat + 1)
  else if newY < scrollStartRow then u16 (newY.toNat - scrollStartRow.toNat)
  else 0

/-- The row where the cursor is put before that. -/
def parkRow (scrollStartRow scrollEndRow newY : BitVec 16) : BitVec 16 :=
  if scrollEndRow ≤ newY then u16 (scrollEndRow.toNat - 1)
  else if newY < scrollStartRow then scrollStartRow
  else newY

section Move

variable (putc : BitVec 8 → Vt100 → Vt100Run)

/-- `n` blanks from the cursor on. -/
def blanks (n : ℕ) (self : Vt100) : Vt100Run := Outcome.forRange (fun _ ↦ putc (ascii ' ')) 0 n self

def clearLines (startLine endLine : BitVec 16) (self : Vt100) : Vt100Run :=
  (Outcome.forRange
      (fun c self ↦ blanks putc self.screenWidth.toNat { self with cursorY := u16 c, cursorX := 0 })
      startLine.toNat (endLine.toNat + 1 - startLine.toNat) self).andThen fun self ↦
    .done { self with cursorX := 0, cursorY := startLine }

/-- The end of `_vt100_scroll`: the scroll value becomes `lines % scroll_height`. -/
def setScrollValue (scrollHeight : BitVec 16) (lines : ℤ) (t : Vt100) : Vt100Run :=
  if scrollHeight = 0 then .stuck .divZero t
  else .done { t with scrollValue := u16 (lines.tmod scrollHeight.toNat) }

def scroll (lines : ℤ) (t : Vt100) : Vt100Run :=
  let scrollHeight := u16 (t.scrollEndRow.toNat - t.scrollStartRow.toNat)
  if 0 < lines then
    (clearLines putc t.scrollStartRow (u16 (t.scrollStartRow.toNat + lines - 1)) t).andThen fun t ↦
      setScrollValue scrollHeight (t.scrollValue.toNat + lines) t
  else if lines < 0 then
    (clearLines putc (u16 (t.scrollEndRow.toNat - lines))
      (u16 (t.scrollEndRow.toNat - 1)) t).andThen
      fun t ↦ setScrollValue scrollHeight (scrollHeight.toNat + t.scrollValue.toNat + lines) t
  else .done t

/-- The second half of `_vt100_move`. -/
def moveRow (bottomTop : ℤ) (term : Vt100) : Vt100Run :=
  if bottomTop = 0 then .done term
  else
    let newY := u16 (term.cursorY.toNat + bottomTop)
    scroll putc (s16 (toScroll term.scrollStartRow term.scrollEndRow newY).toNat)
      { term with cursorY := parkRow term.scrollStartRow term.scrollEndRow newY }

def move (rightLeft bottomTop : ℤ) (term : Vt100) : Vt100Run :=
  match column term.screenWidth term.cursorWrap term.cursorX rightLeft bottomTop with
  | none => .stuck .divZero term
  | some (cursorX, bottomTop) => moveRow putc bottomTop { term with cursorX := cursorX }

end Move

/-- The two display calls of `_vt100_putc`. -/
def draw (t : Vt100) (ch : BitVec 8) : Vt100 :=
  { t with
    display := ttyPut (ttyMoveCursor t.display t.cursorX t.cursorY) ch t.frontColor t.backColor }

def putc : ℕ → BitVec 8 → Vt100 → Vt100Run
  | 0, _, t => .stuck .fuel t
  | fuel + 1, ch, t => move (putc fuel) 1 0 (t.draw ch)

/-! ## Control sequences -/

/-- The final bytes of a control sequence that `_st_esc_sq_bracket` tells apart. -/
inductive Csi
  | cursorUp | cursorDown | cursorRight | cursorLeft | moveCursor | clearScreen | clearLine
  | deleteChars | saveCursor | restoreCursor | setColors | setScrollRegion | question | other
  deriving DecidableEq

def Csi.ofChar (arg : BitVec 8) : Csi :=
  if arg = ascii 'A' then .cursorUp
  else if arg = ascii 'B' then .cursorDown
  else if arg = ascii 'C' then .cursorRight
  else if arg = ascii 'D' then .cursorLeft
  else if arg = ascii 'f' ∨ arg = ascii 'H' then .moveCursor
  else if arg = ascii 'J' then .clearScreen
  else if arg = ascii 'K' then .clearLine
  else if arg = ascii 'P' then .deleteChars
  else if arg = ascii 's' then .saveCursor
  else if arg = ascii 'u' then .restoreCursor
  else if arg = ascii 'm' then .setColors
  else if arg = ascii 'r' then .setScrollRegion
  else if arg = ascii '?' then .question
  -- L, M, c, x, h, l, g, @, i, y, = and unknown sequences only go back to the idle state
  else .other

/-- The parameters that most commands look at. -/
def firstArg (term : Vt100) : BitVec 16 := term.args 0

def secondArg (term : Vt100) : BitVec 16 := term.args 1

/-- The default of a count: `(term->narg > 0)?term->args[0]:1`. -/
def count (term : Vt100) : ℕ := if 0 < term.narg then (term.args 0).toNat else 1

def moveUp (term : Vt100) : Vt100 :=
  let n := term.count
  { term with cursorY := if term.cursorY.toNat < n then 0 else u16 (term.cursorY.toNat - n) }

def moveDown (term : Vt100) : Vt100 :=
  let y := u16 (term.cursorY.toNat + term.count)
  { term with cursorY := if y > term.screenHeight then term.screenHeight else y }

def moveRight (term : Vt100) : Vt100 :=
  let x := u16 (term.cursorX.toNat + term.count)
  { term with cursorX := if x > term.screenWidth then term.screenWidth else x }

def moveLeft (term : Vt100) : Vt100 :=
  let n := term.count
  { term with cursorX := if term.cursorX.toNat < n then 0 else u16 (term.cursorX.toNat - n) }

/-- The row of `H` and `f`, before it is cut to the screen. -/
def targetRow (term : Vt100) : BitVec 16 :=
  let y := if term.narg = 2 then u16 ((term.args 0).toNat - 1) else 0
  if term.originMode then
    let y := u16 (y.toNat + term.scrollStartRow.toNat)
    if y ≥ term.scrollEndRow then u16 (term.scrollEndRow.toNat - 1) else y
  else y

def moveCursor (term : Vt100) : Vt100 :=
  let x := if 1 ≤ term.narg then u16 ((term.args 1).toNat - 1) else 0
  let y := term.targetRow
  { term with
    cursorX := if x > term.screenWidth then term.screenWidth else x
    cursorY := if y > term.screenHeight then term.screenHeight else y }

/-- The parameter of `J` and `K`: `0` also when there is none, and nothing for more than one. -/
def eraseArg (term : Vt100) : Option (BitVec 16) :=
  if term.narg = 0 then some 0 else if term.narg = 1 then some (term.args 0) else none

def clearScreen (fuel : ℕ) (term : Vt100) : Vt100Run :=
  if term.eraseArg = some 0 then clearLines (putc fuel) term.cursorY term.screenHeight term
  else if term.eraseArg = some 1 then clearLines (putc fuel) 0 term.cursorY term
  else if term.eraseArg = some 2 then
    (clearLines (putc fuel) 0 term.screenHeight term).andThen fun term ↦ .done term.resetScroll
  else .done term

def clearLine (fuel : ℕ) (term : Vt100) : Vt100Run :=
  let cx := term.cursorX
  let cy := term.cursorY
  let cleared :=
    if term.eraseArg = some 0 then
      blanks (putc fuel) (term.screenWidth.toNat - cx.toNat) term
    else if term.eraseArg = some 1 then blanks (putc fuel) cx.toNat { term with cursorX := 0 }
    else if term.eraseArg = some 2 then
      blanks (putc fuel) term.screenWidth.toNat { term with cursorX := 0 }
    else .done term
  cleared.andThen fun term ↦ .done { term with cursorX := cx, cursorY := cy }

def deleteChars (fuel : ℕ) (term : Vt100) : Vt100Run :=
  let n := term.count
  (move (putc fuel) (s16 (-n)) 0 term).andThen (blanks (putc fuel) n)

def colors : List (BitVec 16) :=
  [0x0000, 0xf800, 0x0780, 0xfe00, 0x001f, 0xf81f, 0x07ff, 0xffff]

def resetColors (term : Vt100) : Vt100 :=
  { term with frontColor := 0xffff, backColor := 0x0000 }

/-- The body of the loop of `m`, for one parameter. -/
def setColor (n : ℕ) (term : Vt100) : Vt100 :=
  let term := if n = 0 then term.resetColors else term
  if 30 ≤ n ∧ n < 38 then { term with frontColor := colors.getD (n - 30) 0 }
  else if 40 ≤ n ∧ n < 48 then { term with backColor := colors.getD (n - 40) 0 }
  else term

/-- The loop of `m`, which takes the parameters from the last to the first. -/
def setColorsLoop : ℕ → Vt100 → Vt100Run
  | 0, term => .done term
  | n + 1, term =>
    let term := { term with narg := BitVec.ofNat 8 n }
    if h : n < 4 then setColorsLoop n (term.setColor (term.args ⟨n, h⟩).toNat)
    else .stuck .args term

def setColors (term : Vt100) : Vt100Run :=
  setColorsLoop term.narg.toNat (if term.narg = 0 then term.resetColors else term)

def setScrollRegion (term : Vt100) : Vt100 :=
  if term.narg = 2 ∧ term.args 0 < term.args 1 then
    { term with
      scrollStartRow := u16 ((term.args 0).toNat - 1)
      scrollEndRow := u16 ((term.args 1).toNat - 1) }
  else term.resetScroll

/-- The body of each case of `_st_esc_sq_bracket`, without the change of state. -/
def csiBody (fuel : ℕ) (term : Vt100) : Csi → Vt100Run
  | .cursorUp => .done term.moveUp
  | .cursorDown => .done term.moveDown
  | .cursorRight => .done term.moveRight
  | .cursorLeft => .done term.moveLeft
  | .moveCursor => .done term.moveCursor
  | .clearScreen => term.clearScreen fuel
  | .clearLine => term.clearLine fuel
  | .deleteChars => term.deleteChars fuel
  | .saveCursor =>
    .done { term with savedCursorX := term.cursorX, savedCursorY := term.cursorY }
  | .restoreCursor =>
    .done { term with cursorX := term.savedCursorX, cursorY := term.savedCursorY }
  | .setColors => term.setColors
  | .setScrollRegion => .done term.setScrollRegion
  | .question => .done term
  | .other => .done term

def goto (state : Vt100State) (term : Vt100) : Vt100Run := .done { term with state := state }

/-- What `_st_command_arg` does with a digit. -/
def argDigit (arg : BitVec 8) (term : Vt100) : Vt100Run :=
  if h : term.narg.toNat < 4 then
    let i : Fin 4 := ⟨term.narg.toNat, h⟩
    .done { term with
      args := Function.update term.args i (u16 ((term.args i).toNat * 10 + (arg.toNat - 48))) }
  else .stuck .args term

/-- The state that `ret_state` points to. -/
def RetState.target : Option RetState → Vt100State
  | some .escSqBracket => .escSqBracket
  | some .escQuestion => .escQuestion
  | none => .idle

/-! ## The state functions -/

def stEscSqBracket (fuel : ℕ) (arg : BitVec 8) (term : Vt100) : Vt100Run :=
  if isdigit arg then
    (argDigit arg { term with retState := some .escSqBracket }).andThen (goto .commandArg)
  else if arg = ascii ';' then .done term
  else
    let csi := Csi.ofChar arg
    (term.csiBody fuel csi).andThen (goto (if csi = .question then .escQuestion else .idle))

/-- `CSI ? n h` and `CSI ? n l`. -/
def setMode (on : Bool) (term : Vt100) : Vt100 :=
  if term.args 0 = 6 then { term with originMode := on }
  else if term.args 0 = 7 then { term with cursorWrap := on }
  else term

def stEscQuestion (arg : BitVec 8) (term : Vt100) : Vt100Run :=
  if isdigit arg then
    (argDigit arg { term with retState := some .escQuestion }).andThen (goto .commandArg)
  else if arg = ascii ';' then .done term
  else if arg = ascii 'l' ∨ arg = ascii 'h' then goto .idle (term.setMode (arg = ascii 'h'))
  else goto .idle term

def stEscLeftBr (term : Vt100) : Vt100Run := goto .idle term

def stEscRightBr (term : Vt100) : Vt100Run := goto .idle term

def stEscHash (term : Vt100) : Vt100Run := goto .idle term

/-- The bytes after an escape that `_st_escape` tells apart. -/
inductive Esc
  | sqBracket | leftBr | rightBr | hash | down | up | nextLine | saveCursor | restoreCursor
  | reset | escape | other
  deriving DecidableEq

def Esc.ofChar (arg : BitVec 8) : Esc :=
  if arg = ascii '[' then .sqBracket
  else if arg = ascii '(' then .leftBr
  else if arg = ascii ')' then .rightBr
  else if arg = ascii '#' then .hash
  else if arg = ascii 'D' then .down
  else if arg = ascii 'M' then .up
  else if arg = ascii 'E' then .nextLine
  else if arg = ascii '7' ∨ arg = ascii 's' then .saveCursor
  else if arg = ascii '8' ∨ arg = ascii 'u' then .restoreCursor
  else if arg = ascii 'c' then .reset
  else if arg = 0x1b then .escape
  -- P, =, >, Z, H, N, O, < and unknown sequences only go back to the idle state
  else .other

def clearArgs (term : Vt100) : Vt100 := { term with narg := 0, args := fun _ ↦ 0 }

/-- The cases of `_st_escape`. -/
def escBody (fuel : ℕ) (term : Vt100) : Esc → Vt100Run
  | .sqBracket => goto .escSqBracket term.clearArgs
  | .leftBr => goto .escLeftBr term.clearArgs
  | .rightBr => goto .escRightBr term.clearArgs
  | .hash => goto .escHash term.clearArgs
  | .down => (move (putc fuel) 0 1 term).andThen (goto .idle)
  | .up => (move (putc fuel) 0 (-1) term).andThen (goto .idle)
  | .nextLine =>
    (move (putc fuel) 0 1 term).andThen fun term ↦ goto .idle { term with cursorX := 0 }
  | .saveCursor =>
    goto .idle { term with savedCursorX := term.cursorX, savedCursorY := term.cursorY }
  | .restoreCursor =>
    goto .idle { term with cursorX := term.savedCursorX, cursorY := term.savedCursorY }
  | .reset => goto .idle term.reset
  | .escape => .done term
  | .other => goto .idle term

def stEscape (fuel : ℕ) (arg : BitVec 8) (term : Vt100) : Vt100Run :=
  term.escBody fuel (Esc.ofChar arg)

/-- The bytes that `_st_idle` does not print. -/
inductive Control
  | ignore | newLine | carriageReturn | backspace | del | tab | escape | print
  deriving DecidableEq

def Control.ofChar (arg : BitVec 8) : Control :=
  if arg = 5 ∨ arg = 0x07 then .ignore
  else if arg = 0x0a then .newLine
  else if arg = 0x0d then .carriageReturn
  else if arg = 0x08 then .backspace
  else if arg = 0x7f then .del
  else if arg = 0x09 then .tab
  else if arg = 0x1b then .escape
  else .print

/-- The cases of `_st_idle`. -/
def controlBody (fuel : ℕ) (arg : BitVec 8) (term : Vt100) : Control → Vt100Run
  | .ignore => .done term
  | .newLine => (move (putc fuel) 0 1 term).andThen fun term ↦ .done { term with cursorX := 0 }
  | .carriageReturn => .done { term with cursorX := 0 }
  | .backspace => move (putc fuel) (-1) 0 term
  | .del => (putc fuel (ascii ' ') term).andThen (move (putc fuel) (-1) 0)
  | .tab => blanks (putc fuel) (4 - term.cursorX.toNat % 4) term
  | .escape => goto .escape term
  | .print => putc fuel arg term

def stIdle (fuel : ℕ) (arg : BitVec 8) (term : Vt100) : Vt100Run :=
  term.controlBody fuel arg (Control.ofChar arg)

def stCommandArg (fuel : ℕ) (arg : BitVec 8) (term : Vt100) : Vt100Run :=
  if isdigit arg then argDigit arg term
  else if arg = ascii ';' then .done { term with narg := term.narg + 1 }
  else
    -- the byte belongs to the state that the digits have interrupted
    let term := { term with narg := term.narg + 1, state := RetState.target term.retState }
    match term.retState with
    | some .escSqBracket => stEscSqBracket fuel arg term
    | some .escQuestion => stEscQuestion arg term
    | none => stIdle fuel arg term

end Vt100

/-! ## The interface -/

def vt100Init (self : Vt100) (display : TtyDevice) : Vt100 := { self with display := display }.reset

def vt100Putc (fuel : ℕ) (self : Vt100) (c : BitVec 8) : Vt100Run :=
  match self.state with
  | .idle => self.stIdle fuel c
  | .escape => self.stEscape fuel c
  | .escSqBracket => self.stEscSqBracket fuel c
  | .escQuestion => self.stEscQuestion c
  | .escHash => self.stEscHash
  | .escLeftBr => self.stEscLeftBr
  | .escRightBr => self.stEscRightBr
  | .commandArg => self.stCommandArg fuel c

/-- `vt100_puts`, on the bytes before the terminating zero. -/
def vt100Puts (fuel : ℕ) (self : Vt100) : List (BitVec 8) → Vt100Run
  | [] => .done self
  | c :: str => (vt100Putc fuel self c).andThen fun self ↦ vt100Puts fuel self str

theorem vt100Putc_control {t : Vt100} {c : BitVec 8} {k : Vt100.Control} (fuel : ℕ)
    (hidle : t.state = .idle) (hk : Vt100.Control.ofChar c = k) :
    vt100Putc fuel t c = t.controlBody fuel c k := by
  rw [vt100Putc, hidle, ← hk]
  rfl

/-- A terminal on a display of the given size, set up in memory of zeros. -/
def freshTerminal (width height : BitVec 16) : Vt100 :=
  let display : TtyDevice := ⟨width, height, []⟩
  vt100Init ⟨false, false, display, 0, 0, 0, 0, 0, 0, 0, 0, 0, 0, fun _ ↦ 0, 0, 0,
    .idle, none⟩ display

/-- `vt100_putc` returns in the state `t'`, for some depth of the recursion. -/
def Returns (t : Vt100) (c : BitVec 8) (t' : Vt100) : Prop := ∃ fuel, vt100Putc fuel t c = .done t'

end Martink
