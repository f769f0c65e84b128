import Martink.Base.Outcome
import Martink.Disp.Ks0713

/-!
# The calls of the LCD driver

The rest of `ks0713.c`: the power-up sequence, the backlight, and the drawing calls, which change
the frame buffer and nothing else. The frame buffer has 1024 bytes; storing or reading past its end
or past the end of the font is undefined and ends in `none`.

The two drawing loops run under a fuel, so `none` may also mean that a call does not return with it.
They are written over any way to plot a pixel; the driver plots with `writePixel`.

`backlightRequest` is what a list of calls asks of the backlight, and `portState_of_runCalls` says
that bit 13 of `port_state`, and so of every word sent, carries it through any calls.
-/

namespace Martink

/-- `ks0713_pixel_op_t`. -/
inductive PixelOp where
  | none
  | set
  | clr
  | xor

namespace Ks0713

variable {σ : Type}

/-! ## Pixels and text -/

/-- Change the byte of the frame buffer at index `n`. -/
def modifyByte (d : Ks0713 σ) (n : ℕ) (f : BitVec 8 → BitVec 8) : Option (Ks0713 σ) :=
  if h : n < ks0713Width * ks0713Height / 8 then
    some { d with lcdBuffer := d.lcdBuffer.set n (f d.lcdBuffer[n]) }
  else none

def writePixel (d : Ks0713 σ) (x y : BitVec 8) (op : PixelOp) : Option (Ks0713 σ) :=
  if ks0713Width < x.toNat ∨ ks0713Height < y.toNat then some d
  else
    let n := x.toNat + (y.toNat / 8) * ks0713Width
    let bit : BitVec 8 := 1 <<< (y.toNat % 8)
    match op with
    | .none => some d
    | .clr => modifyByte d n fun b ↦ b &&& ~~~bit
    | .set => modifyByte d n fun b ↦ b ||| bit
    | .xor => modifyByte d n fun b ↦ b ^^^ bit

def moveCursor (d : Ks0713 σ) (x y : BitVec 8) : Ks0713 σ :=
  if ks0713Height < y.toNat * 8 + 8 then d
  else if ks0713Width < x.toNat * 6 + 6 then d
  else { d with cursorX := x.setWidth 16, cursorY := y.setWidth 16 }

/-- `_ks0713_move_cursor` cuts the coordinates of the terminal to bytes. -/
def ttyMoveCursor (d : Ks0713 σ) (x y : BitVec 16) : Ks0713 σ :=
  moveCursor d (x.setWidth 8) (y.setWidth 8)

def clear (d : Ks0713 σ) : Ks0713 σ := { d with lcdBuffer := Vector.replicate _ 0 }

/-- `_ks0713_put`, with the bytes of the font. -/
def put (font : List (BitVec 8)) (d : Ks0713 σ) (ch : BitVec 8) : Option (Ks0713 σ) := do
  let x := (d.cursorX * 6).toNat
  let y := (d.cursorY * 8).toNat
  let d ← (List.range 5).foldlM (fun d j ↦ do
    let glyph ← font[ch.toNat * 5 + j]?
    modifyByte d (x + j + (y / 8) * ks0713Width) fun _ ↦ glyph) d
  modifyByte d (x + 6 + (y / 8) * ks0713Width + 1) fun _ ↦ 0

/-! ## Lines and rectangles -/

section Shapes

variable {τ : Type} (plot : τ → BitVec 8 → BitVec 8 → Option τ)

/-- The loop of `ks0713_draw_line`. The coordinates are of type `int8_t`. -/
def drawLineLoop (x1 y1 : BitVec 8) (dx dy : ℤ) (sx sy : BitVec 8) :
    ℕ → BitVec 8 → BitVec 8 → ℤ → τ → Option τ
  | 0, _, _, _, _ => none
  | fuel + 1, x0, y0, err, t => do
    let t ← plot t x0 y0
    if x0 = x1 ∧ y0 = y1 then return t
    else
      let e2 := err
      let (err, x0) := if e2 > -dx then (err - dy, x0 + sx) else (err, x0)
      let (err, y0) := if e2 < dy then (err + dx, y0 + sy) else (err, y0)
      drawLineLoop x1 y1 dx dy sx sy fuel x0 y0 err t

def drawLine (fuel : ℕ) (x0 y0 x1 y1 : BitVec 8) (t : τ) : Option τ :=
  let dx : ℤ := |x1.toInt - x0.toInt|
  let sx : BitVec 8 := if x0.toInt < x1.toInt then 1 else -1
  let dy : ℤ := |y1.toInt - y0.toInt|
  let sy : BitVec 8 := if y0.toInt < y1.toInt then 1 else -1
  drawLineLoop plot x1 y1 dx dy sx sy fuel x0 y0 ((if dx > dy then dx else -dy).tdiv 2) t

/-- The inner loop of `ks0713_draw_rect`, with the counter `x` of type `int8_t`. -/
def drawRectRow (x1 y1 x2 y2 y : BitVec 8) : ℕ → BitVec 8 → τ → Option τ
  | 0, _, _ => none
  | fuel + 1, x, t =>
    if x.toInt ≤ x2.toInt then do
      let t ← (if y = y1 ∨ y = y2 ∨ x = x1 ∨ x = x2 then plot t x y else some t)
      drawRectRow x1 y1 x2 y2 y fuel (x + 1) t
    else some t

def drawRectLoop (x1 y1 x2 y2 : BitVec 8) (rowFuel : ℕ) : ℕ → BitVec 8 → τ → Option τ
  | 0, _, _ => none
  | fuel + 1, y, t =>
    if y.toInt ≤ y2.toInt then do
      let t ← drawRectRow plot x1 y1 x2 y2 y rowFuel x1 t
      drawRectLoop x1 y1 x2 y2 rowFuel fuel (y + 1) t
    else some t

def drawRect (fuel : ℕ) (x1 y1 x2 y2 : BitVec 8) (t : τ) : Option τ :=
  if x2.toInt < x1.toInt ∨ y2.toInt < y1.toInt then some t
  else drawRectLoop plot x1 y1 x2 y2 fuel fuel y1 t

variable {plot} {P : τ → Prop}

theorem drawLineLoop_invariant (hplot : ∀ t x y t', P t → plot t x y = some t' → P t')
    {x1 y1 sx sy : BitVec 8} {dx dy : ℤ} (fuel : ℕ) : ∀ {x0 y0 : BitVec 8} {err : ℤ} {t t' : τ},
      P t → drawLineLoop plot x1 y1 dx dy sx sy fuel x0 y0 err t = some t' → P t' := by
  induction fuel with
  | zero => exact fun _ h ↦ nomatch h
  | succ fuel ih =>
    intro x0 y0 err t t' ht h
    rw [drawLineLoop, Option.bind_eq_bind, Option.bind_eq_some_iff] at h
    obtain ⟨u, hu, h⟩ := h
    have hPu := hplot _ _ _ _ ht hu
    split at h
    · cases h
      exact hPu
    · exact ih hPu h

theorem drawRectRow_invariant (hplot : ∀ t x y t', P t → plot t x y = some t' → P t')
    {x1 y1 x2 y2 y : BitVec 8} (fuel : ℕ) : ∀ {x : BitVec 8} {t t' : τ},
      P t → drawRectRow plot x1 y1 x2 y2 y fuel x t = some t' → P t' := by
  induction fuel with
  | zero => exact fun _ h ↦ nomatch h
  | succ fuel ih =>
    intro x t t' ht h
    rw [drawRectRow] at h
    split at h
    · rw [Option.bind_eq_bind, Option.bind_eq_some_iff] at h
      obtain ⟨u, hu, h⟩ := h
      refine ih ?_ h
      split at hu
      · exact hplot _ _ _ _ ht hu
      · cases hu
        exact ht
    · cases h
      exact ht

theorem drawRectLoop_invariant (hplot : ∀ t x y t', P t → plot t x y = some t' → P t')
    {x1 y1 x2 y2 : BitVec 8} {rowFuel : ℕ} (fuel : ℕ) : ∀ {y : BitVec 8} {t t' : τ},
      P t → drawRectLoop plot x1 y1 x2 y2 rowFuel fuel y t = some t' → P t' := by
  induction fuel with
  | zero => exact fun _ h ↦ nomatch h
  | succ fuel ih =>
    intro y t t' ht h
    rw [drawRectLoop] at h
    split at h
    · rw [Option.bind_eq_bind, Option.bind_eq_some_iff] at h
      obtain ⟨u, hu, h⟩ := h
      exact ih (drawRectRow_invariant hplot rowFuel ht hu) h
    · cases h
      exact ht

end Shapes

/-! ## The whole driver -/

/-- `ks0713_commit`, in the version that the configuration selects. -/
def commitWith (saveMemory : Bool) (putn : σ → List (BitVec 16) → σ) (d : Ks0713 σ) :
    Option (Ks0713 σ) :=
  if saveMemory then some (commitSaveMemory putn d) else commit putn d

/-- The commands of `ks0713_init`, in order. -/
def initCommands (contrast : BitVec 8) : List (BitVec 8) :=
  [0xe2, 0xae ||| 0x00, 0xa0 ||| 0x01, 0xa6 ||| 0x00, 0xa4 ||| 0x00, 0xa2 ||| 0x00, 0xc0 ||| 0x08,
    0x28 ||| 0x07, 0x20 ||| 0x04, 0x81, contrast, 0xae ||| 0x01]

/-- The first steps of `ks0713_init`, up to the reset. The masks leave the backlight off. -/
def initLines (putn : σ → List (BitVec 16) → σ) (d : Ks0713 σ) : Ks0713 σ :=
  let d := { d with
    contrast := 0x28, cursorX := 0, cursorY := 0
    portState := (pinMask ||| backlight) &&& (rd ||| wr) }
  let d := sendPortState putn d
  let d := sendPortState putn { d with portState := d.portState &&& ~~~res }
  sendPortState putn { d with portState := d.portState ||| res }

/-- `ks0713_init` up to its first frame. -/
def initDisplay (putn : σ → List (BitVec 16) → σ) (d : Ks0713 σ) : Ks0713 σ :=
  let d := initLines putn d
  let d := (initCommands d.contrast).foldl (sendCommand putn) d
  { d with lcdBuffer := Vector.replicate _ 0 }

def init (saveMemory : Bool) (putn : σ → List (BitVec 16) → σ) (d : Ks0713 σ) :
    Option (Ks0713 σ) := do
  let d ← commitWith saveMemory putn (initDisplay putn d)
  return setBacklight putn d 1

inductive Call where
  | setBacklight (on : BitVec 8)
  | commit
  | setContrast (val : BitVec 8)
  | clear
  | writePixel (x y : BitVec 8) (op : PixelOp)
  | drawLine (x0 y0 x1 y1 : BitVec 8) (op : PixelOp)
  | drawRect (x1 y1 x2 y2 : BitVec 8) (op : PixelOp)
  | moveCursor (x y : BitVec 8)
  | ttyMoveCursor (x y : BitVec 16)
  | put (ch : BitVec 8)

variable (saveMemory : Bool) (putn : σ → List (BitVec 16) → σ) (font : List (BitVec 8)) (fuel : ℕ)

def runCall (d : Ks0713 σ) : Call → Option (Ks0713 σ)
  | .setBacklight on => some (setBacklight putn d on)
  | .commit => commitWith saveMemory putn d
  | .setContrast val => some (setContrast putn d val)
  | .clear => some (clear d)
  | .writePixel x y op => writePixel d x y op
  | .drawLine x0 y0 x1 y1 op => drawLine (fun d x y ↦ writePixel d x y op) fuel x0 y0 x1 y1 d
  | .drawRect x1 y1 x2 y2 op => drawRect (fun d x y ↦ writePixel d x y op) fuel x1 y1 x2 y2 d
  | .moveCursor x y => some (moveCursor d x y)
  | .ttyMoveCursor x y => some (ttyMoveCursor d x y)
  | .put ch => put font d ch

/-- The power-up sequence and then the calls. -/
def runCalls (d : Ks0713 σ) (calls : List Call) : Option (Ks0713 σ) := do
  let d ← init saveMemory putn d
  calls.foldlM (runCall saveMemory putn font fuel) d

/-! ## What drawing leaves alone -/

/-- Nothing was sent and the control lines are as before. -/
def SameLines (d d' : Ks0713 σ) : Prop := d'.portState = d.portState ∧ d'.bus = d.bus

theorem exists_lcdBuffer_of_modifyByte {d d' : Ks0713 σ} {n : ℕ} {f : BitVec 8 → BitVec 8}
    (h : modifyByte d n f = some d') : ∃ lcd : LcdBuffer, d' = { d with lcdBuffer := lcd } := by
  rw [modifyByte] at h
  split at h
  · exact ⟨_, (Option.some.inj h).symm⟩
  · cases h

/-- A pixel is in the frame buffer and nowhere else. -/
theorem exists_lcdBuffer_of_writePixel {d d' : Ks0713 σ} {x y : BitVec 8} {op : PixelOp}
    (h : writePixel d x y op = some d') : ∃ lcd : LcdBuffer, d' = { d with lcdBuffer := lcd } := by
  rw [writePixel] at h
  split at h
  · exact ⟨_, (Option.some.inj h).symm⟩
  · cases op with
    | none => exact ⟨_, (Option.some.inj h).symm⟩
    | set => exact exists_lcdBuffer_of_modifyByte h
    | clr => exact exists_lcdBuffer_of_modifyByte h
    | xor => exact exists_lcdBuffer_of_modifyByte h

theorem sameLines_modifyByte {d d' : Ks0713 σ} {n : ℕ} {f : BitVec 8 → BitVec 8}
    (h : modifyByte d n f = some d') : SameLines d d' := by
  obtain ⟨lcd, rfl⟩ := exists_lcdBuffer_of_modifyByte h
  exact ⟨rfl, rfl⟩

theorem sameLines_writePixel {d d' : Ks0713 σ} {x y : BitVec 8} {op : PixelOp}
    (h : writePixel d x y op = some d') : SameLines d d' := by
  obtain ⟨lcd, rfl⟩ := exists_lcdBuffer_of_writePixel h
  exact ⟨rfl, rfl⟩

theorem SameLines.trans {d d' d'' : Ks0713 σ} (h : SameLines d d') (h' : SameLines d' d'') :
    SameLines d d'' := ⟨h'.1.trans h.1, h'.2.trans h.2⟩

theorem sameLines_moveCursor (d : Ks0713 σ) (x y : BitVec 8) : SameLines d (moveCursor d x y) := by
  rw [moveCursor]
  split
  · exact ⟨rfl, rfl⟩
  · split <;> exact ⟨rfl, rfl⟩

theorem sameLines_put {font : List (BitVec 8)} {d d' : Ks0713 σ} {ch : BitVec 8}
    (h : put font d ch = some d') : SameLines d d' := by
  rw [put, Option.bind_eq_bind, Option.bind_eq_some_iff] at h
  obtain ⟨u, hu, h⟩ := h
  refine SameLines.trans ?_ (sameLines_modifyByte h)
  refine foldlM_invariant (fun s j s' hs hstep ↦ ?_) ⟨rfl, rfl⟩ hu
  rw [Option.bind_eq_bind, Option.bind_eq_some_iff] at hstep
  obtain ⟨glyph, -, hstep⟩ := hstep
  exact hs.trans (sameLines_modifyByte hstep)

/-- A call other than those that send something. -/
def Call.Draws : Call → Prop
  | .setBacklight _ | .commit | .setContrast _ => False
  | _ => True

theorem sameLines_runCall {d d' : Ks0713 σ} {c : Call} (hc : c.Draws)
    (h : runCall saveMemory putn font fuel d c = some d') : SameLines d d' := by
  have hplot (op : PixelOp) (u : Ks0713 σ) (x y : BitVec 8) (u' : Ks0713 σ) (hu : SameLines d u)
      (hw : writePixel u x y op = some u') : SameLines d u' :=
    hu.trans (sameLines_writePixel hw)
  cases c with
  | setBacklight on => exact hc.elim
  | commit => exact hc.elim
  | setContrast val => exact hc.elim
  | clear =>
    cases h
    exact ⟨rfl, rfl⟩
  | writePixel x y op => exact sameLines_writePixel h
  | drawLine x0 y0 x1 y1 op => exact drawLineLoop_invariant (hplot op) fuel ⟨rfl, rfl⟩ h
  | drawRect x1 y1 x2 y2 op =>
    simp only [runCall, drawRect] at h
    split at h
    · cases h
      exact ⟨rfl, rfl⟩
    · exact drawRectLoop_invariant (hplot op) fuel ⟨rfl, rfl⟩ h
  | moveCursor x y =>
    cases h
    exact sameLines_moveCursor d x y
  | ttyMoveCursor x y =>
    cases h
    exact sameLines_moveCursor d _ _
  | put ch => exact sameLines_put h

/-! ## What a transfer leaves on the board -/

section Transfers

variable {putn} {P : σ → Prop}

/-- If every transfer leaves `P` behind, each call keeps it. -/
theorem bus_runCall (hputn : ∀ s words, words ≠ [] → P (putn s words)) {d d' : Ks0713 σ} {c : Call}
    (h : runCall saveMemory putn font fuel d c = some d') (hd : P d.bus) : P d'.bus := by
  have hsend (d : Ks0713 σ) : P (sendPortState putn d).bus := hputn _ _ (List.cons_ne_nil _ _)
  by_cases hc : c.Draws
  · rw [(sameLines_runCall _ _ _ _ hc h).2]
    exact hd
  · cases c with
    | setBacklight v =>
      cases h
      exact hsend _
    | setContrast v =>
      cases h
      exact hsend _
    | commit =>
      have hwords : frameWords d ≠ [] :=
        List.ne_nil_of_length_pos ((fillCommands_eq d).2 ▸ (by decide : 0 < cmdBufSize))
      cases saveMemory with
      | false =>
        have hcommit : commit putn d = some d' := h
        rw [commit_eq] at hcommit
        rw [← Option.some.inj hcommit]
        exact hputn _ _ hwords
      | true =>
        have hd' : commitSaveMemory putn d = d' := Option.some.inj h
        have hall (words : List (BitVec 16)) : P (words.foldl (fun bus w ↦ putn bus [w]) d.bus) :=
          List.foldlRecOn words _ hd fun s _ w _ ↦ hputn s [w] (List.cons_ne_nil _ _)
        rw [← hd', commitSaveMemory_bus]
        exact hall _
    | _ => exact (hc trivial).elim

end Transfers

/-! ## The backlight line -/

/-- The level of the backlight line in a word. -/
def backlightBit (word : BitVec 16) : Bool := word.getLsbD 13

/-- What the calls ask of the backlight, which `ks0713_init` turns on. -/
def requestStep (on : Bool) : Call → Bool
  | .setBacklight v => decide (v ≠ 0)
  | _ => on

def backlightRequest (calls : List Call) : Bool := calls.foldl requestStep true

theorem backlightBit_selectCommand (word cmd : BitVec 16) :
    backlightBit (selectCommand word cmd) = (backlightBit word || backlightBit cmd) := by
  simp [backlightBit, selectCommand, cs1, wr, dataLines, a0, rd]

@[simp] theorem backlightBit_setWidth (b : BitVec 8) : backlightBit (b.setWidth 16) = false := by
  simp [backlightBit]

@[simp] theorem backlightBit_selectData (word : BitVec 16) :
    backlightBit (selectData word) = backlightBit word := by
  simp [backlightBit, selectData, wr, dataLines, a0]

@[simp] theorem backlightBit_selectByte (word : BitVec 16) (b : BitVec 8) :
    backlightBit (selectByte word b) = backlightBit word := by
  simp [backlightBit, selectByte, cs1, dataLines, rd]

@[simp] theorem backlightBit_latch (word : BitVec 16) :
    backlightBit (latch word) = backlightBit word := by
  simp [backlightBit, latch, cs1, rd]

@[simp] theorem portState_sendPortState (d : Ks0713 σ) :
    (sendPortState putn d).portState = d.portState := rfl

@[simp] theorem backlightBit_sendCommand (d : Ks0713 σ) (cmd : BitVec 8) :
    backlightBit (sendCommand putn d cmd).portState = backlightBit d.portState := by
  simp [sendCommand, backlightBit_selectCommand]

@[simp] theorem backlightBit_setBacklight (d : Ks0713 σ) (on : BitVec 8) :
    backlightBit (setBacklight putn d on).portState = decide (on ≠ 0) := by
  rw [setBacklight, portState_sendPortState]
  by_cases hon : on = 0#8
  · subst hon
    simp [backlightBit, backlight]
  · have hon' : on ≠ 0 := hon
    simp only [if_pos hon', decide_eq_true hon']
    simp [backlightBit, backlight]

@[simp] theorem backlightBit_setContrast (d : Ks0713 σ) (val : BitVec 8) :
    backlightBit (setContrast putn d val).portState = backlightBit d.portState := by
  simp [setContrast]

/-- What either version of a frame does to the driver: the board gets words, and nothing else. -/
theorem commitWith_eq (d : Ks0713 σ) :
    ∃ bus, commitWith saveMemory putn d = some { d with bus := bus } := by
  cases saveMemory with
  | false => exact ⟨_, commit_eq putn d⟩
  | true => exact ⟨_, congrArg some (commitSaveMemory_eq putn d)⟩

theorem init_eq (d : Ks0713 σ) :
    ∃ d', init saveMemory putn d = some (setBacklight putn d' 1) := by
  obtain ⟨bus, hcommit⟩ := commitWith_eq saveMemory putn (initDisplay putn d)
  refine ⟨{ initDisplay putn d with bus := bus }, ?_⟩
  rw [init, hcommit, Option.bind_eq_bind, Option.bind_some]
  rfl

theorem backlightBit_runCall {d d' : Ks0713 σ} {c : Call}
    (h : runCall saveMemory putn font fuel d c = some d') :
    backlightBit d'.portState = requestStep (backlightBit d.portState) c := by
  -- Drawing works on the frame buffer and leaves the port state alone.
  by_cases hc : c.Draws
  · rw [(sameLines_runCall _ _ _ _ hc h).1]
    cases c <;> first | rfl | exact hc.elim
  · cases c with
    | setBacklight v =>
      cases h
      exact backlightBit_setBacklight putn d v
    | setContrast v =>
      cases h
      exact backlightBit_setContrast putn d v
    | commit =>
      obtain ⟨bus, hcommit⟩ := commitWith_eq saveMemory putn d
      rw [runCall, hcommit] at h
      cases h
      rfl
    | _ => exact (hc trivial).elim

/-- **The request is in the port state.** -/
theorem portState_of_runCalls {d d' : Ks0713 σ} {calls : List Call}
    (h : runCalls saveMemory putn font fuel d calls = some d') :
    backlightBit d'.portState = backlightRequest calls := by
  obtain ⟨d₀, hinit⟩ := init_eq saveMemory putn d
  rw [runCalls, hinit, Option.bind_eq_bind, Option.bind_some] at h
  have hstart : backlightBit (setBacklight putn d₀ 1).portState = true := by
    rw [backlightBit_setBacklight]
    rfl
  have hrun := foldlM_rel (g := requestStep)
    (R := fun (s : Ks0713 σ) on ↦ backlightBit s.portState = on)
    (fun s on c s' hs hcall ↦ by rw [backlightBit_runCall _ _ _ _ hcall, hs]) calls hstart h
  exact hrun

/-- The control word and the words sent so far have the backlight line at `on`. -/
structure Lit (on : Bool) (t : BitVec 16 × List (BitVec 16)) : Prop where
  /-- The line in the control word. -/
  word : backlightBit t.1 = on
  /-- The line in the words sent. -/
  sent : ∀ w ∈ t.2, backlightBit w = on

variable {on : Bool} {t : BitVec 16 × List (BitVec 16)}

theorem Lit.send (h : Lit on t) {w : BitVec 16} (hw : backlightBit w = on) :
    Lit on (latch w, t.2 ++ [w] ++ [latch w]) := by
  refine ⟨by rw [backlightBit_latch, hw], fun u hu ↦ ?_⟩
  rw [List.append_assoc, List.mem_append] at hu
  rcases hu with hu | hu
  · exact h.sent u hu
  · rcases List.mem_cons.mp hu with rfl | hu
    · exact hw
    · rw [List.mem_singleton.mp hu, backlightBit_latch, hw]

theorem Lit.command (h : Lit on t) (cmd : BitVec 16) (hcmd : backlightBit cmd = false) :
    Lit on (commitCommandSaveMemory (· ++ ·) t cmd) :=
  h.send (by rw [backlightBit_selectCommand, h.word, hcmd, Bool.or_false])

theorem Lit.byte (h : Lit on t) {lcd : LcdBuffer} {row : Fin (ks0713Height / 8)}
    (i : Fin ks0713Width) : Lit on (commitByteSaveMemory (· ++ ·) lcd row t i) :=
  h.send (by rw [backlightBit_selectByte, h.word])

theorem backlightBit_page (row : Fin (ks0713Height / 8)) :
    backlightBit (0xb0 ||| BitVec.ofNat 16 row) = false := by
  revert row
  decide

theorem Lit.row (h : Lit on t) {lcd : LcdBuffer} (row : Fin (ks0713Height / 8)) :
    Lit on (commitRowSaveMemory (· ++ ·) lcd t row) := by
  have h' := ((h.command _ (backlightBit_page row)).command (0x00 ||| 0x04) rfl).command
    (0x10 ||| 0x00) rfl
  rw [commitRowSaveMemory]
  refine List.foldlRecOn (motive := Lit on) _ _ ⟨?_, h'.sent⟩ fun t ht i _ ↦ ht.byte i
  rw [backlightBit_selectData, h'.word]

/-- Every word of a frame has the backlight line of the port state. -/
theorem backlightBit_frameWords (d : Ks0713 σ) :
    ∀ w ∈ frameWords d, backlightBit w = backlightBit d.portState := by
  have h : Lit (backlightBit d.portState) ((List.finRange (ks0713Height / 8)).foldl
      (commitRowSaveMemory (· ++ ·) d.lcdBuffer) (d.portState, [])) :=
    List.foldlRecOn (motive := Lit _) _ _ ⟨rfl, fun _ hw ↦ nomatch hw⟩ fun t ht row _ ↦ ht.row row
  exact h.sent

end Ks0713

end Martink
