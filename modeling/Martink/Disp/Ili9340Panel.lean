import Mathlib.Data.Finset.Prod
import Mathlib.Order.Interval.Finset.Nat
import Martink.Disp.Ili9340

/-!
# The controller of the TFT

What the controller makes of the signals: while it is selected, a byte that comes with the data line
low is a command, and the bytes with the line high belong to the last command. Two commands set the
address window. After `ILI9340_RAMWR` every two bytes are the colour of a pixel; the pixels fill the
window row by row.
-/

namespace Martink.Ili9340

/-! ## Packets -/

/-- A command and the bytes that follow it. -/
structure Packet where
  /-- The command. -/
  cmd : BitVec 8
  /-- The bytes. -/
  args : List (BitVec 8)
deriving DecidableEq

namespace Packet

/-- A byte with the data line high. -/
def addArg (ch : BitVec 8) : List Packet → List Packet
  | [] => []
  | p :: ps => { p with args := p.args ++ [ch] } :: ps

end Packet

/-- The receiving end: the levels of the lines, and the packets so far, the last one first. -/
structure Receiver where
  /-- The select line. -/
  cs : Bool
  /-- The line that tells data from commands. -/
  dc : Bool
  /-- The packets. -/
  packets : List Packet

namespace Receiver

def step (r : Receiver) : Signal → Receiver
  | .cs high => { r with cs := high }
  | .dc high => { r with dc := high }
  | .byte ch =>
    if r.cs then r
    else if r.dc then { r with packets := Packet.addArg ch r.packets }
    else { r with packets := ⟨ch, []⟩ :: r.packets }

def run (r : Receiver) (l : List Signal) : Receiver := l.foldl step r

theorem run_append (r : Receiver) (l l' : List Signal) : r.run (l ++ l') = (r.run l).run l' :=
  List.foldl_append

@[simp] theorem run_wrCommand (r : Receiver) (c : BitVec 8) :
    r.run (wrCommand c) = ⟨true, false, ⟨c, []⟩ :: r.packets⟩ := rfl

@[simp] theorem run_wrData (r : Receiver) (c : BitVec 8) :
    r.run (wrData c) = ⟨true, true, Packet.addArg c r.packets⟩ := rfl

/-- A burst of bytes for the last command. -/
theorem run_bytes (p : Packet) (ps : List Packet) (l : List (BitVec 8)) :
    run ⟨false, true, p :: ps⟩ (l.map .byte)
      = ⟨false, true, { p with args := p.args ++ l } :: ps⟩ := by
  induction l generalizing p with
  | nil => rw [List.append_nil]; rfl
  | cons ch l ih =>
    have hfirst : run ⟨false, true, p :: ps⟩ ((ch :: l).map .byte)
        = run ⟨false, true, { p with args := p.args ++ [ch] } :: ps⟩ (l.map .byte) := rfl
    rw [hfirst, ih, List.append_assoc]
    rfl

end Receiver

/-- The packets in some signals, the first one first. The controller is not selected before. -/
def received (l : List Signal) : List Packet := (Receiver.run ⟨true, false, []⟩ l).packets.reverse

/-! ## The window and the pixels -/

/-- The address window, with its last column and row, and the pixels painted, each with its place
and colour, in order. -/
structure Panel where
  /-- The first and the last column. -/
  cols : BitVec 16 × BitVec 16
  /-- The first and the last row. -/
  rows : BitVec 16 × BitVec 16
  /-- The pixels. -/
  painted : List ((ℕ × ℕ) × BitVec 16)

namespace Panel

def window (p : Panel) : Finset (ℕ × ℕ) :=
  Finset.Icc p.cols.1.toNat p.cols.2.toNat ×ˢ Finset.Icc p.rows.1.toNat p.rows.2.toNat

/-- The place of a pixel, from the number of those before it. -/
def place (p : Panel) (i : ℕ) : ℕ × ℕ :=
  let width := p.cols.2.toNat + 1 - p.cols.1.toNat
  let height := p.rows.2.toNat + 1 - p.rows.1.toNat
  (p.cols.1.toNat + i % width, p.rows.1.toNat + i / width % height)

/-- Two bytes a colour. -/
def colours : List (BitVec 8) → List (BitVec 16)
  | hi :: lo :: l => (hi ++ lo) :: colours l
  | _ => []

/-- The two ends that four bytes stand for. -/
def range? : List (BitVec 8) → Option (BitVec 16 × BitVec 16)
  | [a, b, c, d] => some (a ++ b, c ++ d)
  | _ => none

def exec (p : Panel) (q : Packet) : Panel :=
  if q.cmd = caset then { p with cols := (range? q.args).getD p.cols }
  else if q.cmd = paset then { p with rows := (range? q.args).getD p.rows }
  else if q.cmd = ramwr then
    { p with painted := p.painted ++ (colours q.args).mapIdx fun i k ↦ (p.place i, k) }
  else p

end Panel

/-- What the controller makes of some signals, from a window of the whole screen. -/
def drawn (l : List Signal) : Panel := (received l).foldl Panel.exec ⟨(0, 239), (0, 319), []⟩

/-! ## What the driver sends -/

/-- The bytes of a colour, as the driver sends them. -/
def colourBytes (k : BitVec 16) : List (BitVec 8) := [(k >>> 8).setWidth 8, k.setWidth 8]

theorem append_bytes (x : BitVec 16) : (x >>> 8).setWidth 8 ++ x.setWidth 8 = x := by
  refine BitVec.eq_of_getLsbD_eq fun i hi ↦ ?_
  rw [BitVec.getLsbD_append, BitVec.getLsbD_setWidth, BitVec.getLsbD_setWidth,
    BitVec.getLsbD_ushiftRight]
  by_cases h : i < 8
  · simp [h]
  · have hsum : 8 + (i - 8) = i := by omega
    simp [h, hsum, show i - 8 < 8 by omega]

/-- The upper byte is the same for `int16_t` and `uint16_t`. -/
theorem append_signedBytes (x : BitVec 16) :
    (x.sshiftRight 8).setWidth 8 ++ x.setWidth 8 = x := by
  have hupper : (x.sshiftRight 8).setWidth 8 = (x >>> 8).setWidth 8 := by
    refine BitVec.eq_of_getLsbD_eq fun i hi ↦ ?_
    rw [BitVec.getLsbD_setWidth, BitVec.getLsbD_setWidth, BitVec.getLsbD_sshiftRight,
      BitVec.getLsbD_ushiftRight]
    simp [show 8 + i < 16 by omega, show ¬16 ≤ i by omega]
  rw [hupper, append_bytes]

theorem setWidth_and_ff (x : BitVec 16) : (x &&& 0xff).setWidth 8 = x.setWidth 8 := by
  refine BitVec.eq_of_getLsbD_eq fun i hi ↦ ?_
  have hmask : (0xff : BitVec 16) = BitVec.ofNat 16 (2 ^ 8 - 1) := rfl
  rw [BitVec.getLsbD_setWidth, BitVec.getLsbD_setWidth, BitVec.getLsbD_and, hmask,
    BitVec.getLsbD_ofNat, Nat.testBit_two_pow_sub_one]
  simp [hi, show i < 16 by omega]

theorem colours_flatMap (ks : List (BitVec 16)) : Panel.colours (ks.flatMap colourBytes) = ks := by
  induction ks with
  | nil => rfl
  | cons k ks ih =>
    rw [List.flatMap_cons, colourBytes, List.cons_append, List.cons_append, List.nil_append,
      Panel.colours, append_bytes, ih]

/-- The two packets that set the window. -/
def windowPackets (x0 y0 x1 y1 : BitVec 16) : List Packet :=
  let ends (a b : BitVec 16) :=
    [(a.sshiftRight 8).setWidth 8, a.setWidth 8, (b.sshiftRight 8).setWidth 8, b.setWidth 8]
  [⟨paset, ends y0 y1⟩, ⟨caset, ends x0 x1⟩]

theorem run_setAddrWindow (x0 y0 x1 y1 : BitVec 16) :
    Receiver.run ⟨true, false, []⟩ (setAddrWindow x0 y0 x1 y1)
      = ⟨true, true, windowPackets x0 y0 x1 y1⟩ := by
  simp only [setAddrWindow, Receiver.run_append, Receiver.run_wrCommand, Receiver.run_wrData,
    Packet.addArg, setWidth_and_ff]
  rfl

/-- **A window and its pixels.** -/
theorem drawn_of_packets {l : List Signal} {x0 y0 x1 y1 : BitVec 16} {ks : List (BitVec 16)}
    (h : (Receiver.run ⟨true, false, []⟩ l).packets
      = ⟨ramwr, ks.flatMap colourBytes⟩ :: windowPackets x0 y0 x1 y1) :
    drawn l
      = ⟨(x0, x1), (y0, y1), ks.mapIdx fun i k ↦ (Panel.place ⟨(x0, x1), (y0, y1), []⟩ i, k)⟩ := by
  have hreceived : received l = [⟨caset, _⟩, ⟨paset, _⟩, ⟨ramwr, _⟩] :=
    congrArg List.reverse h
  rw [drawn, hreceived]
  simp only [List.foldl_cons, List.foldl_nil, Panel.exec, Panel.range?, append_signedBytes,
    colours_flatMap, Option.getD_some, List.nil_append]
  rfl

/-- A burst after the window was set and `ILI9340_RAMWR` was sent as a command of its own. -/
theorem drawn_burst (x0 y0 x1 y1 : BitVec 16) (ks : List (BitVec 16)) :
    drawn (setAddrWindowWR x0 y0 x1 y1 ++ [.dc true, .cs false]
        ++ (ks.flatMap colourBytes).map .byte ++ [.cs true])
      = ⟨(x0, x1), (y0, y1), ks.mapIdx fun i k ↦ (Panel.place ⟨(x0, x1), (y0, y1), []⟩ i, k)⟩ := by
  have hlines (ps : List Packet) :
      Receiver.run ⟨true, false, ps⟩ [.dc true, .cs false] = ⟨false, true, ps⟩ := rfl
  refine drawn_of_packets ?_
  simp only [setAddrWindowWR, Receiver.run_append, run_setAddrWindow, Receiver.run_wrCommand]
  rw [hlines, Receiver.run_bytes]
  rfl

/-- The same without deselecting the controller between the command and the pixels. -/
theorem drawn_inlineBurst (x0 y0 x1 y1 : BitVec 16) (ks : List (BitVec 16)) :
    drawn (setAddrWindow x0 y0 x1 y1 ++ [.cs false, .dc false, .byte ramwr, .dc true]
        ++ (ks.flatMap colourBytes).map .byte ++ [.cs true])
      = ⟨(x0, x1), (y0, y1), ks.mapIdx fun i k ↦ (Panel.place ⟨(x0, x1), (y0, y1), []⟩ i, k)⟩ := by
  have hcommand (ps : List Packet) :
      Receiver.run ⟨true, true, ps⟩ [.cs false, .dc false, .byte ramwr, .dc true]
        = ⟨false, true, ⟨ramwr, []⟩ :: ps⟩ := rfl
  refine drawn_of_packets ?_
  simp only [Receiver.run_append, run_setAddrWindow]
  rw [hcommand, Receiver.run_bytes]
  rfl

end Martink.Ili9340
