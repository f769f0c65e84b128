import Martink.Base.Raster
import Martink.Disp.Ks0713Shapes

/-!
# The TFT driver

The controller sits on a serial bus; one line selects it and another tells commands from data. What
the driver does is the list of `Signal`s that it sends. A pixel is an address window of one point,
followed by the two bytes of its colour.

`ili9340_drawLine` is the line loop of the LCD driver over coordinates of type `uint16_t`.
-/

namespace Martink

namespace Ili9340

/-- What goes out to the controller: the level of a line, or a byte. -/
inductive Signal where
  | cs (high : Bool)
  | dc (high : Bool)
  | byte (ch : BitVec 8)
deriving DecidableEq

def wrCommand (c : BitVec 8) : List Signal := [.dc false, .cs false, .byte c, .cs true]

def wrData (c : BitVec 8) : List Signal := [.dc true, .cs false, .byte c, .cs true]

/-- `ILI9340_CASET`. -/
def caset : BitVec 8 := 0x2a

/-- `ILI9340_PASET`. -/
def paset : BitVec 8 := 0x2b

/-- `ILI9340_RAMWR`. -/
def ramwr : BitVec 8 := 0x2c

/-- `_ili9340_setAddrWindow`. The coordinates are of type `int16_t`. -/
def setAddrWindow (x0 y0 x1 y1 : BitVec 16) : List Signal :=
  wrCommand caset ++ wrData ((x0.sshiftRight 8).setWidth 8) ++ wrData ((x0 &&& 0xff).setWidth 8) ++
    wrData ((x1.sshiftRight 8).setWidth 8) ++ wrData ((x1 &&& 0xff).setWidth 8) ++
    wrCommand paset ++ wrData ((y0.sshiftRight 8).setWidth 8) ++ wrData (y0.setWidth 8) ++
    wrData ((y1.sshiftRight 8).setWidth 8) ++ wrData (y1.setWidth 8)

def setAddrWindowWR (x0 y0 x1 y1 : BitVec 16) : List Signal :=
  setAddrWindow x0 y0 x1 y1 ++ wrCommand ramwr

/-- What the body of the loop in `ili9340_drawLine` sends. -/
def pixelSignals (col x0 y0 : BitVec 16) : List Signal :=
  setAddrWindowWR x0 y0 x0 y0 ++
    [.dc true, .cs false, .byte ((col >>> 8).setWidth 8), .byte (col.setWidth 8), .cs true]

/-- `ili9340_drawLine`, over any way to draw a pixel. -/
def drawLine {τ : Type} (plot : τ → BitVec 16 → BitVec 16 → Option τ) (fuel : ℕ)
    (x0 y0 x1 y1 : BitVec 16) (t : τ) : Option τ :=
  let dx : ℤ := |(x1.toNat : ℤ) - x0.toNat|
  let sx : BitVec 16 := if x0.toNat < x1.toNat then 1 else -1
  let dy : ℤ := |(y1.toNat : ℤ) - y0.toNat|
  let sy : BitVec 16 := if y0.toNat < y1.toNat then 1 else -1
  lineLoop plot x1 y1 dx dy sx sy fuel x0 y0 ((if dx > dy then dx else -dy).tdiv 2) t

/-- The line as the driver sends it. -/
def drawLineSignals (fuel : ℕ) (x0 y0 x1 y1 col : BitVec 16) (sent : List Signal) :
    Option (List Signal) :=
  drawLine (fun sent x y ↦ some (sent ++ pixelSignals col x y)) fuel x0 y0 x1 y1 sent

/-- The line that `ili9340_drawLine` draws. -/
theorem drawLine_plots (x0 y0 x1 y1 : BitVec 16) :
    Plots (fun _ plot fuel t ↦ drawLine plot fuel x0 y0 x1 y1 t)
      ((Coordinate.unsigned 16).linePoints x0 y0 x1 y1) := by
  obtain ⟨n, hn⟩ := (Coordinate.unsigned 16).lineLoop_plots x0 y0 x1 y1
  have hsign (a b : ℕ) :
      (if a < b then (1 : BitVec 16) else -1) = BitVec.ofInt 16 (lineSign a b) := by
    simp only [lineSign, Nat.cast_lt]
    split_ifs
    · rfl
    · rfl
  refine ⟨n, fun fuel hfuel τ plot t ↦ ?_⟩
  rw [← hn fuel hfuel τ plot t]
  beta_reduce
  rw [drawLine, hsign, hsign]
  rfl

/-- The signals of a line are those of its pixels, one after another. -/
theorem drawLineSignals_eq (x0 y0 x1 y1 col : BitVec 16) :
    ∃ n, ∀ fuel, n ≤ fuel → ∀ sent, drawLineSignals fuel x0 y0 x1 y1 col sent
      = some (sent ++ ((Coordinate.unsigned 16).linePoints x0 y0 x1 y1).flatMap
          fun p ↦ pixelSignals col p.1 p.2) := by
  obtain ⟨n, hn⟩ := drawLine_plots x0 y0 x1 y1
  refine ⟨n, fun fuel hfuel sent ↦ ?_⟩
  refine (hn fuel hfuel _ _ sent).trans ?_
  generalize (Coordinate.unsigned 16).linePoints x0 y0 x1 y1 = pts
  induction pts generalizing sent with
  | nil => simp
  | cons p pts ih =>
    rw [List.foldlM_cons, Option.bind_eq_bind, Option.bind_some, ih, List.flatMap_cons,
      List.append_assoc]

end Ili9340

/-- **Lines.** Both drivers plot lines, between any two ends that their parameters can have. -/
theorem drawLine_isLine :
    (∀ x0 y0 x1 y1 : BitVec 16, ∃ pts,
      Plots (fun _ plot fuel t ↦ Ili9340.drawLine plot fuel x0 y0 x1 y1 t) pts ∧
        IsLine (fun x ↦ (x.toNat : ℤ)) x0 y0 x1 y1 pts) ∧
    ∀ x0 y0 x1 y1 : BitVec 8, ∃ pts,
      Plots (fun _ plot fuel t ↦ Ks0713.drawLine plot fuel x0 y0 x1 y1 t) pts ∧
        IsLine BitVec.toInt x0 y0 x1 y1 pts :=
  ⟨fun x0 y0 x1 y1 ↦ ⟨_, Ili9340.drawLine_plots x0 y0 x1 y1,
      Coordinate.isLine_linePoints (c := Coordinate.unsigned 16)⟩,
    fun x0 y0 x1 y1 ↦ ⟨_, Ks0713.drawLine_plots x0 y0 x1 y1,
      Coordinate.isLine_linePoints (c := Coordinate.signed 8)⟩⟩

end Martink
