import Mathlib.Data.BitVec
import Mathlib.Algebra.Field.Rat

/-!
# The accelerometers with gyroscope

Of each of the three axes, the MPU-6000 and the MPU-6050 have a word of acceleration and one of
angular velocity, at the same addresses, high byte first. The drivers read the words and divide them
by the gain of the sensor, which is 16384 for an acceleration in g and 16.4 for a velocity in
degrees per second.

A quotient is taken as a rational number here.
-/

namespace Martink

/-- A value for each axis. -/
@[ext]
structure Axes (α : Type) where
  /-- The first axis. -/
  x : α
  /-- The second axis. -/
  y : α
  /-- The third axis. -/
  z : α
deriving DecidableEq

/-- The same value for each axis. -/
def Axes.same {α : Type} (a : α) : Axes α := ⟨a, a, a⟩

/-- A sensor, by what its registers hold. -/
structure Mpu where
  /-- What a register holds. -/
  regs : BitVec 8 → BitVec 8

namespace Mpu

def accelXoutH : BitVec 8 := 0x3b
def gyroXoutH : BitVec 8 := 0x43

def readBytes (self : Mpu) (start : BitVec 8) (count : ℕ) : List (BitVec 8) :=
  (List.range count).map fun c ↦ self.regs (start + BitVec.ofNat 8 c)

/-- Three words, high byte first. -/
def readRaw (self : Mpu) (start : BitVec 8) : Axes (BitVec 16) :=
  let buffer := self.readBytes start 6
  ⟨(buffer.getD 0 0).setWidth 16 <<< 8 ||| (buffer.getD 1 0).setWidth 16,
    (buffer.getD 2 0).setWidth 16 <<< 8 ||| (buffer.getD 3 0).setWidth 16,
    (buffer.getD 4 0).setWidth 16 <<< 8 ||| (buffer.getD 5 0).setWidth 16⟩

def readRawAcc (self : Mpu) : Axes (BitVec 16) := self.readRaw accelXoutH

def readRawGyr (self : Mpu) : Axes (BitVec 16) := self.readRaw gyroXoutH

/-- From the raw values of a sensor to its unit. -/
def convert (offset : Axes ℤ) (gain : Axes ℚ) (raw : Axes (BitVec 16)) : Axes ℚ :=
  ⟨(raw.x.toInt - offset.x : ℤ) / gain.x, (raw.y.toInt - offset.y : ℤ) / gain.y,
    (raw.z.toInt - offset.z : ℤ) / gain.z⟩

/-- Two gains make a difference unless the raw values are zero. -/
theorem convert_eq_convert_iff {a b : ℚ} (ha : a ≠ 0) (hb : b ≠ 0) (hne : a ≠ b)
    (raw : Axes (BitVec 16)) :
    convert (Axes.same 0) (Axes.same a) raw = convert (Axes.same 0) (Axes.same b) raw ↔
      raw = Axes.same 0 := by
  have haxis (w : BitVec 16) : ((w.toInt - 0 : ℤ) : ℚ) / a = (w.toInt - 0 : ℤ) / b ↔ w = 0 := by
    rw [div_eq_div_iff ha hb, mul_eq_mul_left_iff, or_iff_right hne.symm, sub_zero,
      Int.cast_eq_zero]
    exact BitVec.toInt_inj (y := 0)
  simp only [Axes.ext_iff, convert, Axes.same, haxis]

end Mpu

/-! ## The MPU-6000 -/

namespace Mpu6000

def accOffset : Axes ℤ := Axes.same 0
def accGain : Axes ℚ := Axes.same 16384
def gyrOffset : Axes ℤ := Axes.same 0
def gyrGain : Axes ℚ := Axes.same (164 / 10)

def convertAcc : Axes (BitVec 16) → Axes ℚ := Mpu.convert accOffset accGain

def convertGyr : Axes (BitVec 16) → Axes ℚ := Mpu.convert gyrOffset gyrGain

end Mpu6000

/-! ## The MPU-6050 -/

namespace Mpu6050

def accOffset : Axes ℤ := Axes.same 0
def accGain : Axes ℚ := Axes.same 16384
def gyrOffset : Axes ℤ := Axes.same 0
def gyrGain : Axes ℚ := Axes.same (164 / 10)

def convertAcc : Axes (BitVec 16) → Axes ℚ := Mpu.convert accOffset accGain

def convertGyr : Axes (BitVec 16) → Axes ℚ := Mpu.convert gyrOffset gyrGain

end Mpu6050

end Martink
