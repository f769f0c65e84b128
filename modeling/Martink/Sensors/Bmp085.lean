import Mathlib.Algebra.Field.Rat
import Martink.Base.Word

/-!
# The barometer

The BMP085 has eleven words of calibration and answers with a raw temperature and a raw pressure.
The driver computes with the words in `long`, which has 32 bits, and divides twice by what it
computed: by `x1 + regmd` for the temperature, and by `b4` for the pressure. Neither divisor is
tested for zero.

What an `int` is put together from are the two bytes of a word. With 16 bits it is negative when its
upper bit is set, with 32 bits it never is; and `ut - regac6` is of type `long` with 16 bits and of
type `unsigned long` with 32.
-/

namespace Martink

/-- Messages sent, with their addresses, and the bytes still to come. -/
structure I2cBus where
  /-- The messages. -/
  sent : List (BitVec 8 × List (BitVec 8))
  /-- The bytes to come. -/
  replies : ℕ → BitVec 8

/-- `struct bmp085`. The registers are the words as read. -/
structure Bmp085 where
  /-- The address. -/
  addr : BitVec 8
  /-- `AC1`, signed. -/
  regac1 : BitVec 16
  /-- `AC2`, signed. -/
  regac2 : BitVec 16
  /-- `AC3`, signed. -/
  regac3 : BitVec 16
  /-- `AC4`, unsigned. -/
  regac4 : BitVec 16
  /-- `AC5`, unsigned. -/
  regac5 : BitVec 16
  /-- `AC6`, unsigned. -/
  regac6 : BitVec 16
  /-- `B1`, signed. -/
  regb1 : BitVec 16
  /-- `B2`, signed. -/
  regb2 : BitVec 16
  /-- `MB`, signed. -/
  regmb : BitVec 16
  /-- `MC`, signed. -/
  regmc : BitVec 16
  /-- `MD`, signed. -/
  regmd : BitVec 16

/-- A word of type `int`, as `long`. -/
def IntWidth.long : IntWidth → BitVec 16 → BitVec 32
  | bits16, r => r.signExtend 32
  | bits32, r => r.setWidth 32

/-- A word of type `unsigned int`, as `long`. -/
def ulong (r : BitVec 16) : BitVec 32 := r.setWidth 32

namespace Bmp085

/-! ## The driver -/

def regControl : BitVec 8 := 0xf4

def regControlOutput : BitVec 8 := 0xf6

def regReadTemperature : BitVec 8 := 0x2e

def regReadPressure : BitVec 8 := 0x34

/-- `BMP085_MODE`. -/
def mode : ℕ := 1

def writemem (addr : BitVec 8) (s : I2cBus) (reg value : BitVec 8) : I2cBus :=
  { s with sent := s.sent ++ [(addr, [reg, value])] }

def readmem (addr : BitVec 8) (s : I2cBus) (reg : BitVec 8) (bytes : ℕ) : I2cBus :=
  ⟨s.sent ++ [(addr, [reg])], fun i ↦ s.replies (i + bytes)⟩

/-- The first two of the bytes that are read. -/
def word (s : I2cBus) : BitVec 16 := s.replies 0 ++ s.replies 1

/-- `bmp085_init`, with `bmp085_getcalibration`. -/
def init (addr : BitVec 8) (s : I2cBus) : Bmp085 × I2cBus :=
  let s1 := readmem addr s 0xaa 2
  let s2 := readmem addr s1 0xac 2
  let s3 := readmem addr s2 0xae 2
  let s4 := readmem addr s3 0xb0 2
  let s5 := readmem addr s4 0xb2 2
  let s6 := readmem addr s5 0xb4 2
  let s7 := readmem addr s6 0xb6 2
  let s8 := readmem addr s7 0xb8 2
  let s9 := readmem addr s8 0xba 2
  let s10 := readmem addr s9 0xbc 2
  let s11 := readmem addr s10 0xbe 2
  (⟨addr, word s, word s1, word s2, word s3, word s4, word s5, word s6, word s7, word s8, word s9,
    word s10⟩, s11)

/-- A division of values of type `long`, or `none` if it is one by zero. -/
def longDiv (a d : BitVec 32) : Option (BitVec 32) := if d = 0 then none else some (a.sdiv d)

/-- The same for `unsigned long`. -/
def ulongDiv (a d : BitVec 32) : Option (BitVec 32) := if d = 0 then none else some (a / d)

/-- `x1` of the temperature. -/
def rawX1 (b : IntWidth) (self : Bmp085) (ut : BitVec 32) : BitVec 32 :=
  let product := (ut - ulong self.regac6) * ulong self.regac5
  match b with
  | .bits16 => product.sshiftRight 15
  | .bits32 => product >>> 15

def getrawtemperature (b : IntWidth) (self : Bmp085) (s : I2cBus) :
    Option (BitVec 32 × I2cBus) := do
  let s := writemem self.addr s regControl regReadTemperature
  let ut := ulong (word s)
  let x1 := rawX1 b self ut
  let x2 ← longDiv (b.long self.regmc <<< 11) (x1 + b.long self.regmd)
  some (x1 + x2, readmem self.addr s regControlOutput 2)

/-- `b4` of the pressure, with its own `x1`, `x2` and `x3`. -/
def rawB4 (b : IntWidth) (self : Bmp085) (b6 : BitVec 32) : BitVec 32 :=
  let x1 := (b.long self.regac3 * b6).sshiftRight 13
  let x2 := (b.long self.regb1 * (b6 * b6).sshiftRight 12).sshiftRight 16
  let x3 := (x1 + x2 + 2).sshiftRight 2
  (ulong self.regac4 * (x3 + 32768)) >>> 15

/-- The first value of `p`. -/
def rawP (b7 b4 : BitVec 32) : Option (BitVec 32) :=
  if b7.toNat < 0x80000000 then ulongDiv (b7 <<< 1) b4
  else (ulongDiv b7 b4).map fun q : BitVec 32 ↦ q <<< 1

def getrawpressure (b : IntWidth) (self : Bmp085) (s : I2cBus) : Option (BitVec 32 × I2cBus) := do
  let r ← getrawtemperature b self s
  let temperature := r.1
  let s := writemem self.addr r.2 regControl (regReadPressure + BitVec.ofNat 8 (mode <<< 6))
  let up := ((s.replies 0 ++ s.replies 1 ++ s.replies 2).setWidth 32).sshiftRight (8 - mode)
  let s := readmem self.addr s regControlOutput 3
  let b6 := temperature - 4000
  let x1 := ((b.long self.regb2 * (b6 * b6)).sshiftRight 12).sshiftRight 11
  let x2 := (b.long self.regac2 * b6).sshiftRight 11
  let x3 := x1 + x2
  let b3 := (((b.long self.regac1 * 4 + x3) <<< mode) + 2).sshiftRight 2
  let b4 := rawB4 b self b6
  let b7 := (up - b3) * BitVec.ofNat 32 (50000 >>> mode)
  let p ← rawP b7 b4
  let x1 := p.sshiftRight 8 * p.sshiftRight 8
  let x1 := (x1 * 3038).sshiftRight 16
  let x2 := (-7357 * p).sshiftRight 16
  some (p + (x1 + x2 + 3791).sshiftRight 4, s)

/-- `bmp085_read_temperature`, in exact arithmetic after the conversion to a fraction. -/
def readTemperature (b : IntWidth) (self : Bmp085) (s : I2cBus) : Option (ℚ × I2cBus) := do
  let r ← getrawtemperature b self s
  some (((r.1 + 8).toInt : ℚ) / (164 / 10) / 10, r.2)

/-- `bmp085_read_pressure`. The offset is zero. -/
def readPressure (b : IntWidth) (self : Bmp085) (s : I2cBus) : Option (BitVec 32 × I2cBus) := do
  let r ← getrawpressure b self s
  some (r.1 + 0, r.2)

/-! ## In terms of the registers -/

section Registers

variable (b : IntWidth) (self : Bmp085) (ut : BitVec 16)

/-- The number that a word of type `int` stands for. -/
def val : IntWidth → BitVec 16 → ℤ
  | .bits16, r => r.toInt
  | .bits32, r => r.toNat

/-- A shift to the right of a number that is stored in a `long`. -/
def ashr (z : ℤ) (n : ℕ) : ℤ := z.bmod (2 ^ 32) / 2 ^ n

/-- The product that the temperature starts with: signed with 16 bits, unsigned with 32. -/
def product : ℤ :=
  let z : ℤ := (ut.toNat - self.regac6.toNat) * self.regac5.toNat
  match b with
  | .bits16 => z.bmod (2 ^ 32)
  | .bits32 => z % 2 ^ 32

def TemperatureFits : Prop :=
  product b self ut < -val b self.regmd * 2 ^ 15 ∨
    (1 - val b self.regmd) * 2 ^ 15 ≤ product b self ut

/-- The compensated temperature. -/
def degrees : ℤ :=
  let x1 := product b self ut / 2 ^ 15
  x1 + (val b self.regmc * 2 ^ 11).tdiv (x1 + val b self.regmd)

/-- What `regac4` is multiplied with. -/
def scale : ℤ :=
  let b6 := degrees b self ut - 4000
  ashr (ashr (val b self.regac3 * b6) 13 + ashr (val b self.regb1 * ashr (b6 * b6) 12) 16 + 2) 2
    + 32768

def PressureFits : Prop := 2 ^ 15 ≤ self.regac4.toNat * scale b self ut % 2 ^ 32

end Registers

/-! ## Words as integers -/

theorem ulong_eq_ofInt (r : BitVec 16) : ulong r = BitVec.ofInt 32 r.toNat := setWidth_eq_ofInt r

theorem long_eq_ofInt (b : IntWidth) (r : BitVec 16) : b.long r = BitVec.ofInt 32 (val b r) := by
  cases b with
  | bits16 => rfl
  | bits32 => exact ulong_eq_ofInt r

theorem val_range (b : IntWidth) (r : BitVec 16) : -32768 ≤ val b r ∧ val b r < 65536 := by
  cases b with
  | bits16 =>
    have hle := BitVec.le_toInt r
    have hlt := BitVec.toInt_lt (x := r)
    rw [val]
    omega
  | bits32 =>
    have hlt := r.isLt
    rw [val]
    omega

theorem ofInt_ashr (z : ℤ) (n : ℕ) :
    (BitVec.ofInt 32 z).sshiftRight n = BitVec.ofInt 32 (ashr z n) := ofInt_sshiftRight z n

/-! ## The divisors -/

theorem rawX1_eq (b : IntWidth) (self : Bmp085) (ut : BitVec 16) :
    rawX1 b self (ulong ut) = BitVec.ofInt 32 (product b self ut / 2 ^ 15) := by
  have hproduct : (ulong ut - ulong self.regac6) * ulong self.regac5
      = BitVec.ofInt 32 ((ut.toNat - self.regac6.toNat) * self.regac5.toNat) := by
    rw [ulong_eq_ofInt, ulong_eq_ofInt, ulong_eq_ofInt, BitVec.ofInt_mul, ofInt_sub]
  cases b with
  | bits16 =>
    rw [rawX1, hproduct]
    exact ofInt_ashr _ 15
  | bits32 =>
    rw [rawX1, hproduct]
    exact ofInt_ushiftRight _ 15

theorem product_range (b : IntWidth) (self : Bmp085) (ut : BitVec 16) :
    -2 ^ 31 ≤ product b self ut ∧ product b self ut < 2 ^ 32 := by
  cases b with
  | bits16 =>
    exact ⟨Int.le_bmod (by decide), lt_trans (Int.bmod_lt (by decide)) (by decide)⟩
  | bits32 =>
    exact ⟨le_trans (by decide) (Int.emod_nonneg _ (by decide)), Int.emod_lt_of_pos _ (by decide)⟩

/-- The first divisor. -/
theorem divisor_eq_zero_iff (b : IntWidth) (self : Bmp085) (ut : BitVec 16) :
    product b self ut / 2 ^ 15 + val b self.regmd = 0 ↔ ¬TemperatureFits b self ut := by
  rw [TemperatureFits]
  omega

/-- **`bmp085_getrawtemperature`.** -/
theorem getrawtemperature_eq (b : IntWidth) (self : Bmp085) (s : I2cBus) :
    getrawtemperature b self s
      = if product b self (word s) / 2 ^ 15 + val b self.regmd = 0 then none
        else some (BitVec.ofInt 32 (degrees b self (word s)), readmem self.addr
          (writemem self.addr s regControl regReadTemperature) regControlOutput 2) := by
  have hproduct := product_range b self (word s)
  have hmd := val_range b self.regmd
  have hmc := val_range b self.regmc
  have hword (reg value : BitVec 8) : word (writemem self.addr s reg value) = word s := rfl
  rw [getrawtemperature, hword, rawX1_eq, long_eq_ofInt, long_eq_ofInt, ← BitVec.ofInt_add,
    ofInt_shiftLeft, longDiv]
  have hdivisor := ofInt_eq_zero_iff (w := 32)
    (by omega : -2 ^ 32 ≤ 2 * (product b self (word s) / 2 ^ 15 + val b self.regmd)) (by omega)
  simp only [hdivisor]
  split_ifs with hzero
  · rfl
  · rw [ofInt_sdiv (by omega) (by omega) (by omega) (by omega), Option.bind_eq_bind,
      Option.bind_some, ← BitVec.ofInt_add]
    rfl

theorem isSome_getrawtemperature_iff (b : IntWidth) (self : Bmp085) (s : I2cBus) :
    (getrawtemperature b self s).isSome ↔ TemperatureFits b self (word s) := by
  rw [getrawtemperature_eq, ← not_iff_not, ← divisor_eq_zero_iff]
  split_ifs with hzero
  · exact iff_of_true Bool.false_ne_true hzero
  · exact iff_of_false (not_not.mpr rfl) hzero

/-- The second divisor. -/
theorem rawB4_eq_zero_iff (b : IntWidth) (self : Bmp085) (ut : BitVec 16) :
    rawB4 b self (BitVec.ofInt 32 (degrees b self ut) - 4000) = 0 ↔ ¬PressureFits b self ut := by
  have hb6 : BitVec.ofInt 32 (degrees b self ut) - 4000
      = BitVec.ofInt 32 (degrees b self ut - 4000) := by
    rw [ofInt_sub]
    rfl
  have hx3 (x1 x2 : ℤ) : (BitVec.ofInt 32 x1 + BitVec.ofInt 32 x2 + 2).sshiftRight 2 + 32768
      = BitVec.ofInt 32 (ashr (x1 + x2 + 2) 2 + 32768) := by
    rw [BitVec.ofInt_add, ← ofInt_ashr, BitVec.ofInt_add, BitVec.ofInt_add]
    rfl
  rw [rawB4, hb6, long_eq_ofInt, long_eq_ofInt, ulong_eq_ofInt, ← BitVec.ofInt_mul, ofInt_ashr,
    ← BitVec.ofInt_mul, ofInt_ashr, ← BitVec.ofInt_mul, ofInt_ashr, hx3,
    ← BitVec.ofInt_mul, ofInt_ushiftRight, ← scale, PressureFits]
  have hmod := Int.emod_lt_of_pos (self.regac4.toNat * scale b self ut)
      (by decide : (0 : ℤ) < 2 ^ 32)
  have hnonneg := Int.emod_nonneg (self.regac4.toNat * scale b self ut)
    (by decide : (2 ^ 32 : ℤ) ≠ 0)
  rw [ofInt_eq_zero_iff (by omega) (by omega)]
  omega

theorem isSome_ulongDiv (a d : BitVec 32) : (ulongDiv a d).isSome ↔ d ≠ 0 := by
  rw [ulongDiv]
  split_ifs with h
  · exact iff_of_false Bool.false_ne_true (not_not.mpr h)
  · exact iff_of_true rfl h

/-- Both branches divide by `b4`. -/
theorem isSome_rawP (b7 b4 : BitVec 32) : (rawP b7 b4).isSome ↔ b4 ≠ 0 := by
  rw [rawP]
  split_ifs
  · exact isSome_ulongDiv _ _
  · rw [Option.isSome_map]
    exact isSome_ulongDiv _ _

theorem isSome_bind_some {α β : Type} (o : Option α) (f : α → β) :
    (o.bind fun a ↦ some (f a)).isSome = o.isSome := by
  cases o with
  | none => rfl
  | some a => rfl

/-- **`bmp085_getrawpressure`.** -/
theorem isSome_getrawpressure_iff (b : IntWidth) (self : Bmp085) (s : I2cBus) :
    (getrawpressure b self s).isSome ↔
      TemperatureFits b self (word s) ∧ PressureFits b self (word s) := by
  by_cases htemperature : TemperatureFits b self (word s)
  · have hdivisor := (divisor_eq_zero_iff b self (word s)).not.mpr (not_not.mpr htemperature)
    rw [and_iff_right htemperature, ← not_iff_not, ← rawB4_eq_zero_iff, getrawpressure,
      getrawtemperature_eq, if_neg hdivisor, Option.bind_eq_bind, Option.bind_some]
    dsimp only
    rw [Option.bind_eq_bind, isSome_bind_some, isSome_rawP, not_not]
  · have hnone : getrawtemperature b self s = none := by
      rw [getrawtemperature_eq, if_pos ((divisor_eq_zero_iff b self _).mpr htemperature)]
    rw [getrawpressure, hnone]
    exact iff_of_false Bool.false_ne_true fun h ↦ htemperature h.1

/-- **Divisions.** Whatever the registers and the readings are, these are the cases in which nothing
is divided by zero. -/
theorem isSome_read_iff (b : IntWidth) (self : Bmp085) (s : I2cBus) :
    ((readTemperature b self s).isSome ↔ TemperatureFits b self (word s)) ∧
      ((readPressure b self s).isSome ↔
        TemperatureFits b self (word s) ∧ PressureFits b self (word s)) := by
  rw [readTemperature, readPressure, Option.bind_eq_bind, Option.bind_eq_bind, isSome_bind_some,
    isSome_bind_some, isSome_getrawtemperature_iff, isSome_getrawpressure_iff]
  exact ⟨Iff.rfl, Iff.rfl⟩

/-- The device after transfers that failed. -/
def silent : Bmp085 × I2cBus := init 0xee ⟨[], fun _ ↦ 0⟩

/-- Zeros for the calibration, and zeros for the reading. -/
theorem read_silent_eq_none :
    (readTemperature .bits16 silent.1 silent.2).isSome = false ∧
      (readPressure .bits16 silent.1 silent.2).isSome = false ∧
      (readTemperature .bits32 silent.1 silent.2).isSome = false ∧
      (readPressure .bits32 silent.1 silent.2).isSome = false := by
  decide

end Bmp085

end Martink
