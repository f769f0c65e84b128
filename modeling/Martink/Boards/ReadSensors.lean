import Martink.Sensors.Mpu6000
import Mathlib.Tactic.NormNum

/-!
# The sensors of a flight controller

A board hands its readings out in one record, `struct fc_data`, by its entry `read_sensors`, and the
acceleration and the angular velocity also by functions of their own. The record of the CC3D and
that of the MultiWii board are filled here.

Both take the conversion of an acceleration for the velocity, and so it is a thousand times too
small in the record. The CC3D clears the record after it has set the flags.
-/

namespace Martink

def haveAcc : ℕ := 1 <<< 0
def haveGyr : ℕ := 1 <<< 1

/-- `struct fc_data`. -/
@[ext]
structure FcData where
  /-- Which of the others are there. -/
  flags : ℕ
  /-- The acceleration in g. -/
  accG : Axes ℚ
  /-- The angular velocity in degrees a second. -/
  gyrDeg : Axes ℚ
  /-- The magnetic field. -/
  mag : Axes ℚ
  /-- The words of the accelerometer. -/
  rawAcc : Axes (BitVec 16)
  /-- The words of the gyroscope. -/
  rawGyr : Axes (BitVec 16)
  /-- The words of the magnetometer. -/
  rawMag : Axes (BitVec 16)
  /-- The altitude by the barometer. -/
  atmosphericAltitude : ℚ
  /-- The altitude by the sonar. -/
  sonarAltitude : ℚ
  /-- The pressure. -/
  pressure : ℚ
  /-- The temperature. -/
  temperature : ℚ
  /-- The voltage of the battery. -/
  vbat : ℚ

/-- A record of zeros. -/
def FcData.zero : FcData where
  flags := 0
  accG := Axes.same 0
  gyrDeg := Axes.same 0
  mag := Axes.same 0
  rawAcc := Axes.same 0
  rawGyr := Axes.same 0
  rawMag := Axes.same 0
  atmosphericAltitude := 0
  sonarAltitude := 0
  pressure := 0
  temperature := 0
  vbat := 0

/-- `memset`. -/
def FcData.clear (_data : FcData) : FcData := zero

/-! ## The CC3D -/

def cc3dReadAccelerationG (mpu : Mpu) : Axes ℚ := Mpu6000.convertAcc mpu.readRawAcc

def cc3dReadAngularVelocityDps (mpu : Mpu) : Axes ℚ := Mpu6000.convertGyr mpu.readRawGyr

def cc3dReadSensors (mpu : Mpu) (data : FcData) : FcData :=
  let data := { data with flags := haveAcc ||| haveGyr }
  let data := data.clear
  let data := { data with rawAcc := mpu.readRawAcc }
  let data := { data with accG := Mpu6000.convertAcc data.rawAcc }
  let data := { data with rawGyr := mpu.readRawGyr }
  { data with gyrDeg := Mpu6000.convertAcc data.rawGyr }

/-! ## The MultiWii board -/

/-- The magnetometer, with the factor that is set by its driver. -/
structure Hmc5883l where
  /-- What its registers hold. -/
  regs : BitVec 8 → BitVec 8
  /-- The factor of its range. -/
  scale : ℚ

/-- The words come in the order x, z, y. -/
def Hmc5883l.readRawMag (self : Hmc5883l) : Axes (BitVec 16) :=
  let buff (c : BitVec 8) := (self.regs (3 + c)).setWidth 16
  ⟨buff 0 <<< 8 ||| buff 1, buff 4 <<< 8 ||| buff 5, buff 2 <<< 8 ||| buff 3⟩

def Hmc5883l.convertMag (self : Hmc5883l) (raw : Axes (BitVec 16)) : Axes ℚ :=
  ⟨raw.x.toInt * self.scale, raw.y.toInt * self.scale, raw.z.toInt * self.scale⟩

/-- The sensors of the board. The barometer, the sonar and the converter are given by what their
drivers return. -/
structure MwiiSensors where
  /-- The accelerometer and the gyroscope. -/
  mpu : Mpu
  /-- The magnetometer. -/
  hmc : Hmc5883l
  /-- What the sonar returns. -/
  distanceInCm : BitVec 16
  /-- The altitude that the barometer returns. -/
  altitude : ℚ
  /-- The temperature that it returns. -/
  temperature : ℚ
  /-- The pressure that it returns. -/
  pressure : ℤ
  /-- What the converter returns. -/
  adc : BitVec 16

def mwiiReadAccelerationG (brd : MwiiSensors) : Axes ℚ := Mpu6050.convertAcc brd.mpu.readRawAcc

def mwiiReadAngularVelocityDps (brd : MwiiSensors) : Axes ℚ := Mpu6050.convertGyr brd.mpu.readRawGyr

def mwiiReadSensors (brd : MwiiSensors) (data : FcData) : FcData :=
  let data := { data with flags := 0xffff }
  let data := { data with rawAcc := brd.mpu.readRawAcc }
  let data := { data with rawGyr := brd.mpu.readRawGyr }
  let data := { data with accG := Mpu6050.convertAcc data.rawAcc }
  let data := { data with gyrDeg := Mpu6050.convertAcc data.rawGyr }
  let data := { data with rawMag := brd.hmc.readRawMag }
  let data := { data with mag := brd.hmc.convertMag data.rawMag }
  let sonar := brd.distanceInCm.toInt
  { data with
    atmosphericAltitude := brd.altitude
    sonarAltitude := if 0 < sonar then sonar / 100 else -1
    temperature := brd.temperature
    pressure := brd.pressure
    vbat := brd.adc.toNat / 65535 }

/-! ## The boards -/

/-- A board, by its sensors. -/
inductive FcBoard
  | cc3d (mpu : Mpu)
  | mwii (brd : MwiiSensors)

namespace FcBoard

/-- The entry `read_sensors` of the board. -/
def readSensors : FcBoard → FcData → FcData
  | cc3d mpu => cc3dReadSensors mpu
  | mwii brd => mwiiReadSensors brd

def readAccelerationG : FcBoard → Axes ℚ
  | cc3d mpu => cc3dReadAccelerationG mpu
  | mwii brd => mwiiReadAccelerationG brd

def readAngularVelocityDps : FcBoard → Axes ℚ
  | cc3d mpu => cc3dReadAngularVelocityDps mpu
  | mwii brd => mwiiReadAngularVelocityDps brd

def mpu : FcBoard → Mpu
  | cc3d mpu => mpu
  | mwii brd => brd.mpu

/-- What is asked of the record. -/
structure CarriesReadings (b : FcBoard) (data : FcData) : Prop where
  /-- The acceleration is the one that is measured. -/
  acc : (b.readSensors data).accG = b.readAccelerationG
  /-- So is the angular velocity. -/
  gyr : (b.readSensors data).gyrDeg = b.readAngularVelocityDps
  /-- The flag of the acceleration is set. -/
  haveAcc : (b.readSensors data).flags &&& haveAcc ≠ 0
  /-- The flag of the angular velocity is set. -/
  haveGyr : (b.readSensors data).flags &&& haveGyr ≠ 0

variable (b : FcBoard) (data : FcData)

/-- The record does not depend on what it held before. -/
theorem readSensors_eq (data' : FcData) : b.readSensors data = b.readSensors data' := by
  cases b <;> rfl

/-- The raw values are those of the sensor. -/
theorem raw_readSensors : (b.readSensors data).rawAcc = b.mpu.readRawAcc ∧
    (b.readSensors data).rawGyr = b.mpu.readRawGyr := by
  cases b <;> exact ⟨rfl, rfl⟩

theorem accG_readSensors : (b.readSensors data).accG = b.readAccelerationG := by
  cases b <;> rfl

/-- The velocity in the record is right when there is none. -/
theorem gyrDeg_readSensors_iff : (b.readSensors data).gyrDeg = b.readAngularVelocityDps ↔
    b.mpu.readRawGyr = Axes.same 0 := by
  have hconvert := Mpu.convert_eq_convert_iff (a := 16384) (b := 164 / 10) (by norm_num)
    (by norm_num) (by norm_num) b.mpu.readRawGyr
  cases b <;> exact hconvert

/-- The flags are cleared again. -/
theorem flags_cc3d (mpu : Mpu) : ((cc3d mpu).readSensors data).flags = 0 := rfl

theorem flags_mwii (brd : MwiiSensors) : ((mwii brd).readSensors data).flags = 0xffff := rfl

/-- **The record.** It is right on the MultiWii board while this does not turn, and never on the
CC3D. -/
theorem carriesReadings_iff :
    b.CarriesReadings data ↔ (∃ brd, b = .mwii brd) ∧ b.mpu.readRawGyr = Axes.same 0 := by
  constructor
  · intro h
    refine ⟨?_, (b.gyrDeg_readSensors_iff data).mp h.gyr⟩
    cases b with
    | cc3d mpu => exact absurd (by rw [flags_cc3d, Nat.zero_and]) h.haveAcc
    | mwii brd => exact ⟨brd, rfl⟩
  · rintro ⟨⟨brd, rfl⟩, hstill⟩
    refine ⟨accG_readSensors _ _, (gyrDeg_readSensors_iff _ _).mpr hstill, ?_, ?_⟩
    · rw [flags_mwii]
      decide
    · rw [flags_mwii]
      decide

/-- A sensor that measures nothing. -/
def stillMpu : Mpu := ⟨fun _ ↦ 0⟩

/-- The CC3D marks nothing as present. -/
theorem not_carriesReadings_still : ¬(cc3d stillMpu).CarriesReadings FcData.zero := by
  intro h
  exact h.haveAcc (by decide)

end FcBoard

end Martink
