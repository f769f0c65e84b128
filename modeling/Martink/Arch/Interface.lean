import Mathlib.Tactic

/-!
# Device interfaces

`arch/interface.h` describes devices by structures of function pointers, so that a driver can be
built on whatever the board provides. A driver is modelled in the same way: it is a function over
an interface with an arbitrary state, and the devices are interfaces.
-/

namespace Martink

/-- `struct i2c_interface`. A write is handed the `max_sz` bytes it is to send, a read returns the
bytes it stored, and both return their 32-bit count. -/
structure I2cInterface (σ : Type) where
  /-- `start_write`: the address and the bytes. -/
  startWrite : σ → BitVec 8 → List (BitVec 8) → σ × BitVec 32
  /-- `start_read`: the address and the number of bytes. -/
  startRead : σ → BitVec 8 → BitVec 16 → σ × List (BitVec 8) × BitVec 32
  /-- `stop`: the status. -/
  stop : σ → σ × BitVec 16
  /-- `wait`: the address. -/
  wait : σ → BitVec 8 → σ

/-- What travels over an I2C bus, as its master asks for it. -/
inductive I2cMsg where
  | startWrite (address : BitVec 8) (data : List (BitVec 8))
  | startRead (address : BitVec 8) (maxSz : BitVec 16)
  | stop
  | wait (address : BitVec 8)
  deriving DecidableEq

/-- A bus that only writes down what it is asked to do, in order. -/
def I2cInterface.recorder : I2cInterface (List I2cMsg) where
  startWrite log address data := (log ++ [.startWrite address data], BitVec.ofNat 32 data.length)
  startRead log address maxSz := (log ++ [.startRead address maxSz], [], 0)
  stop log := (log ++ [.stop], 1)
  wait log address := log ++ [.wait address]

end Martink
