import Mathlib.Tactic

/-!
# Timestamps

`timestamp_t` is a signed 64-bit number of ticks, which lasts for well over a hundred thousand years
of running time; timestamps are integers here. How long a tick is depends on the architecture, which
converts with its own `tsc_us_to_ticks` and `tsc_ticks_to_us`. A function that reads the clock takes
the reading as `now`.
-/

namespace Martink

/-- `tsc_us_to_ticks` and `tsc_ticks_to_us` of an architecture. -/
structure TscUnits where
  /-- Microseconds in ticks. -/
  usToTicks : ℤ → ℤ
  /-- Ticks in microseconds. -/
  ticksToUs : ℤ → ℤ

def timestampBefore (unknown known : ℤ) : Bool := unknown - known < 0

def timestampAfter (a b : ℤ) : Bool := timestampBefore b a

def timestampExpired (now timeout : ℤ) : Bool := timestampAfter now timeout

def timestampFromNowUs (units : TscUnits) (now us : ℤ) : ℤ := now + units.usToTicks us

@[simp] theorem timestampExpired_iff {now timeout : ℤ} :
    timestampExpired now timeout = true ↔ timeout < now := by
  simp [timestampExpired, timestampAfter, timestampBefore]

end Martink
