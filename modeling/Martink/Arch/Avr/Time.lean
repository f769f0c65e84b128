import Martink.Arch.Time
import Martink.Base.Outcome

/-!
# The time stamp counter of the AVR

Timer 1 counts clock ticks in 16 bits, and its overflow interrupt counts the overflows in a
`timestamp_t`. `tsc_read` puts the two together in an atomic block.

The timer goes on counting while interrupts are disabled, so an overflow can be pending when the
counter is read: the flag `TOV1` is set and the interrupt has not run. A run of the counter is a
list of ticks and interrupts in any order in which an interrupt runs only when it is pending, and no
later than the next overflow.

## The law of the counter

What `tsc_read` returns falls behind the ticks by one at each overflow that has been counted
(`TCNT1` has 65536 values, and the code adds 65535), and by 65536 while one is pending.
-/

namespace Martink

/-- `TSC_TICKS_PER_US` is 2. -/
def avrTsc : TscUnits where
  usToTicks us := 2 * us
  ticksToUs ticks := ticks.tdiv 2

/-- Timer 1 with the software count of its overflows. -/
structure Timer1 where
  /-- The counter. -/
  tcnt1 : BitVec 16
  /-- The overflow flag. -/
  tov1 : Bool
  /-- The overflows that the interrupt has counted. -/
  tscOvf : ℤ

/-- `TIMER1_OVF_vect`; the hardware clears the flag when it starts the interrupt. -/
def timer1OvfVect (t : Timer1) : Timer1 := { t with tov1 := false, tscOvf := t.tscOvf + 1 }

def tscRead (t : Timer1) : ℤ := t.tcnt1.toNat + t.tscOvf * 65535

namespace Timer1

/-- One clock tick of the timer. -/
def tick (t : Timer1) : Timer1 :=
  { t with tcnt1 := t.tcnt1 + 1, tov1 := t.tov1 || t.tcnt1 + 1 == 0 }

inductive Event
  | tick | ovf
  deriving DecidableEq

inductive Step : Timer1 → Event → Timer1 → Prop
  | tick {t : Timer1} (h : t.tov1 = true → t.tcnt1 + 1 ≠ 0) : Step t .tick t.tick
  | ovf {t : Timer1} (h : t.tov1 = true) : Step t .ovf (timer1OvfVect t)

/-! ## Counting ticks -/

/-- The ticks the timer has made since it was zero, also those of a pending overflow. -/
def ticks (t : Timer1) : ℤ := t.tcnt1.toNat + 65536 * (t.tscOvf + if t.tov1 then 1 else 0)

theorem ticks_step {t t' : Timer1} {e : Event} (h : Step t e t') :
    t'.ticks = t.ticks + if e = .tick then 1 else 0 := by
  cases h with
  | tick h =>
    have hlt := t.tcnt1.isLt
    have hnext : (t.tcnt1 + 1).toNat = (t.tcnt1.toNat + 1) % 65536 := BitVec.toNat_add _ _
    -- At a wrap the 65536 ticks move from the counter to the pending overflow.
    by_cases hzero : t.tcnt1 + 1 = 0
    · have htov : t.tov1 = false := by
        by_contra hne
        exact h (Bool.eq_true_of_not_eq_false hne) hzero
      rw [hzero, show (0 : BitVec 16).toNat = 0 from rfl] at hnext
      simp only [ticks, tick, hzero, htov]
      simp only [BitVec.ofNat_eq_ofNat, BitVec.toNat_ofNat, beq_self_eq_true, Bool.or_true]
      norm_num
      omega
    · have hne : (t.tcnt1 + 1).toNat ≠ 0 := fun heq ↦ hzero (BitVec.eq_of_toNat_eq heq)
      simp only [ticks, tick, beq_eq_false_iff_ne.mpr hzero, Bool.or_false, if_true]
      omega
  | ovf h =>
    simp [ticks, timer1OvfVect, h]

theorem tscOvf_step {t t' : Timer1} {e : Event} (h : Step t e t') :
    t'.tscOvf = t.tscOvf + if e = .ovf then 1 else 0 := by
  cases h with
  | tick h => simp [tick]
  | ovf h => simp [timer1OvfVect]

/-- A reading is behind by one for every overflow counted, and by 65536 for a pending one. -/
theorem tscRead_eq (t : Timer1) :
    tscRead t = t.ticks - t.tscOvf - 65536 * if t.tov1 then 1 else 0 := by
  rw [tscRead, ticks]
  ring

/-- How often the counter wraps to zero in a run from `t`. -/
def wraps (t : Timer1) (es : List Event) : ℕ := (t.tcnt1.toNat + es.count .tick) / 65536

/-- A wrap leads to an interrupt that runs or to one that is pending. -/
theorem wraps_eq {t t' : Timer1} {es : List Event} (h : Path Step t es t') :
    (wraps t es : ℤ) + (if t.tov1 then 1 else 0)
      = es.count .ovf + if t'.tov1 then 1 else 0 := by
  have hticks := h.eq_add_count (f := ticks) fun _ _ _ ↦ ticks_step
  have hovf := h.eq_add_count (f := tscOvf) fun _ _ _ ↦ tscOvf_step
  have hlt := t'.tcnt1.isLt
  rw [ticks, ticks] at hticks
  rw [wraps]
  omega

theorem path_ticks (n : ℕ) : ∀ {t : Timer1}, t.tcnt1.toNat + n < 65536 →
    Path Step t (List.replicate n .tick) { t with tcnt1 := t.tcnt1 + BitVec.ofNat 16 n } := by
  induction n with
  | zero =>
    intro t _
    simpa using Path.nil t
  | succ n ih =>
    intro t h
    have hnext : (t.tcnt1 + 1).toNat = t.tcnt1.toNat + 1 := by
      rw [BitVec.toNat_add, show BitVec.toNat (1 : BitVec 16) = 1 from rfl]
      omega
    have hne : t.tcnt1 + 1 ≠ 0 := fun heq ↦ by
      rw [heq] at hnext
      exact absurd hnext (by simp)
    have htick : t.tick = { t with tcnt1 := t.tcnt1 + 1 } := by
      rw [tick, beq_eq_false_iff_ne.mpr hne, Bool.or_false]
    have hrest := ih (t := t.tick) (by rw [htick]; dsimp only; omega)
    rw [htick] at hrest
    refine .cons (.tick fun _ ↦ hne) ?_
    rw [htick]
    have hsum : t.tcnt1 + BitVec.ofNat 16 (n + 1) = t.tcnt1 + 1 + BitVec.ofNat 16 n := by
      rw [add_comm n 1, BitVec.ofNat_add, ← BitVec.add_assoc]
      rfl
    rw [hsum]
    exact hrest

end Timer1

open Timer1

/-- **Elapsed time.** The difference of two readings is the number of ticks between them exactly
when the counter does not wrap between them and no overflow is counted, or when it wraps 65535 times
and 65536 overflows are counted, the first of which was pending at the first reading. -/
theorem tscRead_sub_eq_iff {t t' : Timer1} {es : List Event} (h : Path Step t es t') :
    tscRead t' - tscRead t = es.count .tick ↔
      (wraps t es = 0 ∧ es.count .ovf = 0) ∨ (wraps t es = 65535 ∧ es.count .ovf = 65536) := by
  have hticks := h.eq_add_count (f := ticks) fun _ _ _ ↦ ticks_step
  have hovf := h.eq_add_count (f := tscOvf) fun _ _ _ ↦ tscOvf_step
  have hwraps := wraps_eq h
  rw [tscRead_eq, tscRead_eq]
  split_ifs at hwraps ⊢ <;> omega

/-- Two ticks in the middle of the counter's range. -/
theorem tscRead_sub_two : tscRead ⟨5002, false, 7⟩ - tscRead ⟨5000, false, 7⟩ = 2 :=
  (@tscRead_sub_eq_iff ⟨5000, false, 7⟩ ⟨5002, false, 7⟩ [.tick, .tick]
    (.cons (.tick (by decide)) (.cons (.tick (by decide)) (.nil _)))).mpr (.inl (by decide))

/-- From zero on, the reading after 65535 ticks is 65535. One tick later it is 0 until the overflow
interrupt runs, and then it is 65535 again. -/
theorem tscRead_backwards :
    ∃ t t' t'', Path Step ⟨0, false, 0⟩ (List.replicate 65535 .tick) t ∧ Step t .tick t' ∧
      Step t' .ovf t'' ∧ tscRead t' < tscRead t ∧ tscRead t'' - tscRead t ≠ 1 :=
  ⟨_, _, _, path_ticks (t := ⟨0, false, 0⟩) 65535 (by decide), .tick (by decide), .ovf (by decide),
    by decide, by decide⟩

end Martink
