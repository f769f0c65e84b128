import Martink.Arch.Avr.PinStates
import Martink.Arch.Avr.Time
import Martink.Base.Word

/-!
# The receiver of the MultiWii board

`mwii_process_events` reads the four pins of the radio receiver. A pin that went low ends a pulse,
whose length becomes the value of the channel, if it is plausible and differs by more than 10 us
from the value. After a second without pulses all values go back to their defaults.

The test for a falling edge masks the status with `GP_WENT_LOW`. This has the bit `GP_CHANGED`,
which `GP_WENT_HIGH` has as well, so that a rising edge passes the test.
-/

namespace Martink

def rcMax : ℤ := 2500
def rcMin : ℤ := 500

def rcDefaults : Fin 6 → BitVec 16 := ![1000, 1500, 1500, 1500, 1500, 1500]

structure MultiwiiBoard where
  /-- The values of the six channels. -/
  rcValues : Fin 6 → BitVec 16
  /-- When they are reset. -/
  rcResetTimeout : ℤ

/-- What `gpio_get_status` gives for a pin. -/
structure Reading where
  /-- The edge that was seen. -/
  edge : PinEdge
  /-- The time of the last rising edge. -/
  tUp : ℤ
  /-- The time of the last falling edge. -/
  tDown : ℤ

def constrain (x a b : ℤ) : ℤ := if x < a then a else if x > b then b else x

def resetRc (brd : MultiwiiBoard) : MultiwiiBoard := { brd with rcValues := rcDefaults }

/-- The length of the pulse in microseconds. -/
def Reading.pulse (r : Reading) : ℤ := avrTsc.ticksToUs (r.tDown - r.tUp)

/-- `COMPUTE_RC_CHAN`. The argument of `abs` is an `int`, which has 16 bits here. -/
def computeRcChan (ch : Fin 6) (r : Reading) (brd : MultiwiiBoard) : MultiwiiBoard :=
  let ticks := r.pulse
  if (s16 ((brd.rcValues ch).toNat - ticks)).natAbs > 10 ∧ ticks > rcMin ∧ ticks < rcMax then
    { brd with rcValues := Function.update brd.rcValues ch (u16 (constrain ticks 1000 2000)) }
  else brd

/-- What is done with one channel, on the board and the flag `active`. -/
def readChannel (ch : Fin 4) (r : Reading) (s : MultiwiiBoard × Bool) : MultiwiiBoard × Bool :=
  if r.edge.status &&& gpWentLow ≠ 0 then (computeRcChan (ch.castLE (by decide)) r s.1, true) else s

/-- `now` is what the clock says in `timestamp_from_now_us`. -/
def computeRcValues (readings : Fin 4 → Reading) (now : ℤ) (brd : MultiwiiBoard) : MultiwiiBoard :=
  let s := (List.finRange 4).foldl (fun s ch ↦ readChannel ch (readings ch) s) (brd, false)
  if s.2 then { s.1 with rcResetTimeout := timestampFromNowUs avrTsc now 1000000 } else s.1

/-- `now'` is what the clock says in `timestamp_expired`. -/
def mwiiProcessEvents (readings : Fin 4 → Reading) (now now' : ℤ) (brd : MultiwiiBoard) :
    MultiwiiBoard :=
  let brd := computeRcValues readings now brd
  if timestampExpired now' brd.rcResetTimeout then resetRc brd else brd

/-- The dead band in the middle of a stick. -/
def deadBand (x : BitVec 16) : BitVec 16 := if (s16 (x.toNat - 1500)).natAbs < 20 then 1500 else x

/-- What `_mwii_read_receiver` hands out. -/
structure Receiver where
  /-- The throttle. -/
  thr : BitVec 16
  /-- The yaw. -/
  yaw : BitVec 16
  /-- The pitch. -/
  pitch : BitVec 16
  /-- The roll. -/
  roll : BitVec 16
  /-- The first auxiliary channel. -/
  aux0 : BitVec 16
  /-- The second auxiliary channel. -/
  aux1 : BitVec 16

def mwiiReadReceiver (brd : MultiwiiBoard) : Receiver where
  thr := brd.rcValues 0
  yaw := deadBand (brd.rcValues 1)
  pitch := deadBand (brd.rcValues 2)
  roll := deadBand (brd.rcValues 3)
  aux0 := brd.rcValues 4
  aux1 := brd.rcValues 5

/-! ## One call -/

namespace MultiwiiBoard

/-- The value is one of a servo. -/
def InRange (x : BitVec 16) : Prop := 1000 ≤ x.toNat ∧ x.toNat ≤ 2000

instance (x : BitVec 16) : Decidable (InRange x) := inferInstanceAs (Decidable (_ ∧ _))

variable {brd : MultiwiiBoard}

theorem inRange_rcDefaults (ch : Fin 6) : InRange (rcDefaults ch) := by
  fin_cases ch <;> decide

theorem constrain_eq (x : ℤ) : constrain x 1000 2000 = max 1000 (min x 2000) := by
  rw [constrain]
  split_ifs <;> omega

theorem toNat_u16_constrain (x : ℤ) :
    ((u16 (constrain x 1000 2000)).toNat : ℤ) = max 1000 (min x 2000) := by
  rw [constrain_eq]
  exact toNat_u16_of_lt (by omega) (by omega)

theorem edge_status_and_iff (e : PinEdge) : e.status &&& gpWentLow ≠ 0 ↔ e ≠ .none := by
  cases e <;> decide

/-- The value of a channel after a pulse of `t` microseconds. -/
def filtered (x : BitVec 16) (t : ℤ) : BitVec 16 :=
  if (s16 (x.toNat - t)).natAbs > 10 ∧ t > rcMin ∧ t < rcMax then u16 (constrain t 1000 2000) else x

theorem inRange_filtered {x : BitVec 16} (h : InRange x) (t : ℤ) : InRange (filtered x t) := by
  rw [filtered]
  split_ifs
  · have hval := toNat_u16_constrain t
    exact ⟨by omega, by omega⟩
  · exact h

/-- The filter follows a plausible pulse. -/
theorem filtered_near {x : BitVec 16} (h : InRange x) {t : ℤ} (hlo : 500 < t) (hhi : t < 2500) :
    |((filtered x t).toNat : ℤ) - max 1000 (min t 2000)| ≤ 10 := by
  obtain ⟨h1, h2⟩ := h
  have hsmall : s16 (x.toNat - t) = x.toNat - t := s16_of_range (by omega) (by omega)
  rw [filtered, hsmall]
  split_ifs with hfar
  · rw [toNat_u16_constrain, sub_self]
    decide
  · have hnear : (x.toNat - t : ℤ).natAbs ≤ 10 := by
      by_contra hgt
      exact hfar ⟨by omega, hlo, hhi⟩
    rw [abs_le]
    omega

theorem filtered_of_not_pulse {x : BitVec 16} {t : ℤ} (h : ¬(500 < t ∧ t < 2500)) :
    filtered x t = x := if_neg fun hp ↦ h hp.2

theorem rcValues_computeRcChan (ch : Fin 6) (r : Reading) (brd : MultiwiiBoard) (i : Fin 6) :
    (computeRcChan ch r brd).rcValues i
      = if i = ch then filtered (brd.rcValues i) r.pulse else brd.rcValues i := by
  rw [computeRcChan, filtered]
  by_cases hi : i = ch
  · subst hi
    rw [if_pos rfl]
    by_cases hpass : (s16 ((brd.rcValues i).toNat - r.pulse)).natAbs > 10 ∧ r.pulse > rcMin ∧
        r.pulse < rcMax
    · simp [if_pos hpass]
    · simp [if_neg hpass]
  · rw [if_neg hi]
    split_ifs <;> simp [hi]

theorem rcValues_readChannel (ch : Fin 4) (r : Reading) (s : MultiwiiBoard × Bool) (i : Fin 6) :
    (readChannel ch r s).1.rcValues i =
      if r.edge ≠ .none ∧ i = ch.castLE (by decide) then filtered (s.1.rcValues i) r.pulse
      else s.1.rcValues i := by
  rw [readChannel, if_congr (edge_status_and_iff r.edge) rfl rfl]
  by_cases hedge : r.edge = .none
  · simp [hedge]
  · simp [hedge, rcValues_computeRcChan]

theorem active_readChannel (ch : Fin 4) (r : Reading) (s : MultiwiiBoard × Bool) :
    (readChannel ch r s).2 = (s.2 || decide (r.edge ≠ .none)) := by
  rw [readChannel, if_congr (edge_status_and_iff r.edge) rfl rfl]
  by_cases hedge : r.edge = .none <;> simp [hedge]

theorem timeout_readChannel (ch : Fin 4) (r : Reading) (s : MultiwiiBoard × Bool) :
    (readChannel ch r s).1.rcResetTimeout = s.1.rcResetTimeout := by
  rw [readChannel, computeRcChan]
  split_ifs <;> rfl

/-- The values after the four channels are read. -/
theorem rcValues_computeRcValues (readings : Fin 4 → Reading) (now : ℤ) (i : Fin 6) :
    (computeRcValues readings now brd).rcValues i =
      if h : i.val < 4 then
        if (readings ⟨i, h⟩).edge ≠ .none then filtered (brd.rcValues i) (readings ⟨i, h⟩).pulse
        else brd.rcValues i
      else brd.rcValues i := by
  have hvalues : (computeRcValues readings now brd).rcValues i = ((List.finRange 4).foldl
      (fun s ch ↦ readChannel ch (readings ch) s) (brd, false)).1.rcValues i := by
    rw [computeRcValues]
    split_ifs <;> rfl
  rw [hvalues, show List.finRange 4 = [0, 1, 2, 3] from rfl]
  simp only [List.foldl_cons, List.foldl_nil, rcValues_readChannel]
  fin_cases i <;> simp [Fin.ext_iff]

/-- Any edge renews the timeout, also a rising one. -/
theorem timeout_computeRcValues (readings : Fin 4 → Reading) (now : ℤ) :
    (computeRcValues readings now brd).rcResetTimeout =
      if ∃ ch, (readings ch).edge ≠ .none then now + 2000000 else brd.rcResetTimeout := by
  have hactive : ((List.finRange 4).foldl (fun s ch ↦ readChannel ch (readings ch) s)
      (brd, false)).2 = decide (∃ ch, (readings ch).edge ≠ .none) := by
    rw [show List.finRange 4 = [0, 1, 2, 3] from rfl]
    simp only [List.foldl_cons, List.foldl_nil, active_readChannel, Bool.false_or]
    simp [Fin.exists_fin_succ, Bool.or_assoc]
  have htimeout : ((List.finRange 4).foldl (fun s ch ↦ readChannel ch (readings ch) s)
      (brd, false)).1.rcResetTimeout = brd.rcResetTimeout := by
    rw [show List.finRange 4 = [0, 1, 2, 3] from rfl]
    simp only [List.foldl_cons, List.foldl_nil, timeout_readChannel]
  rw [computeRcValues, hactive]
  simp only [decide_eq_true_eq]
  split_ifs
  · rfl
  · exact htimeout

/-! ## Runs -/

/-- One call of `mwii_process_events`. -/
structure Round where
  /-- What the pins read as. -/
  readings : Fin 4 → Reading
  /-- The time when the timeout is set. -/
  now : ℤ
  /-- The time when it is looked at. -/
  now' : ℤ

namespace Round

def process (r : Round) (brd : MultiwiiBoard) : MultiwiiBoard :=
  mwiiProcessEvents r.readings r.now r.now' brd

def SeesFalling (r : Round) : Prop := ∃ ch, (r.readings ch).edge = .low

def SeesRising (r : Round) : Prop := ∃ ch, (r.readings ch).edge = .high

/-- The call puts the values back to their defaults. -/
def Expires (r : Round) (brd : MultiwiiBoard) : Prop :=
  (computeRcValues r.readings r.now brd).rcResetTimeout < r.now'

end Round

def runRounds (rounds : List Round) (brd : MultiwiiBoard) : MultiwiiBoard :=
  rounds.foldl (fun brd r ↦ r.process brd) brd

theorem process_of_expires {r : Round} (h : r.Expires brd) :
    (r.process brd).rcValues = rcDefaults := by
  rw [Round.process, mwiiProcessEvents, if_pos (timestampExpired_iff.mpr h)]
  rfl

theorem process_of_not_expires {r : Round} (h : ¬r.Expires brd) :
    r.process brd = computeRcValues r.readings r.now brd := by
  rw [Round.process, mwiiProcessEvents, if_neg fun h' ↦ h (timestampExpired_iff.mp h')]

theorem timeout_process (r : Round) :
    (r.process brd).rcResetTimeout =
      if ∃ ch, (r.readings ch).edge ≠ .none then r.now + 2000000 else brd.rcResetTimeout := by
  rw [← timeout_computeRcValues, Round.process, mwiiProcessEvents]
  split_ifs <;> rfl

theorem inRange_process (h : ∀ i, InRange (brd.rcValues i)) (r : Round) (i : Fin 6) :
    InRange ((r.process brd).rcValues i) := by
  by_cases hexp : r.Expires brd
  · rw [process_of_expires hexp]
    exact inRange_rcDefaults i
  · rw [process_of_not_expires hexp, rcValues_computeRcValues]
    split_ifs
    · exact inRange_filtered (h i) _
    · exact h i
    · exact h i

theorem inRange_runRounds (rounds : List Round) : ∀ {brd : MultiwiiBoard},
    (∀ i, InRange (brd.rcValues i)) → ∀ i, InRange ((runRounds rounds brd).rcValues i) := by
  induction rounds with
  | nil => exact fun h ↦ h
  | cons r rounds ih => exact fun h ↦ ih fun i ↦ inRange_process h r i

theorem inRange_deadBand {x : BitVec 16} (h : InRange x) : InRange (deadBand x) := by
  rw [deadBand]
  split_ifs
  · decide
  · exact h

/-- The timeout is over at a time when it was over before, and more than a second has passed since
every edge. -/
theorem timeout_runRounds_lt {time : ℤ} (rounds : List Round) : ∀ {brd : MultiwiiBoard},
    brd.rcResetTimeout < time →
      (∀ m ∈ rounds, (∃ ch, (m.readings ch).edge ≠ .none) → m.now + 2000000 < time) →
        (runRounds rounds brd).rcResetTimeout < time := by
  induction rounds with
  | nil => exact fun h _ ↦ h
  | cons r rounds ih =>
    intro brd h hedges
    rw [List.forall_mem_cons] at hedges
    refine ih ?_ hedges.2
    rw [timeout_process]
    split_ifs with hedge
    · exact hedges.1 hedge
    · exact h

/-- What a call has to do to the board. -/
structure RoundSpec (r : Round) (brd brd' : MultiwiiBoard) : Prop where
  /-- All values are in their range. -/
  inRange : ∀ i, InRange (brd'.rcValues i)
  /-- A falling edge after a pulse of the right width moves the value to within ten of it. -/
  follows : ∀ ch : Fin 4, (r.readings ch).edge = .low → 500 < (r.readings ch).pulse →
    (r.readings ch).pulse < 2500 → ¬r.Expires brd →
      |((brd'.rcValues (ch.castLE (by decide))).toNat : ℤ)
        - max 1000 (min (r.readings ch).pulse 2000)| ≤ 10
  /-- A pulse of another width changes nothing. -/
  keeps : ∀ ch : Fin 4, ¬(500 < (r.readings ch).pulse ∧ (r.readings ch).pulse < 2500) →
    ¬r.Expires brd → brd'.rcValues (ch.castLE (by decide)) = brd.rcValues (ch.castLE (by decide))
  /-- What is handed out is in its range too. -/
  receiver : InRange (mwiiReadReceiver brd').thr ∧ InRange (mwiiReadReceiver brd').yaw ∧
    InRange (mwiiReadReceiver brd').pitch ∧ InRange (mwiiReadReceiver brd').roll ∧
    InRange (mwiiReadReceiver brd').aux0 ∧ InRange (mwiiReadReceiver brd').aux1

theorem roundSpec_process (h : ∀ i, InRange (brd.rcValues i)) (r : Round) :
    RoundSpec r brd (r.process brd) where
  inRange := inRange_process h r
  follows ch hedge hlo hhi hexp := by
    rw [process_of_not_expires hexp, rcValues_computeRcValues, dif_pos (by simp)]
    simp only [Fin.val_castLE, Fin.eta]
    rw [if_pos (by rw [hedge]; decide)]
    exact filtered_near (h _) hlo hhi
  keeps ch hpulse hexp := by
    rw [process_of_not_expires hexp, rcValues_computeRcValues, dif_pos (by simp)]
    simp only [Fin.val_castLE, Fin.eta]
    rw [filtered_of_not_pulse hpulse, ite_self]
  receiver := by
    have hrange := inRange_process h r
    exact ⟨hrange 0, inRange_deadBand (hrange 1), inRange_deadBand (hrange 2),
      inRange_deadBand (hrange 3), hrange 4, hrange 5⟩

/-- The last call is made more than a second after the first, and only the first has seen a falling
edge. -/
structure Silence (q : Round) (mid : List Round) (r : Round) : Prop where
  /-- The first call sees a falling edge. -/
  falling : q.SeesFalling
  /-- No later one does. -/
  none_since : ∀ m ∈ mid ++ [r], ¬m.SeesFalling
  /-- More than a second has passed. -/
  late : q.now + 2000000 < r.now'

/-- A silence in which no rising edge was seen for a second. -/
theorem Silence.rcValues {q r : Round} {mid : List Round} (h : Silence q mid r)
    (hrising : ∀ m ∈ mid ++ [r], m.SeesRising → m.now + 2000000 < r.now') (brd : MultiwiiBoard) :
    (runRounds (q :: (mid ++ [r])) brd).rcValues = rcDefaults := by
  have hedges : ∀ m ∈ mid ++ [r], (∃ ch, (m.readings ch).edge ≠ .none) →
      m.now + 2000000 < r.now' := by
    rintro m hm ⟨ch, hch⟩
    cases hedge : (m.readings ch).edge with
    | none => exact (hch hedge).elim
    | high => exact hrising m hm ⟨ch, hedge⟩
    | low => exact (h.none_since m hm ⟨ch, hedge⟩).elim
  have hfirst : (q.process brd).rcResetTimeout < r.now' := by
    rw [timeout_process, if_pos]
    · exact h.late
    · obtain ⟨ch, hch⟩ := h.falling
      exact ⟨ch, by rw [hch]; decide⟩
  have hmid := timeout_runRounds_lt mid hfirst fun m hm ↦ hedges m (List.mem_append_left _ hm)
  have hrun : runRounds (q :: (mid ++ [r])) brd = r.process (runRounds mid (q.process brd)) := by
    simp [runRounds]
  rw [hrun]
  refine process_of_expires ?_
  -- The last call may itself have renewed the timeout.
  rw [Round.Expires, timeout_computeRcValues]
  split_ifs with hedge
  · exact hedges r (by simp) hedge
  · exact hmid

end MultiwiiBoard

open MultiwiiBoard

/-- **The receiver.** In a run in which a call made more than a second after the last falling edge
finds no rising edge less than a second old, every call does what it has to, and a call more than a
second after the last falling edge leaves the defaults. -/
theorem mwiiProcessEvents_spec (brd : MultiwiiBoard) (rounds : List Round)
    (hcond : ∀ pre q mid r post, rounds = pre ++ q :: (mid ++ r :: post) → Silence q mid r →
      ∀ m ∈ mid ++ [r], m.SeesRising → m.now + 2000000 < r.now') :
    (∀ pre r post, rounds = pre ++ r :: post →
      RoundSpec r (runRounds pre (resetRc brd)) (runRounds (pre ++ [r]) (resetRc brd))) ∧
    ∀ pre q mid r post, rounds = pre ++ q :: (mid ++ r :: post) → Silence q mid r →
      (runRounds (pre ++ q :: (mid ++ [r])) (resetRc brd)).rcValues = rcDefaults := by
  refine ⟨fun pre r post _ ↦ ?_, fun pre q mid r post hrounds hsilence ↦ ?_⟩
  · have hrun : runRounds (pre ++ [r]) (resetRc brd) = r.process (runRounds pre (resetRc brd)) := by
      simp [runRounds]
    rw [hrun]
    exact roundSpec_process (inRange_runRounds pre inRange_rcDefaults) r
  · have hrun : runRounds (pre ++ q :: (mid ++ [r])) (resetRc brd)
        = runRounds (q :: (mid ++ [r])) (runRounds pre (resetRc brd)) := by
      simp [runRounds]
    rw [hrun]
    exact hsilence.rcValues (hcond pre q mid r post hrounds hsilence) _

/-- A round in which only channel 1 has an edge. -/
def yawRound (edge : PinEdge) (tUp tDown now : ℤ) : Round where
  readings ch := if ch.val = 1 then ⟨edge, tUp, tDown⟩ else ⟨.none, 0, 0⟩
  now := now
  now' := now

theorem silence_yawRound (edge : PinEdge) (tUp tDown time : ℤ) (hedge : edge ≠ .low)
    (hlate : 2000000 < time) :
    Silence (yawRound .low 0 2400 0) [] (yawRound edge tUp tDown time) where
  falling := ⟨1, rfl⟩
  none_since := by
    rw [List.nil_append, List.forall_mem_singleton]
    rintro ⟨ch, hch⟩
    simp only [yawRound] at hch
    split at hch
    · exact hedge hch
    · cases hch
  late := by simpa [yawRound] using hlate

/-- A pulse of 1200 us, and a call without edges a little more than a second later. -/
theorem mwiiProcessEvents_spec_silence :
    (runRounds [yawRound .low 0 2400 0, yawRound .none 0 0 2000001]
      (resetRc ⟨rcDefaults, 0⟩)).rcValues = rcDefaults := by
  refine (mwiiProcessEvents_spec ⟨rcDefaults, 0⟩
    [yawRound .low 0 2400 0, yawRound .none 0 0 2000001] ?_).2 [] (yawRound .low 0 2400 0) []
    (yawRound .none 0 0 2000001) [] rfl (silence_yawRound _ _ _ _ (by decide) (by decide))
  rintro pre q mid r post hrounds - m hm ⟨ch, hch⟩
  have hmem : m ∈ [yawRound .low 0 2400 0, yawRound .none 0 0 2000001] := by
    rw [hrounds]
    simp only [List.mem_append, List.mem_cons] at hm ⊢
    tauto
  simp only [List.mem_cons, List.not_mem_nil, or_false] at hmem
  rcases hmem with rfl | rfl <;> simp only [yawRound] at hch <;> split at hch <;> cases hch

/-- When the later call sees a rising edge, the value of the pulse stays. -/
theorem mwiiProcessEvents_rising :
    Silence (yawRound .low 0 2400 0) [] (yawRound .high 2000001 2400 2000001) ∧
      (runRounds [yawRound .low 0 2400 0, yawRound .high 2000001 2400 2000001]
        (resetRc ⟨rcDefaults, 0⟩)).rcValues 1 = 1200 :=
  ⟨silence_yawRound _ _ _ _ (by decide) (by decide), by decide⟩

end Martink
