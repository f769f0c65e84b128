import Martink.Arch.Stm32.Pwm

/-!
# Where a measured width comes from

`Source` reads the value of `capture` off the history of a channel: `0` since the channel was set
up, the default value since a silence, or the width between two captures that follow each other
directly, the first on a rising and the second on a falling edge. `PwmChan.Tracked` says that the
state of a channel agrees with the polarity programmed for it and that its value has such a source,
possibly followed by the rising edge of a pulse that is still high.

Whatever the calls do, a channel only goes through the steps of `PwmChan.Step`. An invariant of a
channel is proved for these four steps.
-/

namespace Martink

open Relation

/-! ## Steps of a channel -/

namespace PwmChan

inductive Step (ch : PwmChan) : PwmChan → Prop
  | load (ccr : BitVec 16) : Step ch { ch with ccr := ccr }
  | captured (now : ℤ) (arr : BitVec 16) : Step ch (ch.captured now arr)
  | timedOut {now : ℤ} : ch.input.us + 100000 < now → Step ch (ch.timedOut now)
  | configured (defValue : BitVec 32) : Step ch (ch.configured defValue)

abbrev Steps : PwmChan → PwmChan → Prop := ReflTransGen Step

variable {ch ch' : PwmChan}

theorem captured_output (now : ℤ) (arr : BitVec 16) (ch : PwmChan) :
    (ch.captured now arr).output = ch.output := by
  cases hstate : ch.input.state <;> simp only [PwmChan.captured, hstate]

theorem Step.output (h : Step ch ch') : ch'.output = ch.output := by
  cases h with
  | captured now arr => exact captured_output now arr ch
  | _ => rfl

theorem Steps.output (h : Steps ch ch') : ch'.output = ch.output := by
  induction h with
  | refl => rfl
  | tail _ hstep ih => exact hstep.output.trans ih

end PwmChan

namespace PwmTimer

variable {t u t' : PwmTimer}

/-- Every channel makes steps of its own, and interrupts that are enabled stay so. -/
structure Steps (t t' : PwmTimer) : Prop where
  /-- The steps of the channels. -/
  chan : ∀ c, (t.chan c).Steps (t'.chan c)
  /-- No interrupt is disabled. -/
  dier : ∀ it, t.dier &&& it ≠ 0 → t'.dier &&& it ≠ 0

theorem Steps.refl (t : PwmTimer) : Steps t t := ⟨fun _ ↦ .refl, fun _ ↦ id⟩

theorem Steps.trans (h : Steps t u) (h' : Steps u t') : Steps t t' :=
  ⟨fun c ↦ (h.chan c).trans (h'.chan c), fun it ↦ h'.dier it ∘ h.dier it⟩

/-- No channel sends pulse trains. -/
def OnlyCaptures (t : PwmTimer) : Prop := ∀ c, (t.chan c).output.mode ≠ .ppmOutput

theorem OnlyCaptures.steps (h : t.OnlyCaptures) (hsteps : Steps t t') : t'.OnlyCaptures := by
  intro c
  rw [(hsteps.chan c).output]
  exact h c

theorem steps_update {c : Fin 4} {ch : PwmChan} (h : (t.chan c).Step ch) (d : Fin 4) :
    (t.chan d).Steps (Function.update t.chan c ch d) := by
  by_cases hd : d = c
  · rw [hd, Function.update_self]
    exact .single h
  · rw [Function.update_of_ne hd]

theorem steps_load (t : PwmTimer) (i : TimIrq) : Steps t (t.load i) :=
  ⟨fun c ↦ .single (.load (i.ccr c)), fun _ ↦ id⟩

theorem steps_captureStep (now : ℤ) (t : PwmTimer) (c : Fin 4) : Steps t (t.captureStep now c) := by
  rw [PwmTimer.captureStep]
  split
  · dsimp only
    split
    · exact ⟨fun _ ↦ .refl, fun _ ↦ id⟩
    · exact ⟨steps_update (t := t.clearPending (intIds c)) (.captured now _), fun _ ↦ id⟩
  · exact .refl t

theorem steps_captureEvents (i : TimIrq) (t : PwmTimer) : Steps t (t.captureEvents i) :=
  List.foldlRecOn (motive := Steps t) _ _ (.refl t) fun _ ht c _ ↦
    ht.trans (steps_captureStep _ _ c)

/-- Without pulse trains, the second loop is defined. -/
theorem OnlyCaptures.updateStep (h : t.OnlyCaptures) (now : ℤ) (c : Fin 4) :
    ∃ t', t.updateStep now c = some t' ∧ Steps t t' := by
  simp only [PwmTimer.updateStep]
  rw [if_neg (h c)]
  split
  · exact ⟨t, rfl, .refl t⟩
  · split
    · rename_i hexpired
      have hlate := timestampExpired_iff.mp hexpired
      exact ⟨_, rfl, steps_update (.timedOut hlate), fun _ ↦ id⟩
    · exact ⟨t, rfl, .refl t⟩

theorem OnlyCaptures.updateEvent (h : t.OnlyCaptures) (i : TimIrq) :
    ∃ t', t.updateEvent i = some t' ∧ Steps t t' := by
  have hloop (l : List (Fin 4)) : ∀ {t : PwmTimer}, t.OnlyCaptures →
      ∃ t', l.foldlM (fun t c ↦ t.updateStep (i.updateNow c) c) t = some t' ∧ Steps t t' := by
    induction l with
    | nil => exact fun {t} _ ↦ ⟨t, rfl, .refl t⟩
    | cons c l ih =>
      intro t ht
      obtain ⟨u, hu, hsteps⟩ := ht.updateStep (i.updateNow c) c
      obtain ⟨t', hrun, hsteps'⟩ := ih (ht.steps hsteps)
      refine ⟨t', ?_, hsteps.trans hsteps'⟩
      exact foldlM_cons_eq_some_iff.mpr ⟨_, hu, hrun⟩
  rw [PwmTimer.updateEvent]
  split
  · obtain ⟨t', hrun, hsteps⟩ := hloop _ (t := t.clearPending itUpdate) h
    exact ⟨t', hrun, hsteps.chan, hsteps.dier⟩
  · exact ⟨t, rfl, .refl t⟩

theorem OnlyCaptures.timIrqHandler (h : t.OnlyCaptures) (i : TimIrq) :
    ∃ t', t.timIrqHandler i = some t' ∧ Steps t t' := by
  have hcaptures := (steps_load t i).trans (steps_captureEvents i _)
  obtain ⟨t', ht', hsteps⟩ := (h.steps hcaptures).updateEvent i
  exact ⟨t', ht', hcaptures.trans hsteps⟩

theorem steps_configureCapture (t : PwmTimer) (c : Fin 4) (defValue : BitVec 32) :
    Steps t (t.configureCapture c defValue) where
  chan := steps_update (.configured defValue)
  dier it hit := by
    intro hzero
    apply hit
    simp only [PwmTimer.configureCapture, BitVec.and_or_distrib_right] at hzero
    exact (BitVec.or_eq_zero_iff.mp (BitVec.or_eq_zero_iff.mp hzero).1).1

end PwmTimer

namespace Stm32Pwm

variable {s s' : Stm32Pwm}

def OnlyCaptures (s : Stm32Pwm) : Prop := ∀ t, (s t).OnlyCaptures

theorem onlyCaptures_boot : OnlyCaptures boot := fun _ _ ↦ ChannelMode.noConfusion

def Steps (s s' : Stm32Pwm) : Prop := ∀ t, (s t).Steps (s' t)

theorem steps_update {t : Fin 8} {u : PwmTimer} (h : (s t).Steps u) :
    Steps s (Function.update s t u) := by
  intro t'
  by_cases ht : t' = t
  · rw [ht, Function.update_self]
    exact h
  · rw [Function.update_of_ne ht]
    exact .refl _

/-- **One step of the system.** -/
theorem OnlyCaptures.next (h : OnlyCaptures s) (e : PwmEvent) :
    ∃ s', s.next e = some s' ∧ Steps s s' := by
  cases e with
  | configureCapture chan defValue =>
    refine ⟨_, rfl, ?_⟩
    rw [pwmConfigureCapture]
    split
    · exact fun t ↦ .refl _
    · exact steps_update (PwmTimer.steps_configureCapture _ _ _)
  | irq v i =>
    obtain ⟨t', ht', hsteps⟩ := (h v.timer).timIrqHandler i
    exact ⟨_, by rw [Stm32Pwm.next, ht']; rfl, steps_update hsteps⟩

/-- **Runs.** -/
theorem OnlyCaptures.run (h : OnlyCaptures s) (events : List PwmEvent) :
    ∃ s', s.run events = some s' ∧ Steps s s' := by
  induction events generalizing s with
  | nil => exact ⟨s, rfl, fun t ↦ .refl _⟩
  | cons e events ih =>
    obtain ⟨u, hu, hsteps⟩ := h.next e
    obtain ⟨s', hrun, hsteps'⟩ := ih fun t ↦ (h t).steps (hsteps t)
    refine ⟨s', ?_, fun t ↦ (hsteps t).trans (hsteps' t)⟩
    exact foldlM_cons_eq_some_iff.mpr ⟨_, hu, hrun⟩

end Stm32Pwm

/-! ## What a history says -/

/-- When the last capture was serviced, and `0` before the first. -/
def lastEdge : List IcEvent → ℤ
  | [] => 0
  | .edge e :: _ => e.now
  | .configured _ :: log => lastEdge log
  | .expired _ :: log => lastEdge log

/-- The default value the channel was last set up with. -/
def lastDefault : List IcEvent → Option (BitVec 32)
  | [] => none
  | .configured defValue :: _ => some defValue
  | .edge _ :: log => lastDefault log
  | .expired _ :: log => lastDefault log

/-- Where the value of `capture` comes from. -/
inductive Source : List IcEvent → BitVec 32 → Prop
  | configured (defValue : BitVec 32) (old : List IcEvent) : Source (.configured defValue :: old) 0
  | expired {now : ℤ} {defValue : BitVec 32} {old : List IcEvent} :
      lastEdge old + 100000 < now → lastDefault old = some defValue →
        Source (.expired now :: old) defValue
  | pulse {r f : IcEdge} (old : List IcEvent) : r.polarity = .rising → f.polarity = .falling →
      Source (.edge f :: .edge r :: old)
        (captureWidth f.arr (r.value.setWidth 32) (f.value.setWidth 32))

/-- The history is a source of the value, followed by nothing or by the rising edge of a pulse that
has not ended. -/
def Explains (log : List IcEvent) (capture : BitVec 32) : Prop :=
  Source log capture ∨
    ∃ r old, log = .edge r :: old ∧ r.polarity = .rising ∧ Source old capture

namespace PwmChan

variable {ch ch' : PwmChan}

def Timed (ch : PwmChan) : Prop := ch.input.us = lastEdge ch.log

theorem Timed.step (h : Timed ch) (hstep : Step ch ch') : Timed ch' := by
  cases hstep with
  | captured now arr =>
    cases hstate : ch.input.state <;> simp only [PwmChan.captured, hstate] <;> rfl
  | _ => exact h

/-- The state of a channel that was set up. -/
structure Tracked (ch : PwmChan) : Prop where
  /-- The default is the one of the last call. -/
  defValue : lastDefault ch.log = some ch.input.defValue
  /-- The edge that is waited for fits the polarity. After a rising edge that edge is the last
  event, and its capture is kept; the width comes from the events before. -/
  state : (ch.input.state = .rise ∧ ch.ic.polarity = .rising ∧ Source ch.log ch.input.capture) ∨
    (ch.input.state = .fall ∧ ch.ic.polarity = .falling ∧
      ∃ r old, ch.log = .edge r :: old ∧ r.polarity = .rising ∧
        ch.input.rise = r.value.setWidth 32 ∧ Source old ch.input.capture)

theorem tracked_configured (ch : PwmChan) (defValue : BitVec 32) :
    Tracked (ch.configured defValue) :=
  ⟨rfl, .inl ⟨rfl, rfl, .configured _ _⟩⟩

/-- **An edge.** -/
theorem Tracked.captured (h : Tracked ch) (now : ℤ) (arr : BitVec 16) :
    Tracked (ch.captured now arr) := by
  obtain ⟨hstate, hpol, hsource⟩ | ⟨hstate, hpol, r, old, hlog, hrising, hrise, -⟩ := h.state
  · -- A pulse starts; the value is still that of the history before it.
    simp only [PwmChan.captured, hstate]
    exact ⟨h.defValue, .inr ⟨rfl, rfl, _, _, rfl, hpol, rfl, hsource⟩⟩
  · -- The pulse ends, and its rising edge is the event just before.
    simp only [PwmChan.captured, hstate]
    refine ⟨h.defValue, .inl ⟨rfl, rfl, ?_⟩⟩
    rw [hlog, hrise]
    exact .pulse old hrising hpol

/-- **One step.** -/
theorem Tracked.step (h : Tracked ch) (htimed : Timed ch) (hstep : Step ch ch') : Tracked ch' := by
  cases hstep with
  | load ccr => exact ⟨h.defValue, h.state⟩
  | captured now arr => exact h.captured now arr
  | timedOut hlate =>
    have hsilence : lastEdge ch.log + 100000 < _ := htimed ▸ hlate
    exact ⟨h.defValue, .inl ⟨rfl, rfl, .expired hsilence h.defValue⟩⟩
  | configured defValue => exact tracked_configured ch defValue

theorem Timed.steps (h : Timed ch) (hsteps : Steps ch ch') : Timed ch' := by
  induction hsteps with
  | refl => exact h
  | tail _ hstep ih => exact ih.step hstep

theorem Tracked.steps (h : Tracked ch) (htimed : Timed ch) (hsteps : Steps ch ch') :
    Tracked ch' := by
  induction hsteps with
  | refl => exact h
  | tail hsteps hstep ih => exact ih.step (htimed.steps hsteps) hstep

theorem Tracked.explains (h : Tracked ch) : Explains ch.log ch.input.capture := by
  obtain ⟨-, -, hsource⟩ | ⟨-, -, r, old, hlog, hrising, -, hsource⟩ := h.state
  · exact .inl hsource
  · exact .inr ⟨r, old, hlog, hrising, hsource⟩

theorem Tracked.rise_iff (h : Tracked ch) :
    ch.input.state = .rise ↔ ch.ic.polarity = .rising := by
  obtain ⟨hstate, hpol, -⟩ | ⟨hstate, hpol, -⟩ := h.state
  · exact iff_of_true hstate hpol
  · rw [hstate, hpol]
    exact iff_of_false IcState.noConfusion IcPolarity.noConfusion

theorem Tracked.fall_iff (h : Tracked ch) :
    ch.input.state = .fall ↔ ch.ic.polarity = .falling := by
  obtain ⟨hstate, hpol, -⟩ | ⟨hstate, hpol, -⟩ := h.state
  · rw [hstate, hpol]
    exact iff_of_false IcState.noConfusion IcPolarity.noConfusion
  · exact iff_of_true hstate hpol

end PwmChan

namespace PwmTimer

variable {t t' : PwmTimer}

theorem intIds_ne_zero : ∀ c, intIds c ≠ 0 := by decide

/-- A channel is set up. -/
structure CaptureOn (t : PwmTimer) (c : Fin 4) : Prop where
  /-- The width expires in time. -/
  timed : (t.chan c).Timed
  /-- The state follows the events. -/
  tracked : (t.chan c).Tracked
  /-- The interrupt is enabled. -/
  enabled : t.dier &&& intIds c ≠ 0

theorem CaptureOn.steps {c : Fin 4} (h : t.CaptureOn c) (hsteps : Steps t t') : t'.CaptureOn c where
  timed := h.timed.steps (hsteps.chan c)
  tracked := h.tracked.steps h.timed (hsteps.chan c)
  enabled := hsteps.dier _ h.enabled

theorem captureOn_configureCapture {c : Fin 4} (h : (t.chan c).Timed) (defValue : BitVec 32) :
    (t.configureCapture c defValue).CaptureOn c := by
  have hchan : (t.configureCapture c defValue).chan c = (t.chan c).configured defValue :=
    Function.update_self _ _ _
  refine ⟨hchan ▸ h.step (.configured defValue), hchan ▸ PwmChan.tracked_configured _ _, ?_⟩
  have hdier : (t.configureCapture c defValue).dier &&& intIds c = intIds c := by
    simp only [PwmTimer.configureCapture]
    ext b
    grind
  rw [hdier]
  exact intIds_ne_zero c

end PwmTimer

namespace Stm32Pwm

variable {s s' : Stm32Pwm}

theorem next_configures {e : PwmEvent} {t : Fin 8} {c : Fin 4} (h : e.Configures t c) :
    ∃ defValue, s.next e = some (Function.update s t ((s t).configureCapture c defValue)) := by
  cases e with
  | configureCapture chan defValue =>
    obtain ⟨rfl, rfl, htim, hirq⟩ := h
    refine ⟨defValue, ?_⟩
    rw [Stm32Pwm.next, pwmConfigureCapture, if_neg (by simp [htim, hirq])]
  | irq v i => exact h.elim

theorem run_append (s : Stm32Pwm) (pre post : List PwmEvent) :
    s.run (pre ++ post) = (s.run pre).bind fun u ↦ u.run post := List.foldlM_append

/-- **Once set up, a channel stays set up.** -/
theorem captureOn_of_mem {events : List PwmEvent} (h : boot.run events = some s) {e : PwmEvent}
    (he : e ∈ events) {t : Fin 8} {c : Fin 4} (hconf : e.Configures t c) : (s t).CaptureOn c := by
  -- Cut the run at the event that sets the channel up.
  obtain ⟨pre, post, rfl⟩ := List.append_of_mem he
  obtain ⟨u, hu, hsteps⟩ := onlyCaptures_boot.run pre
  obtain ⟨defValue, hnext⟩ := next_configures (s := u) hconf
  have hboot : ((boot t).chan c).Timed := rfl
  have htimed := hboot.steps ((hsteps t).chan c)
  set u' := Function.update u t ((u t).configureCapture c defValue) with hu'
  have hon : (u' t).CaptureOn c := by
    rw [hu', Function.update_self]
    exact PwmTimer.captureOn_configureCapture htimed defValue
  have honly : OnlyCaptures u' := by
    obtain ⟨_, hnext', hsteps'⟩ :=
      OnlyCaptures.next (fun t ↦ (onlyCaptures_boot t).steps (hsteps t)) e
    cases hnext.symm.trans hnext'
    exact fun t ↦ ((onlyCaptures_boot t).steps (hsteps t)).steps (hsteps' t)
  obtain ⟨s', hrun, hsteps'⟩ := honly.run post
  rw [run_append, hu, Option.bind_some, Stm32Pwm.run, List.foldlM_cons, hnext] at h
  cases hrun.symm.trans h
  exact hon.steps (hsteps' t)

/-- In every run, the state of a channel that was set up is that of the polarity programmed last,
and its value has a source. -/
theorem capture_tracked (events : List PwmEvent) : ∃ s, boot.run events = some s ∧
    ∀ t c, (∃ e ∈ events, e.Configures t c) →
      let ch := (s t).chan c
      (ch.input.state = .rise ↔ ch.ic.polarity = .rising) ∧
      (ch.input.state = .fall ↔ ch.ic.polarity = .falling) ∧
      lastDefault ch.log = some ch.input.defValue ∧ Explains ch.log ch.input.capture := by
  obtain ⟨s, hrun, -⟩ := onlyCaptures_boot.run events
  refine ⟨s, hrun, fun t c ⟨e, he, hconf⟩ ↦ ?_⟩
  have htracked := (captureOn_of_mem hrun he hconf).tracked
  exact ⟨htracked.rise_iff, htracked.fall_iff, htracked.defValue, htracked.explains⟩

end Stm32Pwm

end Martink
