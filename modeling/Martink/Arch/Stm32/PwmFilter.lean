import Martink.Arch.Stm32.PwmFlags

/-!
# The input filter

`pwm_configure_capture` programs an input filter of 7. To turn the polarity around, the interrupt
programs the channel anew from the defaults of `TIM_ICStructInit`, where the filter is 0. So the
filter stays until the first capture that is serviced, or the first silence, and is lost then.

`keepsSettings_iff` is about runs from any state of the timers, with pulse trains on other channels
or not.
-/

namespace Martink

/-- What `pwm_configure_capture` sets besides the polarity. -/
structure IcConfig.Kept (ic : IcConfig) : Prop where
  /-- The input is the channel's own. -/
  selection : ic.selection = 0x0001
  /-- Every edge is captured. -/
  prescaler : ic.prescaler = 0x0000
  /-- The filter is the one of the call. -/
  filter : ic.filter = 0x7

namespace PwmTimer

variable {t : PwmTimer}

/-! ## One call of the handler -/

/-- A capture of the channel is serviced. -/
def Captures (t : PwmTimer) (i : TimIrq) (c : Fin 4) : Prop :=
  (t.chan c).output.mode ≠ .ppmOutput ∧ (t.chan c).input.state ≠ .disabled ∧
    (t.load i).itStatus (servingFlag c) = true

/-- The channel is found silent. -/
def Expires (t : PwmTimer) (i : TimIrq) (c : Fin 4) : Prop :=
  (t.chan c).output.mode ≠ .ppmOutput ∧ (t.chan c).input.state ≠ .disabled ∧
    (t.load i).itStatus itUpdate = true ∧
    timestampExpired (i.updateNow c) ((t.chan c).input.us + 100000) = true

theorem captureStep_sr (now : ℤ) (c : Fin 4) : (t.captureStep now c).sr
    = if t.itStatus (intIds c) then t.sr &&& ~~~intIds c else t.sr := by
  rw [PwmTimer.captureStep]
  split
  · dsimp only
    split <;> rfl
  · rfl

theorem captureStep_dier (now : ℤ) (c : Fin 4) : (t.captureStep now c).dier = t.dier := by
  rw [PwmTimer.captureStep]
  split
  · dsimp only
    split <;> rfl
  · rfl

/-- The flag of a channel is used up by its step. -/
theorem itStatus_captureStep_self (now : ℤ) (c : Fin 4) :
    (t.captureStep now c).itStatus (intIds c) = false := by
  by_cases h : t.itStatus (intIds c) = true
  · rw [PwmTimer.itStatus, captureStep_sr, if_pos h, BitVec.and_assoc, BitVec.and_comm _ (intIds c),
      BitVec.and_not_self]
    simp
  · rw [PwmTimer.itStatus, captureStep_sr, if_neg h, captureStep_dier]
    exact Bool.eq_false_of_not_eq_true h

theorem itStatus_captureStep (now : ℤ) {c : Fin 4} {it : BitVec 16} (h : ~~~intIds c &&& it = it) :
    (t.captureStep now c).itStatus it = t.itStatus it := by
  rw [PwmTimer.itStatus, PwmTimer.itStatus, captureStep_sr, captureStep_dier]
  split
  · rw [BitVec.and_assoc, h]
  · rfl

theorem itStatus_captureLoop (i : TimIrq) {it : BitVec 16} (l : List (Fin 4))
    (h : ∀ c ∈ l, ~~~intIds c &&& it = it) : (t.captureLoop i l).itStatus it = t.itStatus it :=
  List.foldlRecOn (motive := fun u : PwmTimer ↦ u.itStatus it = t.itStatus it) l _ rfl
    fun _ hu c hc ↦ (itStatus_captureStep _ (h c hc)).trans hu

theorem captureLoop_chan (i : TimIrq) {l : List (Fin 4)} {c : Fin 4} (h : c ∉ l) :
    (t.captureLoop i l).chan c = t.chan c := by
  refine List.foldlRecOn (motive := fun u : PwmTimer ↦ u.chan c = t.chan c) l _ rfl
    fun u hu d hd ↦ ?_
  have hne : c ≠ d := fun hcd ↦ h (hcd ▸ hd)
  exact (captureStep_of_ne _ hne).trans hu

/-- The step of a channel that sends no pulses. -/
theorem captureStep_chan (now : ℤ) (c : Fin 4) (hmode : (t.chan c).output.mode ≠ .ppmOutput) :
    (t.captureStep now c).chan c
      = if t.itStatus (intIds c) then (t.chan c).captured now t.arr else t.chan c := by
  have hmode' : ((t.clearPending (intIds c)).chan c).output.mode ≠ .ppmOutput := hmode
  rw [PwmTimer.captureStep]
  split
  · dsimp only
    rw [if_neg hmode']
    exact Function.update_self _ _ _
  · rfl

theorem captureStep_ppm (now : ℤ) (c : Fin 4) (hmode : (t.chan c).output.mode = .ppmOutput) :
    (t.captureStep now c).chan c = t.chan c := by
  have hmode' : ((t.clearPending (intIds c)).chan c).output.mode = .ppmOutput := hmode
  rw [PwmTimer.captureStep]
  split
  · dsimp only
    rw [if_pos hmode']
    rfl
  · rfl

/-- The loops come to each channel once. -/
theorem notMem_of_finRange_eq {c : Fin 4} {pre post : List (Fin 4)}
    (hsplit : List.finRange 4 = pre ++ c :: post) : c ∉ pre ∧ c ∉ post := by
  have hnodup : (pre ++ c :: post).Nodup := hsplit ▸ List.nodup_finRange 4
  exact ⟨fun hc ↦ List.disjoint_of_nodup_append hnodup hc List.mem_cons_self,
    (List.nodup_cons.mp hnodup.of_append_right).1⟩

theorem captureEvents_split (i : TimIrq) {c : Fin 4} (pre : List (Fin 4)) {post : List (Fin 4)}
    (hsplit : List.finRange 4 = pre ++ c :: post)
    (hstatus : (t.captureLoop i pre).itStatus (intIds c) = t.itStatus (servingFlag c)) :
    ((t.chan c).output.mode ≠ .ppmOutput ∧ t.itStatus (servingFlag c) = true →
      ∃ arr, (t.captureEvents i).chan c = (t.chan c).captured (i.captureNow c) arr) ∧
    (¬((t.chan c).output.mode ≠ .ppmOutput ∧ t.itStatus (servingFlag c) = true) →
      (t.captureEvents i).chan c = t.chan c) := by
  obtain ⟨hpre, hpost⟩ := notMem_of_finRange_eq hsplit
  have hloop : t.captureEvents i =
      ((t.captureLoop i pre).captureStep (i.captureNow c) c).captureLoop i post := by
    rw [PwmTimer.captureEvents, hsplit, List.foldl_append, List.foldl_cons]
    rfl
  rw [hloop, captureLoop_chan i hpost, ← hstatus, ← captureLoop_chan i hpre]
  generalize t.captureLoop i pre = u
  by_cases hmode : (u.chan c).output.mode = .ppmOutput
  · exact ⟨fun h ↦ absurd hmode h.1, fun _ ↦ captureStep_ppm _ c hmode⟩
  · rw [captureStep_chan _ c hmode]
    refine ⟨fun h ↦ ⟨u.arr, if_pos h.2⟩, fun h ↦ if_neg fun hflag ↦ h ⟨hmode, hflag⟩⟩

/-- The second channel uses up the flag that it shares with the third. -/
theorem itStatus_third (i : TimIrq) :
    (t.captureLoop i [0, 1]).itStatus (intIds 2) = t.itStatus (servingFlag 2) := by
  have hused : (t.captureLoop i [0, 1]).itStatus (intIds 2) = false :=
    itStatus_captureStep_self (i.captureNow 1) 1
  have hnone : t.itStatus (servingFlag 2) = false := by
    rw [PwmTimer.itStatus]
    exact decide_eq_false fun h ↦ h.1 BitVec.and_zero
  rw [hused, hnone]

/-- **The first loop**, whatever the channels are used for. -/
theorem captureEvents_chan (t : PwmTimer) (i : TimIrq) (c : Fin 4) :
    ((t.chan c).output.mode ≠ .ppmOutput ∧ t.itStatus (servingFlag c) = true →
      ∃ arr, (t.captureEvents i).chan c = (t.chan c).captured (i.captureNow c) arr) ∧
    (¬((t.chan c).output.mode ≠ .ppmOutput ∧ t.itStatus (servingFlag c) = true) →
      (t.captureEvents i).chan c = t.chan c) := by
  match c with
  | 0 => exact captureEvents_split i [] rfl rfl
  | 1 => exact captureEvents_split i [0] rfl (itStatus_captureLoop i _ (by decide))
  | 2 => exact captureEvents_split i [0, 1] rfl (itStatus_third i)
  | 3 => exact captureEvents_split i [0, 1, 2] rfl (itStatus_captureLoop i _ (by decide))

/-- The second loop programs a channel only after a silence. -/
theorem updateStep_chan {t' : PwmTimer} {now : ℤ} {c : Fin 4} (h : t.updateStep now c = some t') :
    (t'.chan c).ic = (if (t.chan c).output.mode ≠ .ppmOutput ∧ (t.chan c).input.state ≠ .disabled ∧
      timestampExpired now ((t.chan c).input.us + 100000) = true then icStructInit
      else (t.chan c).ic) := by
  simp only [PwmTimer.updateStep] at h
  by_cases hmode : (t.chan c).output.mode = .ppmOutput
  · rw [if_neg fun hc ↦ hc.1 hmode]
    rw [if_pos hmode, Option.bind_eq_bind, Option.bind_eq_some_iff] at h
    obtain ⟨width, -, h⟩ := h
    cases h
    simp only [Function.update_self]
  · rw [if_neg hmode] at h
    by_cases hstate : (t.chan c).input.state = .disabled
    · rw [if_pos hstate] at h
      rw [if_neg fun hc ↦ hc.2.1 hstate]
      cases h
      rfl
    · rw [if_neg hstate] at h
      by_cases hexpired : timestampExpired now ((t.chan c).input.us + 100000) = true
      · rw [if_pos hexpired] at h
        rw [if_pos ⟨hmode, hstate, hexpired⟩]
        cases h
        simp only [Function.update_self]
        rfl
      · rw [if_neg hexpired] at h
        rw [if_neg fun hc ↦ hexpired hc.2.2]
        cases h
        rfl

theorem updateStep_of_ne {t' : PwmTimer} {now : ℤ} {c d : Fin 4} (hne : c ≠ d)
    (h : t.updateStep now d = some t') : t'.chan c = t.chan c := by
  simp only [PwmTimer.updateStep] at h
  split at h
  · rw [Option.bind_eq_bind, Option.bind_eq_some_iff] at h
    obtain ⟨width, -, h⟩ := h
    cases h
    exact Function.update_of_ne hne _ _
  · split at h
    · cases h
      rfl
    · split at h
      · cases h
        exact Function.update_of_ne hne _ _
      · cases h
        rfl

/-- **The second loop.** -/
theorem updateEvent_chan {t' : PwmTimer} {i : TimIrq} (h : t.updateEvent i = some t') (c : Fin 4) :
    (t'.chan c).ic = (if (t.chan c).output.mode ≠ .ppmOutput ∧ (t.chan c).input.state ≠ .disabled ∧
      t.itStatus itUpdate = true ∧
      timestampExpired (i.updateNow c) ((t.chan c).input.us + 100000) = true then icStructInit
      else (t.chan c).ic) := by
  rw [PwmTimer.updateEvent] at h
  by_cases hstatus : t.itStatus itUpdate = true
  · rw [if_pos hstatus] at h
    obtain ⟨pre, post, hsplit⟩ := List.append_of_mem (List.mem_finRange c)
    obtain ⟨hpre, hpost⟩ := notMem_of_finRange_eq hsplit
    have hkeep (l : List (Fin 4)) (hl : c ∉ l) {u u' : PwmTimer}
        (hrun : l.foldlM (fun t c ↦ t.updateStep (i.updateNow c) c) u = some u') :
        u'.chan c = u.chan c :=
      foldlM_invariant_of_mem (P := fun s : PwmTimer ↦ s.chan c = u.chan c)
        (fun s d hd s' hs hstep ↦
          (updateStep_of_ne (fun hcd : c = d ↦ hl (hcd ▸ hd)) hstep).trans hs)
        rfl hrun
    rw [hsplit] at h
    obtain ⟨u, hu, h⟩ := foldlM_append_eq_some_iff.mp h
    obtain ⟨u', hu', h⟩ := foldlM_cons_eq_some_iff.mp h
    have hbefore : u.chan c = t.chan c := (hkeep pre hpre hu).trans rfl
    rw [hkeep post hpost h, updateStep_chan hu', hbefore]
    simp only [hstatus, true_and]
  · rw [if_neg hstatus] at h
    rw [if_neg fun hc ↦ hstatus hc.2.2.1]
    cases h
    rfl

theorem captured_ic (ch : PwmChan) (h : ch.input.state ≠ .disabled) (now : ℤ) (arr : BitVec 16) :
    (ch.captured now arr).ic.filter = 0 := by
  cases hstate : ch.input.state with
  | disabled => exact absurd hstate h
  | rise => simp only [PwmChan.captured, hstate]; rfl
  | fall => simp only [PwmChan.captured, hstate]; rfl

theorem captured_disabled (ch : PwmChan) (h : ch.input.state = .disabled) (now : ℤ)
    (arr : BitVec 16) :
    (ch.captured now arr).ic = ch.ic ∧ (ch.captured now arr).input.state = .disabled := by
  constructor <;> simp only [PwmChan.captured, h]

/-- The flags of the captures are not that of the update. -/
theorem itUpdate_captureEvents (t : PwmTimer) (i : TimIrq) :
    (t.captureEvents i).itStatus itUpdate = t.itStatus itUpdate :=
  itStatus_captureLoop i (List.finRange 4) (by decide)

/-- **One call of the handler.** It programs the channel anew when it services a capture of it or
finds it silent, and then without the filter; else it leaves its settings alone. -/
theorem timIrqHandler_ic {t' : PwmTimer} {i : TimIrq}
    (h : t.timIrqHandler i = some t') (c : Fin 4) :
    (t.Captures i c ∨ t.Expires i c → (t'.chan c).ic.filter = 0) ∧
      (¬(t.Captures i c ∨ t.Expires i c) → (t'.chan c).ic = (t.chan c).ic) := by
  have hic := updateEvent_chan h c
  obtain ⟨hserved, hskipped⟩ := captureEvents_chan (t.load i) i c
  rw [itUpdate_captureEvents] at hic
  by_cases hloop : (t.chan c).output.mode ≠ .ppmOutput ∧ (t.load i).itStatus (servingFlag c) = true
  · obtain ⟨arr, hchan⟩ := hserved hloop
    rw [hchan] at hic
    by_cases hstate : (t.chan c).input.state = .disabled
    · obtain ⟨hsame, hstill⟩ := captured_disabled ((t.load i).chan c) hstate (i.captureNow c) arr
      rw [if_neg fun hc ↦ hc.2.1 hstill] at hic
      refine ⟨?_, fun _ ↦ hic.trans hsame⟩
      rintro (hc | hc)
      · exact absurd hstate hc.2.1
      · exact absurd hstate hc.2.1
    · have hlost := captured_ic ((t.load i).chan c) hstate (i.captureNow c) arr
      refine ⟨fun _ ↦ ?_, fun hc ↦ absurd (.inl ⟨hloop.1, hstate, hloop.2⟩) hc⟩
      rw [hic]
      split
      · rfl
      · exact hlost
  · rw [hskipped hloop] at hic
    refine ⟨?_, fun hc ↦ ?_⟩
    · rintro (hc | hc)
      · exact absurd ⟨hc.1, hc.2.2⟩ hloop
      · exact congrArg IcConfig.filter (hic.trans (if_pos hc))
    · exact hic.trans (if_neg fun hexpires ↦ hc (.inr hexpires))

theorem configureCapture_chan (t : PwmTimer) (c : Fin 4) (defValue : BitVec 32) :
    (t.configureCapture c defValue).chan = Function.update t.chan c
      ((t.chan c).configured defValue) :=
  rfl

end PwmTimer

namespace Stm32Pwm

/-! ## Runs -/

variable {s s' : Stm32Pwm} {t : Fin 8} {c : Fin 4}

/-- After each part of the run the channel has the settings it was set up with. -/
def KeepsSettings (s : Stm32Pwm) (t : Fin 8) (c : Fin 4) (events : List PwmEvent) : Prop :=
  ∀ pre post u, events = pre ++ post → s.run pre = some u → ((u t).chan c).ic.Kept

/-- No interrupt of the run services a capture of the channel or finds it silent. -/
def NeverServiced (s : Stm32Pwm) (t : Fin 8) (c : Fin 4) (events : List PwmEvent) : Prop :=
  ∀ pre v i post u, events = pre ++ .irq v i :: post → s.run pre = some u → v.timer = t →
    ¬((u t).Captures i c ∨ (u t).Expires i c)

theorem kept_configured (ch : PwmChan) (defValue : BitVec 32) : (ch.configured defValue).ic.Kept :=
  ⟨rfl, rfl, rfl⟩

theorem kept_pwmConfigureCapture (h : ((s t).chan c).ic.Kept) (chan : BitVec 8)
    (defValue : BitVec 32) : ((pwmConfigureCapture s chan defValue t).chan c).ic.Kept := by
  rw [pwmConfigureCapture]
  split
  · exact h
  · by_cases ht : t = timId chan
    · subst ht
      rw [Function.update_self]
      by_cases hc : c = chanId chan
      · rw [hc, PwmTimer.configureCapture_chan, Function.update_self]
        exact kept_configured _ _
      · rw [PwmTimer.configureCapture_chan, Function.update_of_ne hc]
        exact h
    · rw [Function.update_of_ne ht]
      exact h

/-- **One step.** -/
theorem kept_next {e : PwmEvent} (h : ((s t).chan c).ic.Kept) (hnext : s.next e = some s')
    (hserviced : ∀ v i, e = .irq v i → v.timer = t → ¬((s t).Captures i c ∨ (s t).Expires i c)) :
    ((s' t).chan c).ic.Kept := by
  cases e with
  | configureCapture chan defValue =>
    cases hnext
    exact kept_pwmConfigureCapture h chan defValue
  | irq v i =>
    by_cases ht : t = v.timer
    · subst ht
      obtain ⟨u, hu, rfl⟩ := Option.map_eq_some_iff.mp hnext
      rw [Function.update_self, (PwmTimer.timIrqHandler_ic hu c).2 (hserviced v i rfl rfl)]
      exact h
    · rw [next_irq_of_ne hnext ht]
      exact h

theorem keepsSettings_of_neverServiced (h : ((s t).chan c).ic.Kept) {events : List PwmEvent}
    (hnever : NeverServiced s t c events) : KeepsSettings s t c events := by
  intro pre
  induction pre using List.reverseRecOn with
  | nil =>
    intro post u _ hu
    cases hu
    exact h
  | append_singleton pre e ih =>
    intro post u' hsplit hrun
    obtain ⟨u, hu, hnext⟩ := foldlM_concat_eq_some_iff.mp hrun
    have hsplit' : events = pre ++ e :: post := by
      rw [hsplit, List.append_assoc]
      rfl
    refine kept_next (ih (e :: post) u hsplit' hu) hnext fun v i he hv ↦ ?_
    exact hnever pre v i post u (he ▸ hsplit') hu hv

/-- **The input filter.** In a run after `pwm_configure_capture` the settings of the channel stay
exactly as long as none of its captures is serviced and it is never found silent. -/
theorem keepsSettings_iff {chan : BitVec 8} {defValue : BitVec 32} {events : List PwmEvent}
    (hthere : (PwmEvent.configureCapture chan defValue).Configures t c)
    (hrun : (pwmConfigureCapture s chan defValue).run events = some s') :
    KeepsSettings (pwmConfigureCapture s chan defValue) t c events ↔
      NeverServiced (pwmConfigureCapture s chan defValue) t c events := by
  constructor
  · intro hkeeps pre v i post u hsplit hu hv hlost
    -- The call returns, for the whole run does, and leaves the channel without its filter.
    obtain ⟨u₁, hu₁, hrest⟩ := foldlM_append_eq_some_iff.mp (hsplit ▸ hrun)
    obtain rfl : u₁ = u := Option.some.inj (hu₁.symm.trans hu)
    obtain ⟨u', hnext, -⟩ := foldlM_cons_eq_some_iff.mp hrest
    have hkept := hkeeps (pre ++ [.irq v i]) post u' (by rw [hsplit, List.append_assoc]; rfl)
      (foldlM_concat_eq_some_iff.mpr ⟨u₁, hu, hnext⟩)
    subst hv
    obtain ⟨w, hw, rfl⟩ := Option.map_eq_some_iff.mp hnext
    have hzero := (PwmTimer.timIrqHandler_ic hw c).1 hlost
    have hfilter := hkept.filter
    rw [Function.update_self, hzero] at hfilter
    exact absurd hfilter (by decide)
  · refine keepsSettings_of_neverServiced ?_
    obtain ⟨rfl, rfl, hthere, hirq⟩ := hthere
    have hset : ¬((pwmTimers (timId chan)).1 = false ∨ (pwmTimers (timId chan)).2 = 0) := by
      rw [hthere]
      exact fun h ↦ h.elim Bool.noConfusion hirq
    rw [pwmConfigureCapture, if_neg hset, Function.update_self, PwmTimer.configureCapture_chan,
      Function.update_self]
    exact kept_configured _ _

/-- The update interrupt comes soon after the channel was set up. -/
def earlyUpdate : TimIrq := ⟨itUpdate, fun _ ↦ 0, fun _ ↦ 50, fun _ ↦ 50⟩

/-- The first rising edge. -/
def firstEdge : TimIrq := ⟨itCc1, fun _ ↦ 1000, fun _ ↦ 50, fun _ ↦ 50⟩

/-- The settings stay until something is received. -/
theorem keepsSettings_update : ∃ s', (PwmEvent.configureCapture 0 0).Configures 0 0 ∧
    (pwmConfigureCapture boot 0 0).run [.irq .tim1Up earlyUpdate] = some s' ∧
    KeepsSettings (pwmConfigureCapture boot 0 0) 0 0 [.irq .tim1Up earlyUpdate] := by
  have hthere : (PwmEvent.configureCapture 0 0).Configures 0 0 := ⟨rfl, rfl, rfl, by decide⟩
  refine ⟨_, hthere, rfl, (keepsSettings_iff hthere rfl).mpr ?_⟩
  rintro (_ | ⟨e, pre⟩) v i post u hsplit hu -
  · cases hu
    obtain ⟨rfl, rfl⟩ := PwmEvent.irq.inj (List.cons.inj hsplit).1
    rintro (hc | hc)
    · exact absurd hc.2.2 (by decide)
    · exact absurd hc.2.2.2 (by decide)
  · exact absurd (congrArg List.length hsplit) (by simp)

/-- After the first edge the filter is off. -/
theorem not_keepsSettings_edge : ∃ s', (PwmEvent.configureCapture 0 0).Configures 0 0 ∧
    (pwmConfigureCapture boot 0 0).run [.irq .tim1Cc firstEdge] = some s' ∧
    ((s' 0).chan 0).ic.filter = 0 ∧
    ¬KeepsSettings (pwmConfigureCapture boot 0 0) 0 0 [.irq .tim1Cc firstEdge] := by
  have hrun : ∃ s', (pwmConfigureCapture boot 0 0).run [.irq .tim1Cc firstEdge] = some s' ∧
      ((s' 0).chan 0).ic.filter = 0 := ⟨_, rfl, rfl⟩
  obtain ⟨s', hs', hfilter⟩ := hrun
  refine ⟨s', ⟨rfl, rfl, rfl, by decide⟩, hs', hfilter, fun hkeeps ↦ ?_⟩
  have hkept := hkeeps _ [] s' rfl hs'
  exact absurd (hfilter.symm.trans hkept.filter) (by decide)

end Stm32Pwm

end Martink
