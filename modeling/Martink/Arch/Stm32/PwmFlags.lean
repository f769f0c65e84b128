import Martink.Arch.Stm32.PwmCapture

/-!
# Which flag reaches which channel

The loop of `TIM_IRQHandler` clears the flag of a channel when it services the channel, so of two
channels with the same entry in `_int_ids` only the first is ever serviced. With the table as it is,
the flag of the second capture register is used up by the second channel, the third channel has no
flag left, and the fourth is serviced on the flag of the third.
-/

namespace Martink

/-- The flag that services a channel. -/
def servingFlag : Fin 4 → BitVec 16 := ![itCc1, itCc2, 0, itCc3]

theorem PwmChan.captured_input_ne {ch : PwmChan} (h : ch.Tracked) (now : ℤ) (arr : BitVec 16) :
    (ch.captured now arr).input ≠ ch.input := by
  intro heq
  have hstate := congrArg PwmInput.state heq
  obtain ⟨hrise, -⟩ | ⟨hfall, -⟩ := h.state
  · simp only [PwmChan.captured, hrise] at hstate
    exact IcState.noConfusion hstate
  · simp only [PwmChan.captured, hfall] at hstate
    exact IcState.noConfusion hstate

namespace PwmTimer

variable {t : PwmTimer}

/-- All four channels are set up. -/
structure AllCapture (t : PwmTimer) : Prop where
  /-- No channel sends. -/
  only : t.OnlyCaptures
  /-- All their interrupts are enabled. -/
  enabled : ∀ c, t.dier &&& intIds c ≠ 0

theorem AllCapture.steps {t' : PwmTimer} (h : t.AllCapture) (hsteps : Steps t t') : t'.AllCapture :=
  ⟨h.only.steps hsteps, fun c ↦ hsteps.dier _ (h.enabled c)⟩

theorem AllCapture.captureStep (h : t.AllCapture) (now : ℤ) (c : Fin 4) :
    t.captureStep now c =
      if t.sr &&& intIds c ≠ 0 then
        { t.clearPending (intIds c) with
          chan := Function.update t.chan c ((t.chan c).captured now t.arr) }
      else t := by
  have hstatus : t.itStatus (intIds c) = true ↔ t.sr &&& intIds c ≠ 0 := by
    rw [PwmTimer.itStatus, decide_eq_true_iff, and_iff_left (h.enabled c)]
  rw [PwmTimer.captureStep, if_congr hstatus rfl rfl]
  refine if_congr Iff.rfl ?_ rfl
  exact if_neg (h.only c)

theorem AllCapture.captureStep_sr (h : t.AllCapture) (now : ℤ) (c : Fin 4) :
    (t.captureStep now c).sr = t.sr &&& ~~~intIds c := by
  rw [h.captureStep]
  split
  · rfl
  · rename_i hclear
    rw [ne_eq, not_not] at hclear
    calc t.sr = t.sr &&& (intIds c ||| ~~~intIds c) := by
          rw [BitVec.or_not_self, BitVec.and_allOnes]
      _ = t.sr &&& ~~~intIds c := by
        rw [BitVec.and_or_distrib_left, hclear, BitVec.ofNat_eq_ofNat, BitVec.zero_or]

theorem AllCapture.captureStep_arr (h : t.AllCapture) (now : ℤ) (c : Fin 4) :
    (t.captureStep now c).arr = t.arr := by
  rw [h.captureStep]
  split <;> rfl

theorem AllCapture.captureStep_self (h : t.AllCapture) (now : ℤ) (c : Fin 4) :
    (t.captureStep now c).chan c =
      if t.sr &&& intIds c ≠ 0 then (t.chan c).captured now t.arr else t.chan c := by
  rw [h.captureStep]
  split
  · exact Function.update_self _ _ _
  · rfl

theorem captureStep_of_ne (now : ℤ) {c d : Fin 4} (hne : d ≠ c) :
    (t.captureStep now c).chan d = t.chan d := by
  rw [PwmTimer.captureStep]
  split
  · dsimp only
    split
    · rfl
    · exact Function.update_of_ne hne _ _
  · rfl

/-- The first channels of the loop have been seen to. -/
def captureLoop (i : TimIrq) (l : List (Fin 4)) (t : PwmTimer) : PwmTimer :=
  l.foldl (fun t c ↦ t.captureStep (i.captureNow c) c) t

/-- The flags that the channels clear. -/
def clearedBy (l : List (Fin 4)) : BitVec 16 := l.foldr (fun c flags ↦ intIds c ||| flags) 0

theorem AllCapture.captureLoop (h : t.AllCapture) (i : TimIrq) (l : List (Fin 4)) :
    (t.captureLoop i l).AllCapture ∧ (t.captureLoop i l).sr = t.sr &&& ~~~clearedBy l ∧
      (t.captureLoop i l).arr = t.arr ∧ ∀ c ∉ l, (t.captureLoop i l).chan c = t.chan c := by
  induction l generalizing t with
  | nil => exact ⟨h, BitVec.and_allOnes.symm, rfl, fun _ _ ↦ rfl⟩
  | cons d l ih =>
    obtain ⟨hall, hsr, harr, hchan⟩ := ih (h.steps (steps_captureStep (i.captureNow d) t d))
    refine ⟨hall, ?_, harr.trans (h.captureStep_arr _ d), fun c hc ↦ ?_⟩
    · refine hsr.trans ?_
      rw [h.captureStep_sr, BitVec.and_assoc, ← BitVec.not_or]
      rfl
    · rw [List.mem_cons, not_or] at hc
      exact (hchan c hc.2).trans (captureStep_of_ne _ hc.1)

/-- A channel is serviced on its flag, unless an earlier channel has cleared it. -/
theorem AllCapture.captureEvents_of_split (h : t.AllCapture) (i : TimIrq) (c : Fin 4)
    (pre : List (Fin 4)) {post : List (Fin 4)} (hsplit : List.finRange 4 = pre ++ c :: post) :
    (t.captureEvents i).chan c =
      if t.sr &&& (~~~clearedBy pre &&& intIds c) ≠ 0 then
        (t.chan c).captured (i.captureNow c) t.arr
      else t.chan c := by
  have hnodup : (pre ++ c :: post).Nodup := hsplit ▸ List.nodup_finRange 4
  have hpre : c ∉ pre := fun hc ↦ List.disjoint_of_nodup_append hnodup hc List.mem_cons_self
  have hpost : c ∉ post := (List.nodup_cons.mp hnodup.of_append_right).1
  obtain ⟨hall, hsr, harr, hchan⟩ := h.captureLoop i pre
  have hrest := (hall.steps (steps_captureStep (i.captureNow c) _ c)).captureLoop i post
  have hloop : t.captureEvents i =
      ((t.captureLoop i pre).captureStep (i.captureNow c) c).captureLoop i post := by
    rw [PwmTimer.captureEvents, hsplit, List.foldl_append, List.foldl_cons]
    rfl
  rw [hloop, hrest.2.2.2 c hpost, hall.captureStep_self, hchan c hpre, hsr, harr, BitVec.and_assoc]

/-- **The loop over the channels.** -/
theorem AllCapture.captureEvents (h : t.AllCapture) (i : TimIrq) (c : Fin 4) :
    (t.captureEvents i).chan c =
      if t.sr &&& servingFlag c ≠ 0 then (t.chan c).captured (i.captureNow c) t.arr
      else t.chan c := by
  match c with
  | 0 => exact h.captureEvents_of_split i 0 [] rfl
  | 1 => exact h.captureEvents_of_split i 1 [0] rfl
  | 2 => exact h.captureEvents_of_split i 2 [0, 1] rfl
  | 3 => exact h.captureEvents_of_split i 3 [0, 1, 2] rfl

/-- The first loop services each pending capture, on the channel that it is of, and changes no other
channel. -/
def ServesOwn (i : TimIrq) (t : PwmTimer) : Prop :=
  ∀ c, (((t.load i).captureEvents i).chan c).input =
    if i.sr &&& itCc c ≠ 0 then
      (((t.load i).chan c).captured (i.captureNow c) t.arr).input
    else (t.chan c).input

theorem flags_agree_iff (sr : BitVec 16) :
    (∀ c, sr &&& servingFlag c ≠ 0 ↔ sr &&& itCc c ≠ 0) ↔ sr &&& (itCc3 ||| itCc4) = 0 := by
  rw [BitVec.and_or_distrib_left, BitVec.ofNat_eq_ofNat, BitVec.or_eq_zero_iff]
  constructor
  · intro h
    -- The third channel is never serviced, so that its flag must be clear. But then the fourth
    -- channel is not serviced either.
    have hthird : sr &&& itCc3 = 0 := by
      by_contra hne
      exact (h 2).mpr hne BitVec.and_zero
    refine ⟨hthird, ?_⟩
    by_contra hne
    exact (h 3).mpr hne hthird
  · rintro ⟨hthird, hfourth⟩ c
    match c with
    | 0 => exact Iff.rfl
    | 1 => exact Iff.rfl
    | 2 => exact iff_of_false (not_not.mpr BitVec.and_zero) (not_not.mpr hthird)
    | 3 => exact iff_of_false (not_not.mpr hthird) (not_not.mpr hfourth)

theorem servesOwn_iff (hon : ∀ c, t.CaptureOn c) (honly : t.OnlyCaptures) (i : TimIrq) :
    t.ServesOwn i ↔ i.sr &&& (itCc3 ||| itCc4) = 0 := by
  have hall : (t.load i).AllCapture := ⟨honly, fun c ↦ (hon c).enabled⟩
  rw [← flags_agree_iff]
  refine forall_congr' fun c ↦ ?_
  rw [hall.captureEvents i c]
  have hne := PwmChan.captured_input_ne ((hon c).steps (steps_load t i)).tracked
    (i.captureNow c) t.arr
  change (ite (i.sr &&& servingFlag c ≠ 0) _ _ : PwmChan).input = _ ↔ _
  by_cases hserved : i.sr &&& servingFlag c ≠ 0 <;> by_cases hown : i.sr &&& itCc c ≠ 0
  · rw [if_pos hserved, if_pos hown]
    exact iff_of_true rfl (iff_of_true hserved hown)
  · rw [if_pos hserved, if_neg hown]
    exact iff_of_false hne fun h ↦ hown (h.mp hserved)
  · rw [if_neg hserved, if_pos hown]
    exact iff_of_false hne.symm fun h ↦ hserved (h.mpr hown)
  · rw [if_neg hserved, if_neg hown]
    exact iff_of_true rfl (iff_of_false hserved hown)

end PwmTimer

namespace Stm32Pwm

/-- In the run, a handler is called in the state `s`, after the four channels of its timer were set
up. -/
def CaptureCall (events : List PwmEvent) (s : Stm32Pwm) (v : TimVector) (i : TimIrq) : Prop :=
  ∃ pre post, events = pre ++ .irq v i :: post ∧ boot.run pre = some s ∧
    ∀ c, ∃ e ∈ pre, e.Configures v.timer c

/-- The captures are serviced as they should be and the other timers are left alone. -/
def Serves (s : Stm32Pwm) (v : TimVector) (i : TimIrq) : Prop :=
  (s v.timer).ServesOwn i ∧ ∀ s', s.next (.irq v i) = some s' → ∀ t ≠ v.timer, s' t = s t

theorem next_irq_of_ne {s s' : Stm32Pwm} {v : TimVector} {i : TimIrq}
    (h : s.next (.irq v i) = some s') {t : Fin 8} (ht : t ≠ v.timer) : s' t = s t := by
  obtain ⟨u, -, rfl⟩ := Option.map_eq_some_iff.mp h
  exact Function.update_of_ne ht _ _

theorem CaptureCall.serves_iff {events : List PwmEvent} {s : Stm32Pwm} {v : TimVector} {i : TimIrq}
    (h : CaptureCall events s v i) : s.Serves v i ↔ i.sr &&& (itCc3 ||| itCc4) = 0 := by
  obtain ⟨pre, post, -, hrun, hconf⟩ := h
  have hon (c : Fin 4) : (s v.timer).CaptureOn c := by
    obtain ⟨e, he, hc⟩ := hconf c
    exact captureOn_of_mem hrun he hc
  obtain ⟨u, hu, hsteps⟩ := onlyCaptures_boot.run pre
  cases hrun.symm.trans hu
  have honly := (onlyCaptures_boot v.timer).steps (hsteps v.timer)
  rw [← PwmTimer.servesOwn_iff hon honly i]
  exact and_iff_left fun s' hnext t ht ↦ next_irq_of_ne hnext ht

/-- All captures of a run are serviced as they should be exactly when none is ever pending for the
third or the fourth capture register. -/
theorem serves_run_iff (events : List PwmEvent) :
    (∀ s v i, CaptureCall events s v i → s.Serves v i) ↔
      ∀ s v i, CaptureCall events s v i → i.sr &&& (itCc3 ||| itCc4) = 0 :=
  forall₄_congr fun _ _ _ h ↦ h.serves_iff

/-- The channels of the third timer are set up. -/
def setUpTim3 : List PwmEvent :=
  [.configureCapture 8 0, .configureCapture 9 0, .configureCapture 10 0, .configureCapture 11 0]

/-- A capture on the third channel. -/
def thirdCapture : TimIrq :=
  ⟨itCc3, ![300, 300, 1500, 300], fun _ ↦ 50, fun _ ↦ 50⟩

/-- The third channel is left as it was, and the fourth takes a value that it did not capture. -/
theorem serves_run_third : ∃ s, boot.run setUpTim3 = some s ∧
    CaptureCall (setUpTim3 ++ [.irq .tim3 thirdCapture]) s .tim3 thirdCapture ∧
    ¬s.Serves .tim3 thirdCapture ∧
    (s.next (.irq .tim3 thirdCapture)).map (fun s' ↦
      (((s' 2).chan 2).input.rise, ((s' 2).chan 3).input.rise)) = some (0, 300) := by
  have hrun : ∃ s, boot.run setUpTim3 = some s ∧
      (s.next (.irq .tim3 thirdCapture)).map (fun s' ↦
        (((s' 2).chan 2).input.rise, ((s' 2).chan 3).input.rise)) = some (0, 300) :=
    ⟨_, rfl, rfl⟩
  obtain ⟨s, hs, hreadings⟩ := hrun
  have hcall : CaptureCall (setUpTim3 ++ [.irq .tim3 thirdCapture]) s .tim3 thirdCapture := by
    refine ⟨setUpTim3, [], rfl, hs, fun c ↦ ?_⟩
    match c with
    | 0 => exact ⟨.configureCapture 8 0, by simp [setUpTim3], rfl, rfl, rfl, by decide⟩
    | 1 => exact ⟨.configureCapture 9 0, by simp [setUpTim3], rfl, rfl, rfl, by decide⟩
    | 2 => exact ⟨.configureCapture 10 0, by simp [setUpTim3], rfl, rfl, rfl, by decide⟩
    | 3 => exact ⟨.configureCapture 11 0, by simp [setUpTim3], rfl, rfl, rfl, by decide⟩
  refine ⟨s, hs, hcall, ?_, hreadings⟩
  rw [hcall.serves_iff]
  decide

end Stm32Pwm

end Martink
