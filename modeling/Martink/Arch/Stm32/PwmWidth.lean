import Martink.Arch.Stm32.Ppm
import Martink.Arch.Stm32.PwmFlags

/-!
# The measured width of a pulse

The counter of a timer runs from zero to the auto-reload value and starts again, so that one round
takes a tick more than that value. The width of a pulse during which the counter starts again is
computed as if a round took exactly the auto-reload value, and comes out one tick short.
-/

namespace Martink

/-! ## The computation -/

/-- The width that is computed for a pulse of `d` ticks. -/
theorem toNat_captureWidth {arr r f : BitVec 16} {d : ℕ} (hr : r.toNat ≤ arr.toNat) (hpos : 0 < d)
    (hd : d ≤ arr.toNat) (hf : f.toNat = (r.toNat + d) % (arr.toNat + 1)) :
    (captureWidth arr (r.setWidth 32) (f.setWidth 32)).toNat =
      if r.toNat + d ≤ arr.toNat then d else d - 1 := by
  have harr := arr.isLt
  have hwide (x : BitVec 16) : (x.setWidth 32).toNat = x.toNat := by
    rw [BitVec.toNat_setWidth]
    exact Nat.mod_eq_of_lt (by have := x.isLt; omega)
  have hlt : r.setWidth 32 < f.setWidth 32 ↔ r.toNat < f.toNat := by
    rw [BitVec.lt_def, hwide, hwide]
  rw [captureWidth, if_congr hlt rfl rfl]
  by_cases hround : r.toNat + d ≤ arr.toNat
  · rw [Nat.mod_eq_of_lt (by omega)] at hf
    rw [if_pos hround, if_pos (by omega), BitVec.toNat_sub_of_le, hwide, hwide]
    · omega
    · rw [BitVec.le_def, hwide, hwide]
      omega
  · -- The counter has started again, from zero.
    have hwrapped : f.toNat = r.toNat + d - (arr.toNat + 1) := by
      rw [hf, Nat.mod_eq_sub_mod (by omega), Nat.mod_eq_of_lt (by omega)]
    rw [if_neg hround, if_neg (by omega), BitVec.toNat_add, BitVec.toNat_sub_of_le, hwide, hwide,
      hwide]
    · omega
    · rw [BitVec.le_def, hwide, hwide]
      exact hr

/-! ## A capture that is serviced -/

namespace PwmTimer

variable {t t' : PwmTimer} {c : Fin 4} {i : TimIrq}

/-- The call finds a capture of the channel, and does not take so long that it times it out
itself. -/
structure FindsCapture (t : PwmTimer) (i : TimIrq) (c : Fin 4) : Prop where
  /-- The flag of the capture is pending. -/
  flag : i.sr &&& servingFlag c ≠ 0
  /-- Its interrupt is enabled. -/
  enabled : t.dier &&& intIds c ≠ 0
  /-- The channel does not send. -/
  measures : ¬t.Sends c
  /-- The second loop comes before the width expires. -/
  inTime : ¬timestampExpired (i.updateNow c) (i.captureNow c + 100000)

theorem captureStep_flag (now : ℤ) {d : Fin 4} {flag : BitVec 16}
    (h : ~~~intIds d &&& flag = flag) :
    (t.captureStep now d).sr &&& flag = t.sr &&& flag := by
  have hclear : (t.sr &&& ~~~intIds d) &&& flag = t.sr &&& flag := by rw [BitVec.and_assoc, h]
  rw [PwmTimer.captureStep]
  split
  · dsimp only
    split
    · exact hclear
    · exact hclear
  · rfl

/-- What the loop leaves of a channel that it does not see to, and of a flag that it does not
clear. -/
theorem captureLoop_keeps (i : TimIrq) {l : List (Fin 4)} (flag : BitVec 16) (hc : c ∉ l)
    (hl : ∀ d ∈ l, ~~~intIds d &&& flag = flag) :
    (t.captureLoop i l).chan c = t.chan c ∧
      (t.captureLoop i l).sr &&& flag = t.sr &&& flag := by
  refine List.foldlRecOn (motive := fun u : PwmTimer ↦
    u.chan c = t.chan c ∧ u.sr &&& flag = t.sr &&& flag) _ _ ⟨rfl, rfl⟩ fun u hu d hd ↦ ?_
  have hne : c ≠ d := fun heq ↦ hc (heq ▸ hd)
  rw [captureStep_of_ne _ hne, captureStep_flag _ (hl d hd)]
  exact hu

theorem captured_captureLoop (i : TimIrq) (t : PwmTimer) (l : List (Fin 4)) :
    Captured t (t.captureLoop i l) :=
  List.foldlRecOn (motive := Captured t) _ _ (captured_refl t) fun _ ht d _ ↦
    ht.trans (captured_captureStep _ _ d)

/-- The flag that services a channel is its own, and no channel before it clears that flag. -/
theorem split_of_servingFlag {sr : BitVec 16} (h : sr &&& servingFlag c ≠ 0) :
    servingFlag c = intIds c ∧ ∃ pre post, List.finRange 4 = pre ++ c :: post ∧ c ∉ pre ∧ c ∉ post ∧
      ∀ d ∈ pre, ~~~intIds d &&& intIds c = intIds c := by
  match c with
  | 0 => exact ⟨rfl, [], [1, 2, 3], rfl, by decide, by decide, by decide⟩
  | 1 => exact ⟨rfl, [0], [2, 3], rfl, by decide, by decide, by decide⟩
  | 2 => exact absurd BitVec.and_zero h
  | 3 => exact ⟨rfl, [0, 1, 2], [], rfl, by decide, by decide, by decide⟩

/-- The first loop services the capture. -/
theorem FindsCapture.captureEvents (h : t.FindsCapture i c) :
    ((t.load i).captureEvents i).chan c =
      ((t.load i).chan c).captured (i.captureNow c) t.arr := by
  obtain ⟨hflag, pre, post, hsplit, hpre, hpost, hkeep⟩ := split_of_servingFlag h.flag
  -- the channels before this one, this one, and those after it
  have hloop : (t.load i).captureEvents i =
      (((t.load i).captureLoop i pre).captureStep (i.captureNow c) c).captureLoop i post := by
    rw [PwmTimer.captureEvents, hsplit, List.foldl_append, List.foldl_cons]
    rfl
  obtain ⟨hchan, hsr⟩ := (t.load i).captureLoop_keeps i _ hpre hkeep
  have hbefore := captured_captureLoop i (t.load i) pre
  set u := (t.load i).captureLoop i pre
  have hstatus : u.itStatus (intIds c) = true := by
    rw [PwmTimer.itStatus, decide_eq_true_iff, hsr, hbefore.dier]
    exact ⟨hflag ▸ h.flag, h.enabled⟩
  have hmode : ¬(u.chan c).output.mode = .ppmOutput := mt (hbefore.sends_iff c).mp h.measures
  rw [hloop, (captureLoop_keeps i 0 hpost fun _ _ ↦ BitVec.and_zero).1,
    PwmTimer.captureStep, if_pos hstatus]
  dsimp only
  rw [if_neg (show ¬((u.clearPending (intIds c)).chan c).output.mode = .ppmOutput from hmode)]
  refine (Function.update_self _ _ _).trans ?_
  rw [show (u.clearPending (intIds c)).arr = t.arr from hbefore.arr]
  exact congrArg _ hchan

theorem us_captured (now : ℤ) (arr : BitVec 16) (ch : PwmChan) :
    (ch.captured now arr).input.us = now := by
  cases hstate : ch.input.state <;> simp only [PwmChan.captured, hstate]

/-- The second loop leaves a channel alone that measures and has not been silent for long. -/
theorem chan_of_updateEvent (hmeasures : ¬t.Sends c)
    (hsilence : ¬timestampExpired (i.updateNow c) ((t.chan c).input.us + 100000))
    (h : t.updateEvent i = some t') : t'.chan c = t.chan c := by
  rw [PwmTimer.updateEvent] at h
  split at h
  · have hstart : (t.clearPending itUpdate).chan c = t.chan c := rfl
    refine foldlM_invariant (P := fun u : PwmTimer ↦ u.chan c = t.chan c) (fun u d u' hu hstep ↦ ?_)
      hstart h
    -- the time-out has not come, so that the channel's own step does nothing either
    by_cases hd : d = c
    · subst hd
      have hmode : ¬(u.chan d).output.mode = .ppmOutput := by
        rw [hu]
        exact hmeasures
      simp only [PwmTimer.updateStep] at hstep
      rw [if_neg hmode, hu, if_neg hsilence, ite_self] at hstep
      rw [← Option.some_inj.mp hstep, hu]
    · have hother : c ∉ [d] := fun hmem ↦ hd (List.mem_singleton.mp hmem).symm
      rw [(updated_of_updateStep hstep).other c hother, hu]
  · rw [← Option.some_inj.mp h]

/-- **A capture.** -/
theorem FindsCapture.timIrqHandler (h : t.FindsCapture i c) (ht : t.timIrqHandler i = some t') :
    t'.chan c = ((t.load i).chan c).captured (i.captureNow c) t.arr := by
  rw [PwmTimer.timIrqHandler] at ht
  have hloop := captured_captureEvents i (t.load i)
  have hcaptured := h.captureEvents
  rw [← hcaptured]
  refine chan_of_updateEvent (mt (hloop.sends_iff c).mp h.measures) ?_ ht
  rw [hcaptured, us_captured]
  exact h.inTime

/-- **The width of a pulse.** A rising edge is captured at `r`, and the next capture of the channel
is the falling edge `d` ticks later, while the counter runs from zero to the auto-reload value and
starts again. The width stored is `d` exactly if the counter does not start again during the
pulse. -/
theorem capture_eq_iff {u u' : PwmTimer} {j : TimIrq} {d : ℕ}
    (hrising : t.FindsCapture i c) (hstate : (t.chan c).input.state = .rise)
    (ht : t.timIrqHandler i = some t') (hsame : (u.chan c).input = (t'.chan c).input)
    (hfalling : u.FindsCapture j c) (hu : u.timIrqHandler j = some u')
    (hr : (i.ccr c).toNat ≤ u.arr.toNat) (hpos : 0 < d) (hd : d ≤ u.arr.toNat)
    (hf : (j.ccr c).toNat = ((i.ccr c).toNat + d) % (u.arr.toNat + 1)) :
    (u'.chan c).input.capture.toNat = d ↔ (i.ccr c).toNat + d ≤ u.arr.toNat := by
  -- the first call stores the rising edge, the second one finds it
  have hrise : (t'.chan c).input.state = .fall ∧
      (t'.chan c).input.rise = (i.ccr c).setWidth 32 := by
    rw [hrising.timIrqHandler ht]
    have hload : ((t.load i).chan c).input.state = .rise := hstate
    simp only [PwmChan.captured, hload, true_and]
    rfl
  have hfall : (u'.chan c).input.capture =
      captureWidth u.arr ((i.ccr c).setWidth 32) ((j.ccr c).setWidth 32) := by
    rw [hfalling.timIrqHandler hu]
    have hload : ((u.load j).chan c).input = (t'.chan c).input := hsame
    simp only [PwmChan.captured, hload, hrise.1]
    rw [hrise.2]
    rfl
  rw [hfall, toNat_captureWidth hr hpos hd hf]
  split
  · rename_i hround
    exact iff_of_true rfl hround
  · rename_i hround
    exact iff_of_false (by omega) hround

/-- The first channel of the third timer is set up, a rising edge is captured at 3900 and the
falling edge at 99: a pulse of 200 ticks, of which one is lost. -/
theorem capture_around :
    (Stm32Pwm.boot.run [.configureCapture 8 0,
        .irq .tim3 ⟨itCc1, fun _ ↦ 3900, fun _ ↦ 50, fun _ ↦ 60⟩,
        .irq .tim3 ⟨itCc1, fun _ ↦ (3900 + 200) % 4001, fun _ ↦ 250, fun _ ↦ 260⟩]).map
      (fun s ↦ ((s 2).arr, ((s 2).chan 0).input.capture)) = some (4000, 199) := by
  decide +kernel

/-- A pulse of 200 ticks from 1000 on. -/
theorem capture_eq_iff_inside :
    ∃ t t' u' : PwmTimer, ∃ i j : TimIrq, t.timIrqHandler i = some t' ∧
      t'.timIrqHandler j = some u' ∧
      ((u'.chan 0).input.capture.toNat = 200 ↔ (i.ccr 0).toNat + 200 ≤ t'.arr.toNat) := by
  obtain ⟨t', u', ht, hu, harr, hdier, hsends⟩ : ∃ t' u' : PwmTimer,
      ((Stm32Pwm.boot 2).configureCapture 0 0).timIrqHandler
        ⟨itCc1, fun _ ↦ 1000, fun _ ↦ 50, fun _ ↦ 60⟩ = some t' ∧
      t'.timIrqHandler ⟨itCc1, fun _ ↦ 1200, fun _ ↦ 250, fun _ ↦ 260⟩ = some u' ∧
      t'.arr = 4000 ∧ t'.dier &&& intIds 0 ≠ 0 ∧ ¬t'.Sends 0 :=
    ⟨_, _, rfl, rfl, rfl, by decide, by decide⟩
  refine ⟨_, t', u', _, _, ht, hu, capture_eq_iff ⟨?_, ?_, ?_, ?_⟩ rfl ht rfl
    ⟨by decide, hdier, hsends, by decide⟩ hu ?_ (by decide) ?_ ?_⟩
  all_goals first
    | decide
    | rw [harr]; decide

end PwmTimer

end Martink
