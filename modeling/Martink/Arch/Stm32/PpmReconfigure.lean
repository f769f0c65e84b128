import Martink.Arch.Stm32.PpmCalls

/-!
# Setting up a train while interrupts come

`ppm_configure` does not mask the update interrupt. If it is enabled already, the handler can see
the mode before the buffer, and the new buffer before the new count. A channel that has sent no
train then reads through a null pointer, and a train that was longer than the new one is read past
the end of the new buffer. In all other cases every combination of old and new fields is a safe
train.
-/

namespace Martink

/-- The channel sends a train already, of at most the new length. -/
def PpmCall.Continues (call : PpmCall) (o : ChannelState) : Prop :=
  o.mode = .ppmOutput ∧ o.ppmCount.toNat ≤ call.pulses.length

namespace PpmCall

variable {call : PpmCall} {o : ChannelState}

/-- What holds before statement `k` of a call that continues a train. -/
structure Smooth (call : PpmCall) (k : ℕ) (o : ChannelState) : Prop where
  /-- The train can be sent. -/
  safe : o.Safe
  /-- It is one already, of at most the new length. -/
  continues : call.Continues o
  /-- The buffer is set by statement 5. -/
  buffer : 5 < k → o.ppmBuffer = some call.pulses

theorem Smooth.advance {k : ℕ} (h : call.Smooth k o) : call.Smooth k o.advance :=
  ⟨h.safe.advance h.continues.1, h.continues, h.buffer⟩

theorem Smooth.assign {k : Fin 10} (h : call.Smooth k o) :
    call.Smooth (k + 1) (call.assign k o) := by
  obtain ⟨hsafe, ⟨hmode, hle⟩, hbuffer⟩ := h
  obtain ⟨buffer, hold, hpos, hlength, hcurrent⟩ := hsafe.sends hmode
  have hother {m : ChannelMode} (hm : m = .ppmOutput) (hne : m ≠ .ppmOutput) :
      o.ppmBuffer = none := absurd hm hne
  match k with
  | 0 | 1 | 2 => exact ⟨hsafe, ⟨hmode, hle⟩, fun hk ↦ absurd hk (by decide)⟩
  | 3 => exact ⟨⟨fun _ ↦ hsafe.sends hmode, hother rfl⟩, ⟨rfl, hle⟩, by simp⟩
  | 4 => exact ⟨⟨hsafe.sends, hsafe.idle⟩, ⟨hmode, hle⟩, by simp⟩
  | 5 =>
    -- The old count is within the new buffer.
    exact ⟨⟨fun _ ↦ ⟨call.pulses, rfl, hpos, hle, hcurrent⟩, fun hne ↦ absurd hmode hne⟩,
      ⟨hmode, hle⟩, fun _ ↦ rfl⟩
  | 6 =>
    -- The position is within the old count, and so within the new one.
    have hnew := hbuffer (by decide)
    have hcount := call.toNat_npulse
    refine ⟨⟨fun _ ↦ ⟨call.pulses, hnew, ?_, hcount.le, ?_⟩, fun hne ↦ absurd hmode hne⟩,
      ⟨hmode, hcount.le⟩, fun _ ↦ hnew⟩
    · exact hcount ▸ call.pos
    · exact (hcurrent.trans hle).trans hcount.ge
  | 7 =>
    exact ⟨⟨fun _ ↦ ⟨buffer, hold, hpos, hlength, Nat.zero_le _⟩, fun hne ↦ absurd hmode hne⟩,
      ⟨hmode, hle⟩, fun _ ↦ hbuffer (by decide)⟩
  | 8 | 9 => exact ⟨hsafe, ⟨hmode, hle⟩, fun _ ↦ hbuffer (by decide)⟩

end PpmCall

namespace Stm32Pwm

variable {s s' : Stm32Pwm} {call : PpmCall}

/-! ## Calls that are safe -/

/-- A call is defined if what holds before each statement is kept by the interrupts. -/
theorem exists_call {P : ℕ → Stm32Pwm → Prop} (hthere : (pwmTimers (timId call.chan)).1 = true)
    (hirq : ∀ k s v i, P k s → ∃ s', s.next (.irq v i) = some s' ∧ P k s')
    (hstatement : ∀ (k : Fin 10) s, P k s →
      P (k + 1) (Function.update s (timId call.chan) (call.statement k (s (timId call.chan)))))
    (h : P 0 s) (gaps : Fin 10 → Gap) : ∃ s', s.ppmRun (call.events gaps) = some s' := by
  have hstage (k : Fin 10) (u : Stm32Pwm) (hu : P k u) :
      ∃ u', u.ppmRun ((gaps k).events ++ [.statement call k]) = some u' ∧ P (k + 1) u' := by
    obtain ⟨u', hgap, hu'⟩ : ∃ u', u.ppmRun (gaps k).events = some u' ∧ P k u' := by
      refine exists_foldlM_of_mem (fun s e he hs ↦ ?_) hu
      obtain ⟨vi, -, rfl⟩ := List.mem_map.mp he
      exact hirq k s vi.1 vi.2 hs
    refine ⟨_, ?_, hstatement k u' hu'⟩
    exact foldlM_concat_eq_some_iff.mpr ⟨u', hgap, if_pos hthere⟩
  obtain ⟨s', hrun, -⟩ := exists_foldlM_stages hstage h
  exact ⟨s', hrun⟩

theorem exists_call_of_continues (hthere : (pwmTimers (timId call.chan)).1 = true) (h : s.Safe)
    (hcontinues : call.Continues (s.output (timId call.chan) (chanId call.chan)))
    (gaps : Fin 10 → Gap) : ∃ s', s.ppmRun (call.events gaps) = some s' := by
  refine exists_call (P := fun k s ↦
    s.Safe ∧ call.Smooth k (s.output (timId call.chan) (chanId call.chan))) hthere ?_ ?_
    ⟨h, h _ _, hcontinues, by simp⟩ gaps
  · rintro k s v i ⟨hsafe, hsmooth⟩
    obtain ⟨s', hnext, hsafe'⟩ := hsafe.irq v i
    exact ⟨s', hnext, hsafe', keeps_irq hnext hsmooth fun _ _ ↦ hsmooth.advance⟩
  · rintro k s ⟨hsafe, hsmooth⟩
    have hassign := hsmooth.assign
    refine ⟨fun t c ↦ ?_, ?_⟩
    · rw [output_statement]
      split
      · rename_i hown
        rw [hown.1, hown.2]
        exact hassign.safe
      · exact hsafe t c
    · rw [output_statement, if_pos ⟨rfl, rfl⟩]
      exact hassign

/-- A timer whose interrupts reach no handler. -/
theorem exists_call_of_no_vector (hthere : (pwmTimers (timId call.chan)).1 = true) (h : s.Safe)
    (hvector : ∀ v : TimVector, v.timer ≠ timId call.chan) (gaps : Fin 10 → Gap) :
    ∃ s', s.ppmRun (call.events gaps) = some s' := by
  refine exists_call (P := fun _ s ↦ ∀ t c, t ≠ timId call.chan → (s.output t c).Safe) hthere ?_ ?_
    (fun t c _ ↦ h t c) gaps
  · intro k s v i hs
    obtain ⟨u, hu⟩ := PwmTimer.exists_timIrqHandler (t := s v.timer) (i := i) fun _ c hc ↦
      (hs v.timer c (hvector v)).width hc
    have hnext : s.next (.irq v i) = some (Function.update s v.timer u) := by
      rw [Stm32Pwm.next, hu]
      rfl
    exact ⟨_, hnext, fun t c ht ↦ keeps_irq hnext (hs t c ht) fun _ ↦ (hs t c ht).advance⟩
  · intro k s hs t c ht
    rw [output_statement, if_neg fun hown ↦ ht hown.1]
    exact hs t c ht

/-! ## Calls that are not -/

/-- The interrupts of one gap. -/
def gapAt (k : Fin 10) (gap : Gap) : Fin 10 → Gap := fun j ↦ if j = k then gap else []

theorem updates_updateIrq {t : PwmTimer} (h : t.dier &&& itUpdate ≠ 0) : t.Updates updateIrq :=
  ⟨by decide, h⟩

/-- What the statements before a gap lead to. -/
theorem ppmRun_before_gap {P : ℕ → Stm32Pwm → Prop} {k : Fin 10} {gap : Gap}
    (hstatement : ∀ (j : Fin 10) s, j < k → P j s →
      P (j + 1) (Function.update s (timId call.chan) (call.statement j (s (timId call.chan)))))
    (h : P 0 s) (hrun : s.ppmRun (call.events (gapAt k gap)) = some s') :
    ∃ u u', P k u ∧ u.ppmRun gap.events = some u' := by
  -- before the gap the stages are those of the call; from it on, the gap has been passed
  have hstages := foldlM_stages (P := fun j s ↦ (j ≤ k ∧ P j s) ∨
    (k < j ∧ ∃ u u', P k u ∧ u.ppmRun gap.events = some u')) (f := ppmNext) (n := 10)
    (fun j u u' hu hrun ↦ ?_) (.inl ⟨Nat.zero_le _, h⟩) hrun
  · rcases hstages with ⟨hle, -⟩ | ⟨-, hreached⟩
    · exact absurd hle (by omega)
    · exact hreached
  · obtain ⟨u₁, hgap, rfl⟩ := ppmRun_stage hrun
    rcases hu with ⟨hle, hP⟩ | ⟨hlt, hreached⟩
    · rcases hle.lt_or_eq with hlt | heq
      · have hempty : gapAt k gap j = [] := if_neg fun heq ↦ by omega
        rw [hempty] at hgap
        obtain rfl := Option.some_inj.mp hgap
        exact .inl ⟨hlt, hstatement j u hlt hP⟩
      · obtain rfl := Fin.ext heq
        have hthis : gapAt j gap j = gap := if_pos rfl
        rw [hthis] at hgap
        exact .inr ⟨Nat.lt_succ_self _, u, u₁, hP, hgap⟩
    · exact .inr ⟨by omega, hreached⟩

theorem dier_statement (k : Fin 10)
    (h : (s (timId call.chan)).dier &&& itUpdate ≠ 0) :
    ((Function.update s (timId call.chan) (call.statement k (s (timId call.chan))))
      (timId call.chan)).dier &&& itUpdate ≠ 0 := by
  rw [Function.update_self]
  exact call.dier_statement k h

/-- Before the buffer of a first call is assigned. -/
structure Unset (call : PpmCall) (j : ℕ) (s : Stm32Pwm) : Prop where
  /-- The update interrupt is enabled. -/
  dier : (s (timId call.chan)).dier &&& itUpdate ≠ 0
  /-- There is no buffer yet. -/
  buffer : (s.output (timId call.chan) (chanId call.chan)).ppmBuffer = none
  /-- The mode is set by statement 3. -/
  mode : 3 < j → (s.output (timId call.chan) (chanId call.chan)).mode = .ppmOutput

theorem Unset.statement {j : Fin 10} (hj : j < 4) (h : Unset call j s) :
    Unset call (j + 1)
      (Function.update s (timId call.chan) (call.statement j (s (timId call.chan)))) := by
  refine ⟨dier_statement j h.dier, ?_, ?_⟩
  all_goals rw [output_statement, if_pos ⟨rfl, rfl⟩]
  · match j, hj with
    | 0, _ | 1, _ | 2, _ | 3, _ => exact h.buffer
  · match j, hj with
    | 0, _ | 1, _ | 2, _ => exact fun hk ↦ absurd hk (by decide)
    | 3, _ => exact fun _ ↦ rfl

/-- **The first call for a channel.** Between mode and buffer the handler finds no buffer. -/
theorem mode_of_calls (hsafe : s.Safe) {v : TimVector} (hv : v.timer = timId call.chan)
    (hdier : (s (timId call.chan)).dier &&& itUpdate ≠ 0)
    (hcalls : ∀ gaps, ∃ s', s.ppmRun (call.events gaps) = some s') :
    (s.output (timId call.chan) (chanId call.chan)).mode = .ppmOutput := by
  by_contra hmode
  obtain ⟨s', hrun⟩ := hcalls (gapAt 4 [(v, updateIrq)])
  obtain ⟨u, u', hunset, hgap⟩ := ppmRun_before_gap (P := Unset call)
    (fun _ _ hj hu ↦ hu.statement hj) ⟨hdier, (hsafe _ _).idle hmode, by simp⟩ hrun
  have hnext : u.next (.irq v updateIrq) = some u' := (ppmRun_singleton u _).symm.trans hgap
  have hirq := output_irq hnext (timId call.chan) (chanId call.chan)
  rw [if_pos ⟨hv, updates_updateIrq hunset.dier, hunset.mode (by decide)⟩] at hirq
  obtain ⟨w, hw⟩ := hirq.1
  rw [ChannelState.width, hunset.buffer] at hw
  exact absurd hw (by simp)

/-- What the interrupts find between the new buffer and the old count, after `m` of them. -/
structure Overruns (call : PpmCall) (s : Stm32Pwm) (m : ℕ) : Prop where
  /-- The update interrupt is enabled. -/
  dier : (s (timId call.chan)).dier &&& itUpdate ≠ 0
  /-- The channel sends. -/
  mode : (s.output (timId call.chan) (chanId call.chan)).mode = .ppmOutput
  /-- The buffer is the new one. -/
  buffer : (s.output (timId call.chan) (chanId call.chan)).ppmBuffer = some call.pulses
  /-- The count is that of a longer one. -/
  count : call.pulses.length < (s.output (timId call.chan) (chanId call.chan)).ppmCount.toNat
  /-- The position has gone up with each interrupt. -/
  current : m = 0 ∨ (m ≤ (s.output (timId call.chan) (chanId call.chan)).ppmCurrent.toNat ∧
    (s.output (timId call.chan) (chanId call.chan)).ppmCurrent.toNat ≤ call.pulses.length)

/-- The position goes on until it is past the new buffer. -/
theorem Overruns.next {m : ℕ} (h : Overruns call s m) {v : TimVector}
    (hv : v.timer = timId call.chan) (hnext : s.next (.irq v updateIrq) = some s') :
    Overruns call s' (m + 1) := by
  have hirq := output_irq hnext (timId call.chan) (chanId call.chan)
  rw [if_pos ⟨hv, updates_updateIrq h.dier, h.mode⟩] at hirq
  obtain ⟨⟨w, hw⟩, hadvance⟩ := hirq
  set o := s.output (timId call.chan) (chanId call.chan)
  have hturn : o.turn.toNat < call.pulses.length := by
    rw [ChannelState.width, h.buffer, Option.bind_some] at hw
    exact (List.getElem?_eq_some_iff.mp hw).1
  have hle : m ≤ o.turn.toNat := by
    rcases h.current with rfl | ⟨hm, hcurrent⟩
    · exact Nat.zero_le _
    · have hne : o.ppmCurrent ≠ o.ppmCount := fun heq ↦ by
        have hcount := h.count
        rw [← heq] at hcount
        exact absurd hcurrent (Nat.not_le.mpr hcount)
      rw [ChannelState.turn, if_neg hne]
      exact hm
  have hstep := ChannelState.toNat_advance (hturn.trans_le call.le)
  refine ⟨?_, ?_, ?_, ?_, .inr ?_⟩
  · rw [dier_irq hnext]
    exact h.dier
  all_goals rw [hadvance]
  · exact h.mode
  · exact h.buffer
  · exact h.count
  · rw [hstep]
    exact ⟨Nat.succ_le_succ hle, hturn⟩

/-- Before the count of a call for a shorter train is assigned. -/
structure Shortens (call : PpmCall) (j : ℕ) (s : Stm32Pwm) : Prop where
  /-- The update interrupt is enabled. -/
  dier : (s (timId call.chan)).dier &&& itUpdate ≠ 0
  /-- The channel sends. -/
  mode : (s.output (timId call.chan) (chanId call.chan)).mode = .ppmOutput
  /-- The count is more than the new buffer has. -/
  count : call.pulses.length < (s.output (timId call.chan) (chanId call.chan)).ppmCount.toNat
  /-- The buffer is set by statement 5. -/
  buffer : 5 < j → (s.output (timId call.chan) (chanId call.chan)).ppmBuffer = some call.pulses

theorem Shortens.statement {j : Fin 10} (hj : j < 6) (h : Shortens call j s) :
    Shortens call (j + 1)
      (Function.update s (timId call.chan) (call.statement j (s (timId call.chan)))) := by
  refine ⟨dier_statement j h.dier, ?_, ?_, ?_⟩
  all_goals rw [output_statement, if_pos ⟨rfl, rfl⟩]
  · match j, hj with
    | 0, _ | 1, _ | 2, _ | 4, _ | 5, _ => exact h.mode
    | 3, _ => rfl
  · match j, hj with
    | 0, _ | 1, _ | 2, _ | 3, _ | 4, _ | 5, _ => exact h.count
  · match j, hj with
    | 0, _ | 1, _ | 2, _ | 3, _ | 4, _ => exact fun hk ↦ absurd hk (by decide)
    | 5, _ => exact fun _ ↦ rfl

/-- **A shorter train.** Between buffer and count the handler reads past the end. -/
theorem count_of_calls {v : TimVector} (hv : v.timer = timId call.chan)
    (hdier : (s (timId call.chan)).dier &&& itUpdate ≠ 0)
    (hmode : (s.output (timId call.chan) (chanId call.chan)).mode = .ppmOutput)
    (hcalls : ∀ gaps, ∃ s', s.ppmRun (call.events gaps) = some s') :
    (s.output (timId call.chan) (chanId call.chan)).ppmCount.toNat ≤ call.pulses.length := by
  by_contra hcount
  rw [not_le] at hcount
  -- enough interrupts between the two assignments run past the end of the new buffer
  obtain ⟨s', hrun⟩ :=
    hcalls (gapAt 6 (List.replicate (call.pulses.length + 2) (v, updateIrq)))
  obtain ⟨u, u', hshort, hgap⟩ := ppmRun_before_gap (P := Shortens call)
    (fun _ _ hj hu ↦ hu.statement hj) ⟨hdier, hmode, hcount, by simp⟩ hrun
  have hstart : Overruns call u 0 :=
    ⟨hshort.dier, hshort.mode, hshort.buffer (by decide), hshort.count, .inl rfl⟩
  have hend := foldlM_rel_of_mem (g := fun m _ ↦ m.succ) (R := Overruns call) _
    (fun s m e he s' hs hnext ↦ by
      obtain ⟨vi, hvi, rfl⟩ := List.mem_map.mp he
      obtain rfl := List.eq_of_mem_replicate hvi
      exact hs.next hv hnext) hstart hgap
  rw [List.foldl_const, Nat.succ_iterate, Gap.events, List.length_map,
    List.length_replicate] at hend
  rcases hend.current with hzero | ⟨hm, hle⟩
  · omega
  · omega

/-- **Setting up a train while interrupts come.** Every interleaving reads inside a buffer exactly
if the channel sends a train of at most the new length already, or the timer has no handler. -/
theorem ppmConfigure_safe_iff {actions : List PpmAction} (hrun : boot.ppmProgram actions = some s)
    (call : PpmCall) (henabled : (s (timId call.chan)).dier &&& itUpdate ≠ 0) :
    (∀ gaps, ∃ s', s.ppmRun (call.events gaps) = some s') ↔
      (∀ v : TimVector, v.timer ≠ timId call.chan) ∨
        call.Continues (s.output (timId call.chan) (chanId call.chan)) := by
  have hsafe := safe_of_program hrun
  have hthere : (pwmTimers (timId call.chan)).1 = true := by
    by_contra habsent
    rw [Bool.not_eq_true] at habsent
    rw [dier_of_program hrun habsent] at henabled
    exact henabled BitVec.zero_and
  constructor
  · intro hcalls
    by_cases hvector : ∀ v : TimVector, v.timer ≠ timId call.chan
    · exact .inl hvector
    · rw [not_forall] at hvector
      obtain ⟨v, hv⟩ := hvector
      rw [not_not] at hv
      have hmode := mode_of_calls hsafe hv henabled hcalls
      exact .inr ⟨hmode, count_of_calls hv henabled hmode hcalls⟩
  · rintro (hvector | hcontinues)
    · exact exists_call_of_no_vector hthere hsafe hvector
    · exact exists_call_of_continues hthere hsafe hcontinues

/-- A train of one pulse on the same channel. -/
def onePulse : PpmCall where
  chan := 8
  pulses := [1500]
  spacing := 400
  pos := by decide
  le := by decide

/-- After a train of two, a train of one is set up while three interrupts come between the
assignments of the buffer and of the count. -/
theorem ppmConfigure_shorter :
    ∃ s, boot.ppmProgram [.ppmConfigure twoPulses fun _ ↦ []] = some s ∧
      (s 2).dier &&& itUpdate ≠ 0 ∧
      s.ppmRun (onePulse.events (gapAt 6 (List.replicate 3 (.tim3, updateIrq)))) = none := by
  have hrun : ((boot.ppmProgram [.ppmConfigure twoPulses fun _ ↦ []]).map fun s ↦
      decide ((s 2).dier &&& itUpdate ≠ 0) &&
        (s.ppmRun (onePulse.events (gapAt 6 (List.replicate 3 (.tim3, updateIrq))))).isNone)
          = some true := by
    decide +kernel
  obtain ⟨s, hs, hboth⟩ := Option.map_eq_some_iff.mp hrun
  rw [Bool.and_eq_true, decide_eq_true_iff, Option.isNone_iff_eq_none] at hboth
  exact ⟨s, hs, hboth⟩

/-- The same train is set up again. -/
theorem ppmConfigure_safe_iff_again :
    ∃ s, boot.ppmProgram [.ppmConfigure twoPulses fun _ ↦ []] = some s ∧
      ((∀ gaps, ∃ s', s.ppmRun (twoPulses.events gaps) = some s') ↔
        (∀ v : TimVector, v.timer ≠ timId twoPulses.chan) ∨
          twoPulses.Continues (s.output (timId twoPulses.chan) (chanId twoPulses.chan))) := by
  obtain ⟨s, hrun, hdier⟩ : ∃ s, boot.ppmProgram [.ppmConfigure twoPulses fun _ ↦ []] = some s ∧
      (s 2).dier &&& itUpdate ≠ 0 := ⟨_, rfl, by decide⟩
  exact ⟨s, hrun, ppmConfigure_safe_iff hrun twoPulses hdier⟩

end Stm32Pwm

end Martink
