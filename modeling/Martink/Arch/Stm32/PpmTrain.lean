import Martink.Arch.Stm32.PpmCalls

/-!
# The pulses of a train

After a call of `ppm_configure` the update interrupts of the timer go through the buffer, again and
again: the `k`th finds the entry at `k` modulo the number of entries, whatever is written to the
buffer meanwhile and whatever other channels are set up. Its width goes to the compare register of
the channel and its period to the timer. The call does not mask the interrupt: updates that come
after its last assignment to the channel and before it returns count as well.

The timer has one period. The comment in `ppm_configure` says that a train disables the other
channels of the timer, but the statements that would do so are commented out, and of two trains on
one timer the one on the channel of the higher number decides about the period of both.
-/

namespace Martink

/-! ## The train as it should be -/

/-- An update interrupt of the timer. -/
def PpmEvent.IsUpdate (t : Fin 8) : PpmEvent → Prop
  | .pwm (.irq v i) => v.timer = t ∧ i.sr &&& itUpdate ≠ 0
  | _ => False

instance (t : Fin 8) : DecidablePred (PpmEvent.IsUpdate t)
  | .pwm (.irq v i) => inferInstanceAs (Decidable (v.timer = t ∧ i.sr &&& itUpdate ≠ 0))
  | .pwm (.configureCapture _ _) => .isFalse id
  | .statement _ _ => .isFalse id
  | .storePulse _ _ _ _ => .isFalse id

/-- A statement of a call of `ppm_configure` for the channel. -/
def PpmEvent.Assigns (t : Fin 8) (c : Fin 4) : PpmEvent → Prop
  | .statement call _ => timId call.chan = t ∧ chanId call.chan = c
  | _ => False

/-- The buffer of the channel after what its owner writes. -/
def PpmEvent.write (t : Fin 8) (c : Fin 4) (buffer : List (BitVec 16)) : PpmEvent → List (BitVec 16)
  | .storePulse t' c' i w => if t = t' ∧ c = c' then buffer.set i w else buffer
  | _ => buffer

/-- How many update interrupts of the timer there are. -/
def updateCount (t : Fin 8) (events : List PpmEvent) : ℕ := events.countP fun e ↦ e.IsUpdate t

/-- The buffer after some events. -/
def contents (t : Fin 8) (c : Fin 4) (pulses : List (BitVec 16)) (events : List PpmEvent) :
    List (BitVec 16) := events.foldl (PpmEvent.write t c) pulses

@[simp] theorem length_write (t : Fin 8) (c : Fin 4) (buffer : List (BitVec 16)) (e : PpmEvent) :
    (e.write t c buffer).length = buffer.length := by
  cases e with
  | storePulse t' c' i w =>
    rw [PpmEvent.write]
    split
    · exact List.length_set
    · rfl
  | _ => rfl

theorem contents_append (t : Fin 8) (c : Fin 4) (pulses : List (BitVec 16))
    (events : List PpmEvent) (e : PpmEvent) :
    contents t c pulses (events ++ [e]) = e.write t c (contents t c pulses events) := by
  rw [contents, List.foldl_append, List.foldl_cons, List.foldl_nil, ← contents]

theorem length_contents (t : Fin 8) (c : Fin 4) (pulses : List (BitVec 16))
    (events : List PpmEvent) : (contents t c pulses events).length = pulses.length := by
  induction events using List.reverseRecOn with
  | nil => rfl
  | append_singleton events e ih => rw [contents_append, length_write, ih]

theorem updateCount_append (t : Fin 8) (events : List PpmEvent) (e : PpmEvent) :
    updateCount t (events ++ [e]) = updateCount t events + if e.IsUpdate t then 1 else 0 := by
  rw [updateCount, List.countP_append, List.countP_singleton, ← updateCount]
  simp

theorem updateCount_cons {t : Fin 8} (e : PpmEvent) (events : List PpmEvent) :
    updateCount t (e :: events) = updateCount t events + if e.IsUpdate t then 1 else 0 := by
  rw [updateCount, List.countP_cons, ← updateCount]
  simp

theorem updateCount_append_list {t : Fin 8} (events events' : List PpmEvent) :
    updateCount t (events ++ events') = updateCount t events + updateCount t events' :=
  List.countP_append

/-! ## What the channel keeps -/

/-- The channel has sent `k` pulses of the buffer. -/
structure ChannelState.Train (spacing : BitVec 16) (buffer : List (BitVec 16)) (k : ℕ)
    (o : ChannelState) : Prop where
  /-- The channel sends. -/
  mode : o.mode = .ppmOutput
  /-- The spacing is that of the train. -/
  ppmSpacing : o.ppmSpacing = spacing
  /-- The buffer is that of the train. -/
  ppmBuffer : o.ppmBuffer = some buffer
  /-- There is an entry. -/
  pos : 0 < buffer.length
  /-- The count is that of the entries. -/
  count : o.ppmCount.toNat = buffer.length
  /-- The position is at most behind the last entry. -/
  le : o.ppmCurrent.toNat ≤ buffer.length
  /-- The position is that of the next entry, or behind the last one instead of at the first. -/
  current : o.ppmCurrent.toNat % buffer.length = k % buffer.length

namespace ChannelState

variable {o : ChannelState} {spacing : BitVec 16} {buffer : List (BitVec 16)} {k : ℕ}

/-- The position the handler reads. -/
theorem Train.toNat_turn (h : o.Train spacing buffer k) : o.turn.toNat = k % buffer.length := by
  rw [← h.current, ChannelState.turn]
  split
  · rename_i heq
    rw [heq, h.count, Nat.mod_self]
    rfl
  · rename_i hne
    have hne' : o.ppmCurrent.toNat ≠ buffer.length := fun heq ↦
      hne (BitVec.eq_of_toNat_eq (heq.trans h.count.symm))
    exact (Nat.mod_eq_of_lt (lt_of_le_of_ne h.le hne')).symm

theorem Train.width (h : o.Train spacing buffer k) :
    ∃ w, buffer[k % buffer.length]? = some w ∧ o.width = some w := by
  have hlt := Nat.mod_lt k h.pos
  refine ⟨buffer[k % buffer.length], List.getElem?_eq_getElem hlt, ?_⟩
  rw [ChannelState.width, h.ppmBuffer, Option.bind_some, h.toNat_turn]
  exact List.getElem?_eq_getElem hlt

theorem Train.advance (h : o.Train spacing buffer k) : o.advance.Train spacing buffer (k + 1) := by
  have hlt := Nat.mod_lt k h.pos
  have hcount := h.count
  have hstep := toNat_advance (o := o) (by
    rw [h.toNat_turn]
    have := o.ppmCount.isLt
    omega)
  rw [h.toNat_turn] at hstep
  refine ⟨h.mode, h.ppmSpacing, h.ppmBuffer, h.pos, h.count, ?_, ?_⟩
  · rw [hstep]
    exact hlt
  · rw [hstep, Nat.mod_add_mod]

theorem Train.storePulse (h : o.Train spacing buffer k) (i : ℕ) (w : BitVec 16) :
    (o.storePulse i w).Train spacing (buffer.set i w) k := by
  refine ⟨h.mode, h.ppmSpacing, ?_, ?_, ?_, ?_, ?_⟩
  · rw [ChannelState.storePulse, h.ppmBuffer]
    rfl
  all_goals rw [List.length_set]
  exacts [h.pos, h.count, h.le, h.current]

end ChannelState

namespace Stm32Pwm

variable {s s' : Stm32Pwm} {t : Fin 8} {c : Fin 4} {spacing : BitVec 16} {buffer : List (BitVec 16)}
  {k : ℕ}

/-- The update interrupt is enabled and the channel has sent `k` pulses. -/
structure Sending (t : Fin 8) (c : Fin 4) (spacing : BitVec 16) (buffer : List (BitVec 16)) (k : ℕ)
    (s : Stm32Pwm) : Prop where
  /-- The update interrupt is enabled. -/
  enabled : (s t).dier &&& itUpdate ≠ 0
  /-- The channel has sent `k` pulses. -/
  train : (s.output t c).Train spacing buffer k

theorem train_irq (h : (s.output t c).Train spacing buffer k) {v : TimVector} {i : TimIrq}
    (hnext : s.next (.irq v i) = some s') :
    (s'.output t c).Train spacing buffer
      (k + if v.timer = t ∧ (s t).Updates i then 1 else 0) := by
  have hirq := output_irq hnext t c
  have hsends : v.timer = t ∧ (s t).Updates i ∧ (s t).Sends c ↔ v.timer = t ∧ (s t).Updates i :=
    ⟨fun hu ↦ ⟨hu.1, hu.2.1⟩, fun hu ↦ ⟨hu.1, hu.2, h.mode⟩⟩
  rw [if_congr hsends rfl rfl] at hirq
  by_cases hupdates : v.timer = t ∧ (s t).Updates i
  · rw [if_pos hupdates] at hirq ⊢
    rw [hirq.2]
    exact h.advance
  · rw [if_neg hupdates] at hirq ⊢
    rw [hirq]
    exact h

theorem Sending.irq (h : Sending t c spacing buffer k s) {v : TimVector} {i : TimIrq}
    (hnext : s.next (.irq v i) = some s') :
    Sending t c spacing buffer
      (k + if PpmEvent.IsUpdate t (.pwm (.irq v i)) then 1 else 0) s' := by
  refine ⟨by rw [dier_irq hnext]; exact h.enabled, ?_⟩
  have hupdate : PpmEvent.IsUpdate t (.pwm (.irq v i)) ↔ v.timer = t ∧ (s t).Updates i :=
    ⟨fun hu ↦ ⟨hu.1, hu.2, h.enabled⟩, fun hu ↦ ⟨hu.1, hu.2.1⟩⟩
  rw [if_congr hupdate rfl rfl]
  exact train_irq h.train hnext

/-- **One event.** -/
theorem Sending.ppmNext (h : Sending t c spacing buffer k s) {e : PpmEvent}
    (he : ¬e.Assigns t c) (hnext : s.ppmNext e = some s') :
    Sending t c spacing (e.write t c buffer) (k + if e.IsUpdate t then 1 else 0) s' := by
  cases e with
  | pwm e =>
    cases e with
    | irq v i => exact h.irq hnext
    | configureCapture chan defValue =>
      obtain rfl := Option.some_inj.mp hnext
      refine ⟨?_, by rw [output_configureCapture]; exact h.train⟩
      rw [pwmConfigureCapture]
      split
      · exact h.enabled
      · exact (steps_update (PwmTimer.steps_configureCapture _ _ _) t).dier _ h.enabled
  | statement call j =>
    rw [Stm32Pwm.ppmNext] at hnext
    split at hnext
    · obtain rfl := Option.some_inj.mp hnext
      refine ⟨?_, ?_⟩
      · by_cases ht : t = timId call.chan
        · rw [ht, Function.update_self]
          exact call.dier_statement j (ht ▸ h.enabled)
        · rw [Function.update_of_ne ht]
          exact h.enabled
      · have hother : ¬(t = timId call.chan ∧ c = chanId call.chan) := fun hown ↦
          he ⟨hown.1.symm, hown.2.symm⟩
        rw [(output_statement s call j t c).trans (if_neg hother)]
        exact h.train
    · exact absurd hnext (by simp)
  | storePulse t' c' i w =>
    obtain rfl := Option.some_inj.mp hnext
    refine ⟨?_, ?_⟩
    · by_cases ht : t = t'
      · rw [ht, Function.update_self]
        exact ht ▸ h.enabled
      · rw [Function.update_of_ne ht]
        exact h.enabled
    · rw [output_storePulse, PpmEvent.write]
      split
      · exact h.train.storePulse i w
      · exact h.train

/-- **Runs.** -/
theorem Sending.ppmRun (h : Sending t c spacing buffer k s) {events : List PpmEvent}
    (hevents : ∀ e ∈ events, ¬e.Assigns t c) (hrun : s.ppmRun events = some s') :
    Sending t c spacing (contents t c buffer events) (k + updateCount t events) s' := by
  induction events using List.reverseRecOn generalizing s' with
  | nil =>
    obtain rfl := Option.some_inj.mp hrun
    exact h
  | append_singleton events e ih =>
    obtain ⟨u, hu, hnext⟩ := foldlM_concat_eq_some_iff.mp hrun
    have hsending := ih (fun e' he' ↦ hevents e' (List.mem_append_left _ he')) hu
    rw [contents_append, updateCount_append, ← Nat.add_assoc]
    exact hsending.ppmNext (hevents e (by simp)) hnext

theorem enabled_of_call {call : PpmCall} {gaps : Fin 10 → Gap}
    (hrun : s.ppmRun (call.events gaps) = some s') :
    (s' (timId call.chan)).dier &&& itUpdate ≠ 0 := by
  refine foldlM_stages (P := fun k s ↦ 9 < k → (s (timId call.chan)).dier &&& itUpdate ≠ 0)
    (fun k u u' _ hrun hk ↦ ?_) (by simp) hrun (by decide)
  obtain ⟨u₁, -, rfl⟩ := ppmRun_stage hrun
  obtain rfl : k = 9 := by omega
  rw [Function.update_self]
  change ((u₁ (timId call.chan)).dier ||| itUpdate) &&& itUpdate ≠ 0
  rw [BitVec.and_or_distrib_right]
  exact fun hzero ↦ absurd (BitVec.or_eq_zero_iff.mp hzero).2 (by decide)

end Stm32Pwm

/-! ## The end of a call -/

/-- The update interrupts that are served between the last assignment to the channel and the end of
the call: none, if the call is the first to enable them. -/
def PpmCall.served (call : PpmCall) (gaps : Fin 10 → Gap) (s : Stm32Pwm) : ℕ :=
  if (s (timId call.chan)).dier &&& itUpdate ≠ 0 then
    updateCount (timId call.chan) ((gaps 8).events ++ (gaps 9).events)
  else 0

/-- Only the last statement enables the update interrupt. -/
theorem PpmCall.update_statement (call : PpmCall) {k : Fin 10} (hk : k ≠ 9) (t : PwmTimer) :
    (call.statement k t).dier &&& itUpdate = t.dier &&& itUpdate := by
  match k with
  | 0 | 1 | 2 | 3 | 4 | 5 | 6 | 7 => rfl
  | 8 =>
    have hflag : intIds (chanId call.chan) &&& itUpdate = 0 := by
      generalize chanId call.chan = c
      revert c
      decide
    change (t.dier ||| intIds (chanId call.chan)) &&& itUpdate = t.dier &&& itUpdate
    rw [BitVec.and_or_distrib_right, hflag]
    exact BitVec.or_zero
  | 9 => exact absurd rfl hk

/-- The call up to its last assignment, and the two statements after it. -/
theorem PpmCall.events_eq (call : PpmCall) (gaps : Fin 10 → Gap) :
    call.events gaps =
      ((List.finRange 8).flatMap fun k ↦
        (gaps (k.castAdd 2)).events ++ [.statement call (k.castAdd 2)]) ++
      ((gaps 8).events ++ [.statement call 8]) ++ ((gaps 9).events ++ [.statement call 9]) := by
  rw [PpmCall.events, List.finRange_succ_last, List.finRange_succ_last]
  simp only [List.map_append, List.map_map, List.map_cons, List.map_nil, List.flatMap_append,
    List.flatMap_map, List.flatMap_cons, List.flatMap_nil, List.append_nil]
  rfl

namespace Stm32Pwm

variable {s s' : Stm32Pwm} {t : Fin 8} {c : Fin 4} {spacing : BitVec 16} {buffer : List (BitVec 16)}
  {k : ℕ} {call : PpmCall} {gaps : Fin 10 → Gap}

/-- **The interrupts before a statement.** Those of the timer count when they are enabled. -/
theorem train_gap {gap : Gap} (h : (s.output t c).Train spacing buffer k)
    (hrun : s.ppmRun gap.events = some s') :
    (s'.output t c).Train spacing buffer
      (k + if (s t).dier &&& itUpdate ≠ 0 then updateCount t gap.events else 0) := by
  induction gap generalizing s k with
  | nil =>
    obtain rfl := Option.some_inj.mp hrun
    simpa [updateCount, Gap.events] using h
  | cons vi gap ih =>
    obtain ⟨u, hnext, hrun⟩ := foldlM_cons_eq_some_iff.mp hrun
    have htrain := ih (train_irq h hnext) hrun
    rw [dier_irq hnext t, Nat.add_assoc] at htrain
    have hcount : updateCount t (Gap.events (vi :: gap)) =
        updateCount t (Gap.events gap) +
          if PpmEvent.IsUpdate t (.pwm (.irq vi.1 vi.2)) then 1 else 0 := updateCount_cons _ _
    by_cases henabled : (s t).dier &&& itUpdate ≠ 0
    · have hupdate : PpmEvent.IsUpdate t (.pwm (.irq vi.1 vi.2)) ↔
          vi.1.timer = t ∧ (s t).Updates vi.2 :=
        ⟨fun hu ↦ ⟨hu.1, hu.2, henabled⟩, fun hu ↦ ⟨hu.1, hu.2.1⟩⟩
      rw [if_pos henabled, Nat.add_comm (ite _ _ _)] at htrain
      rw [if_pos henabled, hcount, if_congr hupdate rfl rfl]
      exact htrain
    · rw [if_neg henabled, if_neg fun hu ↦ henabled hu.2.2] at htrain
      rw [if_neg henabled]
      exact htrain

theorem dier_gap {gap : Gap} (hrun : s.ppmRun gap.events = some s') (t : Fin 8) :
    (s' t).dier = (s t).dier :=
  ppmRun_gap (P := fun u ↦ (u t).dier = (s t).dier)
    (fun _ _ _ _ hu hnext ↦ (dier_irq hnext t).trans hu) rfl hrun

theorem update_stage {gap : Gap} {j : Fin 10} (hj : j ≠ 9)
    (hrun : s.ppmRun (gap.events ++ [.statement call j]) = some s') :
    (s' (timId call.chan)).dier &&& itUpdate = (s (timId call.chan)).dier &&& itUpdate := by
  obtain ⟨u, hgap, rfl⟩ := ppmRun_stage hrun
  rw [Function.update_self, call.update_statement hj, dier_gap hgap]

/-- The two statements after the last assignment to the channel. -/
theorem train_stage {gap : Gap} {j : Fin 10} (hj : 7 < j)
    (h : (s.output (timId call.chan) (chanId call.chan)).Train spacing buffer k)
    (hrun : s.ppmRun (gap.events ++ [.statement call j]) = some s') :
    (s'.output (timId call.chan) (chanId call.chan)).Train spacing buffer
      (k + if (s (timId call.chan)).dier &&& itUpdate ≠ 0 then
        updateCount (timId call.chan) gap.events else 0) := by
  obtain ⟨u, hgap, rfl⟩ := ppmRun_stage hrun
  have hassign : call.assign j = id := by
    match j with
    | 8 | 9 => rfl
  have houtput := (output_statement u call j (timId call.chan) (chanId call.chan)).trans
    (if_pos ⟨rfl, rfl⟩)
  rw [houtput, hassign]
  exact train_gap h hgap

/-- The last assignment to the channel sets the position to the start. -/
theorem train_of_assigned
    (hrun : s.ppmRun ((List.finRange 8).flatMap fun k ↦
      (gaps (k.castAdd 2)).events ++ [.statement call (k.castAdd 2)]) = some s') :
    (s'.output (timId call.chan) (chanId call.chan)).Train call.spacing call.pulses 0
      ∧ (s' (timId call.chan)).dier &&& itUpdate = (s (timId call.chan)).dier &&& itUpdate := by
  have hstage : call.Stage 0 8 (s'.output (timId call.chan) (chanId call.chan)) :=
    foldlM_stages (P := fun k u ↦ call.Stage 0 k (u.output (timId call.chan) (chanId call.chan)))
      (fun k _ _ hu hrun ↦ stage_succ (k := k.castAdd 2) hrun
        (fun hk ↦ absurd hk (Nat.not_lt.mpr (Nat.le_of_lt_succ k.isLt))) hu)
      (call.stage_zero 0 _) hrun
  have hcurrent := Nat.le_zero.mp (hstage.current (by decide))
  refine ⟨⟨hstage.mode (by decide), hstage.spacing (by decide), hstage.buffer (by decide),
    call.pos, ?_, ?_, ?_⟩, ?_⟩
  · rw [hstage.count (by decide), call.toNat_npulse]
  · exact hcurrent.le.trans (Nat.zero_le _)
  · rw [hcurrent]
  · refine foldlM_stages (P := fun _ u ↦
      (u (timId call.chan)).dier &&& itUpdate = (s (timId call.chan)).dier &&& itUpdate)
      (fun k u u' hu hrun ↦ (update_stage ?_ hrun).trans hu) rfl hrun
    exact Fin.ne_of_lt (Nat.lt_succ_of_lt k.isLt)

/-- **A call.** The update interrupts that are served after its last assignment to the channel have
used up the first entries. -/
theorem sending_of_call (hrun : s.ppmRun (call.events gaps) = some s') :
    Sending (timId call.chan) (chanId call.chan) call.spacing call.pulses (call.served gaps s)
      s' := by
  refine ⟨enabled_of_call hrun, ?_⟩
  rw [call.events_eq] at hrun
  obtain ⟨u₉, hrun, hlast⟩ := foldlM_append_eq_some_iff.mp hrun
  obtain ⟨u₈, hassigned, hrun⟩ := foldlM_append_eq_some_iff.mp hrun
  obtain ⟨htrain, henabled⟩ := train_of_assigned hassigned
  have hend := train_stage (by decide) (train_stage (by decide) htrain hrun) hlast
  rw [update_stage (by decide) hrun, henabled] at hend
  rw [PpmCall.served, updateCount_append_list]
  by_cases hs : (s (timId call.chan)).dier &&& itUpdate ≠ 0
  · simpa only [if_pos hs, Nat.zero_add] using hend
  · simpa only [if_neg hs, Nat.zero_add] using hend

end Stm32Pwm

/-! ## One update -/

namespace PwmTimer

variable {t t' : PwmTimer} {c : Fin 4} {w : BitVec 16}

/-- The update programs the pulse on the channel and leaves its capture state alone. -/
structure Programs (t t' : PwmTimer) (c : Fin 4) (spacing w : BitVec 16) : Prop where
  /-- The period is the pulse. -/
  arr : t'.arr = w
  /-- The compare comes the spacing before its end. -/
  ccr : (t'.chan c).ccr = w - spacing
  /-- The state of the capture is left alone. -/
  input : (t'.chan c).input = (t.chan c).input
  /-- So is its configuration. -/
  ic : (t'.chan c).ic = (t.chan c).ic

/-- If channels of a higher number send trains, the last of them has the same width next. -/
def Leads (t : PwmTimer) (c : Fin 4) (w : BitVec 16) : Prop :=
  ∀ d, c < d → t.Sends d → (∀ e, d < e → ¬t.Sends e) → (t.chan d).output.width = some w

/-- The last sender of a timer. -/
theorem exists_last_sender (hc : t.Sends c) :
    ∃ d, c ≤ d ∧ t.Sends d ∧ ∀ e, d < e → ¬t.Sends e := by
  have hmem {d : Fin 4} : d ∈ Finset.univ.filter (fun d ↦ t.Sends d) ↔ t.Sends d := by simp
  have hne : (Finset.univ.filter fun d ↦ t.Sends d).Nonempty := ⟨c, hmem.mpr hc⟩
  refine ⟨_, Finset.le_max' _ c (hmem.mpr hc), hmem.mp (Finset.max'_mem _ hne),
    fun e he hsends ↦ ?_⟩
  exact absurd (Finset.le_max' _ e (hmem.mpr hsends)) (not_le.mpr he)

theorem Handled.arr_iff {i : TimIrq} (h : Handled i t t') (hupdates : t.Updates i)
    (hc : t.Sends c) (hw : (t.chan c).output.width = some w) : t'.arr = w ↔ t.Leads c w := by
  constructor
  · rintro rfl d - hd hlast
    exact h.arr hupdates d hd hlast
  · intro hleads
    obtain ⟨d, hle, hd, hlast⟩ := exists_last_sender hc
    have harr := h.arr hupdates d hd hlast
    rcases hle.lt_or_eq with hlt | rfl
    · exact Option.some_inj.mp (harr.symm.trans (hleads d hlt hd hlast))
    · exact Option.some_inj.mp (harr.symm.trans hw)

end PwmTimer

namespace Stm32Pwm

section Updates

variable {s s' : Stm32Pwm} {t : Fin 8} {c : Fin 4} {spacing : BitVec 16} {buffer : List (BitVec 16)}
  {k : ℕ} {v : TimVector} {i : TimIrq} {x : BitVec 16}

/-- The handler gets through an update exactly if the other trains of the timer have a pulse to
send. -/
theorem Sending.exists_ppmNext_iff (h : Sending t c spacing buffer k s)
    (hi : PpmEvent.IsUpdate t (.pwm (.irq v i))) :
    (∃ s', s.ppmNext (.pwm (.irq v i)) = some s') ↔
      ∀ d ≠ c, (s t).Sends d → ∃ w, (s.output t d).width = some w := by
  obtain ⟨rfl, hflag⟩ := hi
  constructor
  · rintro ⟨s', hnext⟩ d - hd
    obtain ⟨u, hu, -⟩ := Option.map_eq_some_iff.mp hnext
    have hhandled := PwmTimer.handled_of_timIrqHandler hu
    obtain ⟨w, hw, -⟩ := hhandled.sends ⟨hflag, h.enabled⟩ d hd
    exact ⟨w, hw⟩
  · intro hothers
    obtain ⟨u, hu⟩ := PwmTimer.exists_timIrqHandler (t := s v.timer) (i := i) fun _ d hd ↦ by
      by_cases hown : d = c
      · obtain ⟨w, -, hw⟩ := h.train.width
        exact ⟨w, hown ▸ hw⟩
      · exact hothers d hown hd
    exact ⟨Function.update s v.timer u, by rw [Stm32Pwm.ppmNext, Stm32Pwm.next, hu]; rfl⟩

/-- An update programs the entry `x` whose turn it is, unless another channel spoils the period. -/
theorem Sending.programs_iff (h : Sending t c spacing buffer k s)
    (hi : PpmEvent.IsUpdate t (.pwm (.irq v i))) (hx : buffer[k % buffer.length]? = some x)
    (hnext : s.ppmNext (.pwm (.irq v i)) = some s') (w : BitVec 16) :
    (s t).Programs (s' t) c spacing w ↔ x = w ∧ (s t).Leads c w := by
  obtain ⟨rfl, hflag⟩ := hi
  obtain ⟨u, hu, rfl⟩ := Option.map_eq_some_iff.mp hnext
  rw [Function.update_self]
  have hhandled := PwmTimer.handled_of_timIrqHandler hu
  have hupdates : (s v.timer).Updates i := ⟨hflag, h.enabled⟩
  obtain ⟨w', hw', hchan⟩ := hhandled.sends hupdates c h.train.mode
  obtain ⟨y, hy, hwidth⟩ := h.train.width
  obtain rfl := Option.some_inj.mp (hx.symm.trans hy)
  obtain rfl := Option.some_inj.mp (hwidth.symm.trans hw')
  have hccr : (u.chan c).ccr = x - spacing := by
    rw [hchan]
    exact congrArg (x - ·) h.train.ppmSpacing
  -- the period is the only thing that another channel can spoil
  have harr := hhandled.arr_iff hupdates h.train.mode hwidth
  constructor
  · intro hprograms
    obtain rfl : x = w := (BitVec.sub_left_inj spacing).mp (hccr.symm.trans hprograms.ccr)
    exact ⟨rfl, harr.mp hprograms.arr⟩
  · rintro ⟨rfl, hleads⟩
    refine ⟨harr.mpr hleads, hccr, ?_, ?_⟩
    all_goals rw [hchan]; rfl

end Updates

variable {s₀ s₁ s : Stm32Pwm} {call : PpmCall} {gaps : Fin 10 → Gap} {post : List PpmEvent}

/-- **The pulses of a train.** After a call, the update interrupt number `k` finds the entry `x`
whose turn it is; the updates that were served before the call came to its end count as well. The
handler gets through exactly if the other trains of the timer have a pulse to send, and programs
entry `k` exactly if that is the same as `x` and no train on a channel of a higher number has
another width then. -/
theorem ppm_programs_iff (hcall : s₀.ppmRun (call.events gaps) = some s₁)
    (hpost : ∀ e ∈ post, ¬e.Assigns (timId call.chan) (chanId call.chan))
    (hrun : s₁.ppmRun post = some s) {v : TimVector} {i : TimIrq}
    (hi : PpmEvent.IsUpdate (timId call.chan) (.pwm (.irq v i))) :
    ∃ w x, (contents (timId call.chan) (chanId call.chan) call.pulses post)[
        updateCount (timId call.chan) post % call.pulses.length]? = some w
      ∧ (contents (timId call.chan) (chanId call.chan) call.pulses post)[
        (call.served gaps s₀ + updateCount (timId call.chan) post) % call.pulses.length]? = some x
      ∧ ((∃ s', s.ppmNext (.pwm (.irq v i)) = some s') ↔
        ∀ d ≠ chanId call.chan, (s (timId call.chan)).Sends d →
          ∃ y, (s.output (timId call.chan) d).width = some y)
      ∧ ∀ s', s.ppmNext (.pwm (.irq v i)) = some s' →
        ((s (timId call.chan)).Programs (s' (timId call.chan)) (chanId call.chan) call.spacing w ↔
          x = w ∧ (s (timId call.chan)).Leads (chanId call.chan) w) := by
  have hsending := (sending_of_call hcall).ppmRun hpost hrun
  obtain ⟨x, hx, -⟩ := hsending.train.width
  have hlength := length_contents (timId call.chan) (chanId call.chan) call.pulses post
  obtain ⟨w, hw⟩ : ∃ w, (contents (timId call.chan) (chanId call.chan) call.pulses post)[
      updateCount (timId call.chan) post % call.pulses.length]? = some w :=
    ⟨_, List.getElem?_eq_getElem (by rw [hlength]; exact Nat.mod_lt _ call.pos)⟩
  exact ⟨w, x, hw, hlength ▸ hx, hsending.exists_ppmNext_iff hi,
    fun s' hnext ↦ hsending.programs_iff hi hx hnext w⟩

/-- A train on the second channel of the third timer. -/
def secondTrain : PpmCall where
  chan := 9
  pulses := [2000]
  spacing := 400
  pos := by decide
  le := by decide

/-- The fourth update, of a train of two pulses. -/
theorem ppm_programs_iff_fourth :
    ∃ s₁ s, boot.ppmRun (twoPulses.events fun _ ↦ []) = some s₁
      ∧ s₁.ppmRun (List.replicate 3 (.pwm (.irq .tim3 updateIrq))) = some s
      ∧ ∃ w x, (contents (timId twoPulses.chan) (chanId twoPulses.chan) twoPulses.pulses
          (List.replicate 3 (.pwm (.irq .tim3 updateIrq))))[
            updateCount (timId twoPulses.chan) (List.replicate 3 (.pwm (.irq .tim3 updateIrq)))
              % twoPulses.pulses.length]? = some w
        ∧ (contents (timId twoPulses.chan) (chanId twoPulses.chan) twoPulses.pulses
          (List.replicate 3 (.pwm (.irq .tim3 updateIrq))))[
            (twoPulses.served (fun _ ↦ []) boot +
              updateCount (timId twoPulses.chan) (List.replicate 3 (.pwm (.irq .tim3 updateIrq))))
              % twoPulses.pulses.length]? = some x
        ∧ ((∃ s', s.ppmNext (.pwm (.irq .tim3 updateIrq)) = some s') ↔
          ∀ d ≠ chanId twoPulses.chan, (s (timId twoPulses.chan)).Sends d →
            ∃ y, (s.output (timId twoPulses.chan) d).width = some y)
        ∧ ∀ s', s.ppmNext (.pwm (.irq .tim3 updateIrq)) = some s' →
          ((s (timId twoPulses.chan)).Programs (s' (timId twoPulses.chan))
              (chanId twoPulses.chan) twoPulses.spacing w ↔
            x = w ∧ (s (timId twoPulses.chan)).Leads (chanId twoPulses.chan) w) := by
  obtain ⟨s₁, hcall⟩ : ∃ s₁, boot.ppmRun (twoPulses.events fun _ ↦ []) = some s₁ := ⟨_, rfl⟩
  obtain ⟨s, hrun⟩ : ∃ s, s₁.ppmRun (List.replicate 3 (.pwm (.irq .tim3 updateIrq))) = some s := by
    obtain rfl := Option.some_inj.mp hcall
    exact ⟨_, rfl⟩
  refine ⟨s₁, s, hcall, hrun, ppm_programs_iff hcall ?_ hrun ⟨rfl, by decide⟩⟩
  intro e he
  rw [List.eq_of_mem_replicate he]
  exact id

/-- With two trains on one timer, the first update leaves the timer with the period of the second
train. -/
theorem ppm_programs_two :
    ∃ s s', boot.ppmProgram [.ppmConfigure twoPulses fun _ ↦ [],
      .ppmConfigure secondTrain fun _ ↦ []]
        = some s
      ∧ s.ppmNext (.pwm (.irq .tim3 updateIrq)) = some s' ∧ (s' 2).arr = 2000
      ∧ ¬(s 2).Programs (s' 2) 0 400 1500 := by
  have hperiod : ((boot.ppmProgram [.ppmConfigure twoPulses fun _ ↦ [],
      .ppmConfigure secondTrain fun _ ↦ []]).bind fun s ↦
        (s.ppmNext (.pwm (.irq .tim3 updateIrq))).map fun s' ↦ (s' 2).arr) = some 2000 := by
    decide +kernel
  obtain ⟨s, hs, hnext⟩ := Option.bind_eq_some_iff.mp hperiod
  obtain ⟨s', hs', harr⟩ := Option.map_eq_some_iff.mp hnext
  refine ⟨s, s', hs, hs', harr, fun hprograms ↦ ?_⟩
  exact absurd (harr.symm.trans hprograms.arr) (by decide)

end Stm32Pwm

end Martink
