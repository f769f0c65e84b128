import Martink.Arch.Stm32.Ppm

/-!
# Calls that set up pulse trains

Only the outputs of the channels matter to the handler when it sends a train. An interrupt advances
them, a statement of `ppm_configure` assigns to one field of one of them. A train is safe when its
count is within the array and its position within the count. Whatever happens during a call, a call
that gets to its end leaves a safe train behind.
-/

namespace Martink

/-! ## What a step does to the outputs -/

/-- What a statement assigns to its channel. -/
def PpmCall.assign (call : PpmCall) : Fin 10 → ChannelState → ChannelState :=
  ![id, id, id,
    fun o ↦ { o with mode := .ppmOutput },
    fun o ↦ { o with ppmSpacing := call.spacing },
    fun o ↦ { o with ppmBuffer := some call.pulses },
    fun o ↦ { o with ppmCount := call.npulse },
    fun o ↦ { o with ppmCurrent := 0 },
    id, id]

theorem PwmTimer.output_onChan (c d : Fin 4) {f : PwmChan → PwmChan}
    {g : ChannelState → ChannelState} (hfg : ∀ ch, (f ch).output = g ch.output) (t : PwmTimer) :
    ((t.onChan c f).chan d).output = if d = c then g (t.chan d).output else (t.chan d).output := by
  change (Function.update t.chan c (f (t.chan c)) d).output = _
  by_cases hd : d = c
  · rw [if_pos hd, hd, Function.update_self, hfg]
  · rw [if_neg hd, Function.update_of_ne hd]

theorem PpmCall.output_statement (call : PpmCall) (k : Fin 10) (t : PwmTimer) (d : Fin 4) :
    ((call.statement k t).chan d).output =
      if d = chanId call.chan then call.assign k (t.chan d).output else (t.chan d).output := by
  have hother : (t.chan d).output = ite (d = chanId call.chan) (t.chan d).output
      (t.chan d).output :=
    (ite_self _).symm
  have hassign (g : ChannelState → ChannelState) := PwmTimer.output_onChan (chanId call.chan) d
    (f := fun ch ↦ { ch with output := g ch.output }) (g := g) (fun _ ↦ rfl) t
  match k with
  | 0 | 8 | 9 => exact hother
  | 1 =>
    exact PwmTimer.output_onChan (chanId call.chan) d (g := id)
      (f := fun ch ↦
        { ch with
          ccr := 19600
          ic := ⟨.rising, 0x0000, ch.ic.prescaler, (ch.ic.filter &&& 0x8) ||| 0x6⟩ })
      (fun _ ↦ rfl) t
  | 2 =>
    exact PwmTimer.output_onChan (chanId call.chan) d (g := id)
      (f := fun ch ↦ { ch with ccr := 19600 }) (fun _ ↦ rfl) t
  | 3 => exact hassign (call.assign 3)
  | 4 => exact hassign (call.assign 4)
  | 5 => exact hassign (call.assign 5)
  | 6 => exact hassign (call.assign 6)
  | 7 => exact hassign (call.assign 7)

/-- No statement disables an interrupt. -/
theorem PpmCall.dier_statement (call : PpmCall) (k : Fin 10) {t : PwmTimer} {it : BitVec 16}
    (h : t.dier &&& it ≠ 0) : (call.statement k t).dier &&& it ≠ 0 := by
  have hor (flag : BitVec 16) : (t.dier ||| flag) &&& it ≠ 0 := by
    rw [BitVec.and_or_distrib_right]
    exact fun hzero ↦ h (BitVec.or_eq_zero_iff.mp hzero).1
  match k with
  | 0 | 1 | 2 | 3 | 4 | 5 | 6 | 7 => exact h
  | 8 => exact hor _
  | 9 => exact hor _

namespace Stm32Pwm

variable {s s' : Stm32Pwm}

def output (s : Stm32Pwm) (t : Fin 8) (c : Fin 4) : ChannelState := ((s t).chan c).output

theorem output_update (s : Stm32Pwm) (t' : Fin 8) (u : PwmTimer) (t : Fin 8) (c : Fin 4) :
    output (Function.update s t' u) t c = if t = t' then (u.chan c).output else s.output t c := by
  by_cases ht : t = t'
  · rw [if_pos ht, output, ht, Function.update_self]
  · rw [if_neg ht, output, Function.update_of_ne ht, output]

/-- **An interrupt.** A channel is left alone or advances by a pulse that it has. -/
theorem output_irq {v : TimVector} {i : TimIrq} (h : s.next (.irq v i) = some s') (t : Fin 8)
    (c : Fin 4) :
    if v.timer = t ∧ (s t).Updates i ∧ (s t).Sends c then
      (∃ w, (s.output t c).width = some w) ∧ s'.output t c = (s.output t c).advance
    else s'.output t c = s.output t c := by
  obtain ⟨u, hu, rfl⟩ := Option.map_eq_some_iff.mp h
  have hhandled := PwmTimer.handled_of_timIrqHandler hu
  rw [output_update]
  split
  · rename_i hsends
    obtain ⟨rfl, hupdates, hc⟩ := hsends
    obtain ⟨w, hw, hchan⟩ := hhandled.sends hupdates c hc
    rw [if_pos rfl, hchan]
    exact ⟨⟨w, hw⟩, rfl⟩
  · rename_i hrest
    split
    · rename_i ht
      subst ht
      by_cases hc : (s v.timer).Sends c
      · rw [hhandled.rest (fun hupdates ↦ hrest ⟨rfl, hupdates, hc⟩) c hc]
        rfl
      · exact hhandled.idle c hc
    · rfl

theorem output_configureCapture (s : Stm32Pwm) (chan : BitVec 8) (defValue : BitVec 32) (t : Fin 8)
    (c : Fin 4) : (pwmConfigureCapture s chan defValue).output t c = s.output t c := by
  rw [pwmConfigureCapture]
  split
  · rfl
  · rw [output_update]
    split
    · rename_i ht
      rw [ht]
      exact ((PwmTimer.steps_configureCapture _ _ _).chan c).output
    · rfl

theorem output_statement (s : Stm32Pwm) (call : PpmCall) (k : Fin 10) (t : Fin 8) (c : Fin 4) :
    output (Function.update s (timId call.chan) (call.statement k (s (timId call.chan)))) t c =
      if t = timId call.chan ∧ c = chanId call.chan then call.assign k (s.output t c)
      else s.output t c := by
  rw [output_update]
  by_cases ht : t = timId call.chan
  · rw [if_pos ht, call.output_statement, ht, output]
    exact if_congr (by simp) rfl rfl
  · rw [if_neg ht, if_neg fun h ↦ ht h.1]

end Stm32Pwm

/-! ## Trains that can be sent -/

namespace ChannelState

variable {o : ChannelState}

/-- A train that the handler can send to its end, however often it is called. A channel that sends
no train has no buffer. -/
structure Safe (o : ChannelState) : Prop where
  /-- A sender has a buffer, a count within it and a position within the count. -/
  sends : o.mode = .ppmOutput → ∃ buffer, o.ppmBuffer = some buffer ∧ 0 < o.ppmCount.toNat ∧
    o.ppmCount.toNat ≤ buffer.length ∧ o.ppmCurrent.toNat ≤ o.ppmCount.toNat
  /-- A channel that sends nothing has no buffer. -/
  idle : o.mode ≠ .ppmOutput → o.ppmBuffer = none

theorem toNat_turn_lt (hpos : 0 < o.ppmCount.toNat)
    (hcurrent : o.ppmCurrent.toNat ≤ o.ppmCount.toNat) : o.turn.toNat < o.ppmCount.toNat := by
  rw [turn]
  split
  · exact hpos
  · rename_i hne
    have : o.ppmCurrent.toNat ≠ o.ppmCount.toNat := fun heq ↦ hne (BitVec.eq_of_toNat_eq heq)
    omega

theorem toNat_advance (h : o.turn.toNat < 255) :
    o.advance.ppmCurrent.toNat = o.turn.toNat + 1 := by
  change (o.turn + 1).toNat = _
  rw [BitVec.toNat_add]
  exact Nat.mod_eq_of_lt (by change o.turn.toNat + 1 < _; omega)

theorem Safe.width (h : o.Safe) (hmode : o.mode = .ppmOutput) : ∃ w, o.width = some w := by
  obtain ⟨buffer, hbuffer, hpos, hle, hcurrent⟩ := h.sends hmode
  have hlt := (toNat_turn_lt hpos hcurrent).trans_le hle
  exact ⟨buffer[o.turn.toNat], by rw [ChannelState.width, hbuffer, Option.bind_some,
    List.getElem?_eq_getElem hlt]⟩

theorem Safe.advance (h : o.Safe) (hmode : o.mode = .ppmOutput) : o.advance.Safe := by
  obtain ⟨buffer, hbuffer, hpos, hle, hcurrent⟩ := h.sends hmode
  have hlt := toNat_turn_lt hpos hcurrent
  refine ⟨fun _ ↦ ⟨buffer, hbuffer, hpos, hle, ?_⟩, fun hother ↦ absurd hmode hother⟩
  rw [toNat_advance (by have := o.ppmCount.isLt; omega)]
  exact hlt

end ChannelState

namespace Stm32Pwm

variable {s s' : Stm32Pwm}

/-- No channel of any timer makes the handler read outside its buffer. -/
def Safe (s : Stm32Pwm) : Prop := ∀ t c, (s.output t c).Safe

theorem safe_boot : Safe boot := fun _ _ ↦
  ⟨fun hmode ↦ ChannelMode.noConfusion hmode, fun _ ↦ rfl⟩

/-- A property of the output of a channel that its pulses keep is kept by an interrupt. -/
theorem keeps_irq {p : ChannelState → Prop} {v : TimVector} {i : TimIrq}
    (h : s.next (.irq v i) = some s') {t : Fin 8} {c : Fin 4} (hp : p (s.output t c))
    (hadvance : v.timer = t → (s t).Sends c → p (s.output t c).advance) : p (s'.output t c) := by
  have hirq := output_irq h t c
  split at hirq
  · rename_i hsends
    rw [hirq.2]
    exact hadvance hsends.1 hsends.2.2
  · rw [hirq]
    exact hp

theorem Safe.irq (h : s.Safe) (v : TimVector) (i : TimIrq) :
    ∃ s', s.next (.irq v i) = some s' ∧ s'.Safe := by
  obtain ⟨u, hu⟩ := PwmTimer.exists_timIrqHandler (t := s v.timer) (i := i) fun _ c hc ↦
    (h v.timer c).width hc
  have hnext : s.next (.irq v i) = some (Function.update s v.timer u) := by
    rw [Stm32Pwm.next, hu]
    rfl
  exact ⟨_, hnext, fun t c ↦ keeps_irq hnext (h t c) fun _ ↦ (h t c).advance⟩

end Stm32Pwm

/-! ## A call, statement by statement -/

/-- What is settled before statement `k`; after the last assignment the position is at most
`most`. -/
structure PpmCall.Stage (call : PpmCall) (most k : ℕ) (o : ChannelState) : Prop where
  /-- The mode is set by statement 3. -/
  mode : 3 < k → o.mode = .ppmOutput
  /-- The spacing is set by statement 4. -/
  spacing : 4 < k → o.ppmSpacing = call.spacing
  /-- The buffer is set by statement 5. -/
  buffer : 5 < k → o.ppmBuffer = some call.pulses
  /-- The count is set by statement 6. -/
  count : 6 < k → o.ppmCount = call.npulse
  /-- The position is set by statement 7, and goes up to `most` from there. -/
  current : 7 < k → o.ppmCurrent.toNat ≤ most

namespace PpmCall

variable {call : PpmCall} {most k : ℕ} {o : ChannelState}

theorem stage_zero (call : PpmCall) (most : ℕ) (o : ChannelState) : call.Stage most 0 o := by
  constructor <;> intro h <;> omega

theorem Stage.assign {k : Fin 10} (h : call.Stage most k o) :
    call.Stage most (k + 1) (call.assign k o) := by
  obtain ⟨hmode, hspacing, hbuffer, hcount, hcurrent⟩ := h
  match k with
  | 0 | 1 | 2 => constructor <;> intro hk <;> exact absurd hk (by decide)
  | 3 => exact ⟨fun _ ↦ rfl, by simp, by simp, by simp, by simp⟩
  | 4 => exact ⟨fun _ ↦ hmode (by decide), fun _ ↦ rfl, by simp, by simp, by simp⟩
  | 5 =>
    exact ⟨fun _ ↦ hmode (by decide), fun _ ↦ hspacing (by decide), fun _ ↦ rfl, by simp, by simp⟩
  | 6 =>
    exact ⟨fun _ ↦ hmode (by decide), fun _ ↦ hspacing (by decide), fun _ ↦ hbuffer (by decide),
      fun _ ↦ rfl, by simp⟩
  | 7 =>
    exact ⟨fun _ ↦ hmode (by decide), fun _ ↦ hspacing (by decide), fun _ ↦ hbuffer (by decide),
      fun _ ↦ hcount (by decide), fun _ ↦ Nat.zero_le most⟩
  | 8 | 9 =>
    exact ⟨fun _ ↦ hmode (by decide), fun _ ↦ hspacing (by decide), fun _ ↦ hbuffer (by decide),
      fun _ ↦ hcount (by decide), fun _ ↦ hcurrent (by decide)⟩

theorem Stage.advance (h : call.Stage most k o) (hmost : 7 < k → most = call.pulses.length) :
    call.Stage most k o.advance := by
  refine ⟨h.mode, h.spacing, h.buffer, h.count, fun hk ↦ ?_⟩
  have hcount : o.ppmCount.toNat = call.pulses.length := by
    rw [h.count (by omega), call.toNat_npulse]
  have hcurrent := h.current hk
  rw [hmost hk, ← hcount] at hcurrent ⊢
  have hlt := ChannelState.toNat_turn_lt (by rw [hcount]; exact call.pos) hcurrent
  rw [ChannelState.toNat_advance (by have := o.ppmCount.isLt; omega)]
  exact hlt

theorem Stage.safe (h : call.Stage call.pulses.length 10 o) : o.Safe := by
  have hcount : o.ppmCount.toNat = call.pulses.length := by
    rw [h.count (by decide), call.toNat_npulse]
  refine ⟨fun _ ↦ ⟨call.pulses, h.buffer (by decide), ?_, hcount.le, ?_⟩,
    fun hother ↦ absurd (h.mode (by decide)) hother⟩
  · rw [hcount]
    exact call.pos
  · rw [hcount]
    exact h.current (by decide)

end PpmCall

namespace Stm32Pwm

variable {s s' : Stm32Pwm}

theorem ppmRun_gap {P : Stm32Pwm → Prop} {gap : Gap}
    (hirq : ∀ s, ∀ vi ∈ gap, ∀ s', P s → s.next (.irq vi.1 vi.2) = some s' → P s') (h : P s)
    (hrun : s.ppmRun gap.events = some s') : P s' := by
  refine foldlM_invariant_of_mem (fun s e he s' hs hnext ↦ ?_) h hrun
  obtain ⟨vi, hvi, rfl⟩ := List.mem_map.mp he
  exact hirq s vi hvi s' hs hnext

theorem ppmRun_stage {call : PpmCall} {gap : Gap} {k : Fin 10}
    (h : s.ppmRun (gap.events ++ [.statement call k]) = some s') :
    ∃ u, s.ppmRun gap.events = some u ∧
      s' = Function.update u (timId call.chan) (call.statement k (u (timId call.chan))) := by
  obtain ⟨u, hu, hlast⟩ := foldlM_concat_eq_some_iff.mp h
  refine ⟨u, hu, ?_⟩
  rw [ppmNext] at hlast
  split at hlast
  · exact (Option.some_inj.mp hlast).symm
  · exact absurd hlast (by simp)

/-- A statement and the interrupts before it. -/
theorem stage_succ {call : PpmCall} {gap : Gap} {most : ℕ} {k : Fin 10}
    (hrun : s.ppmRun (gap.events ++ [.statement call k]) = some s')
    (hmost : 7 < (k : ℕ) → most = call.pulses.length)
    (h : call.Stage most k (s.output (timId call.chan) (chanId call.chan))) :
    call.Stage most (k + 1) (s'.output (timId call.chan) (chanId call.chan)) := by
  obtain ⟨u, hgap, rfl⟩ := ppmRun_stage hrun
  have hstage := ppmRun_gap (P := fun s ↦
    call.Stage most k (s.output (timId call.chan) (chanId call.chan)))
    (fun s vi _ s' hs hnext ↦ keeps_irq hnext hs fun _ _ ↦ hs.advance hmost) h hgap
  rw [output_statement, if_pos ⟨rfl, rfl⟩]
  exact hstage.assign

/-- A whole call leaves its channel with the train. -/
theorem stage_of_call {call : PpmCall} {gaps : Fin 10 → Gap}
    (hrun : s.ppmRun (call.events gaps) = some s') :
    call.Stage call.pulses.length 10 (s'.output (timId call.chan) (chanId call.chan)) :=
  foldlM_stages (P := fun k s ↦
    call.Stage call.pulses.length k (s.output (timId call.chan) (chanId call.chan)))
    (fun _ _ _ hu hrun ↦ stage_succ hrun (fun _ ↦ rfl) hu) (call.stage_zero _ _) hrun

/-- A whole call keeps the other channels safe, and makes its own channel safe. -/
theorem Safe.call {call : PpmCall} {gaps : Fin 10 → Gap} (h : s.Safe)
    (hrun : s.ppmRun (call.events gaps) = some s') : s'.Safe := by
  have hothers : ∀ t c, ¬(t = timId call.chan ∧ c = chanId call.chan) → (s'.output t c).Safe := by
    refine foldlM_stages (P := fun _ s ↦ ∀ t c, ¬(t = timId call.chan ∧ c = chanId call.chan) →
      (s.output t c).Safe) (fun k u u' hu hrun ↦ ?_) (fun t c _ ↦ h t c) hrun
    obtain ⟨u₁, hgap, rfl⟩ := ppmRun_stage hrun
    have hsafe := ppmRun_gap (P := fun s ↦ ∀ t c, ¬(t = timId call.chan ∧ c = chanId call.chan) →
      (s.output t c).Safe) (fun s vi _ s' hs hnext t c hne ↦
        keeps_irq hnext (hs t c hne) fun _ ↦ (hs t c hne).advance) hu hgap
    intro t c hne
    rw [output_statement, if_neg hne]
    exact hsafe t c hne
  intro t c
  by_cases hown : t = timId call.chan ∧ c = chanId call.chan
  · rw [hown.1, hown.2]
    exact (stage_of_call hrun).safe
  · exact hothers t c hown

theorem Safe.configureCapture (h : s.Safe) (chan : BitVec 8) (defValue : BitVec 32) :
    (pwmConfigureCapture s chan defValue).Safe := by
  intro t c
  rw [output_configureCapture]
  exact h t c

theorem output_storePulse (s : Stm32Pwm) (t' : Fin 8) (c' : Fin 4) (i : ℕ) (w : BitVec 16)
    (t : Fin 8) (c : Fin 4) :
    output (Function.update s t' ((s t').onOutput c' (ChannelState.storePulse i w))) t c =
      if t = t' ∧ c = c' then (s.output t c).storePulse i w else s.output t c := by
  rw [output_update]
  by_cases ht : t = t'
  · rw [if_pos ht, PwmTimer.onOutput, PwmTimer.output_onChan (g := ChannelState.storePulse i w) c' c
      (fun _ ↦ rfl), ht, output]
    exact if_congr (by simp) rfl rfl
  · rw [if_neg ht, if_neg fun h ↦ ht h.1]

theorem Safe.storePulse (h : s.Safe) (t' : Fin 8) (c' : Fin 4) (i : ℕ) (w : BitVec 16) :
    Safe (Function.update s t' ((s t').onOutput c' (ChannelState.storePulse i w))) := by
  intro t c
  rw [output_storePulse]
  split
  · refine ⟨fun hmode ↦ ?_, fun hmode ↦ ?_⟩
    · obtain ⟨buffer, hbuffer, hpos, hle, hcurrent⟩ := (h t c).sends hmode
      refine ⟨buffer.set i w, ?_, hpos, ?_, hcurrent⟩
      · rw [ChannelState.storePulse, hbuffer]
        rfl
      · rw [List.length_set]
        exact hle
    · rw [ChannelState.storePulse, (h t c).idle hmode]
      rfl
  · exact h t c

end Stm32Pwm

/-! ## Runs of whole calls -/

/-- An update interrupt and nothing else. -/
def updateIrq : TimIrq := ⟨itUpdate, fun _ ↦ 0, fun _ ↦ 0, fun _ ↦ 0⟩

/-- A train of two pulses on the first channel of the third timer. -/
def twoPulses : PpmCall where
  chan := 8
  pulses := [1500, 1700]
  spacing := 400
  pos := by decide
  le := by decide

/-- What the program does, and the interrupts. -/
inductive PpmAction where
  | pwm (e : PwmEvent)
  | ppmConfigure (call : PpmCall) (gaps : Fin 10 → Gap)
  | storePulse (t : Fin 8) (c : Fin 4) (i : ℕ) (w : BitVec 16)

def PpmAction.events : PpmAction → List PpmEvent
  | .pwm e => [.pwm e]
  | .ppmConfigure call gaps => call.events gaps
  | .storePulse t c i w => [.storePulse t c i w]

namespace Stm32Pwm

variable {s s' : Stm32Pwm}

theorem ppmRun_singleton (s : Stm32Pwm) (e : PpmEvent) : s.ppmRun [e] = s.ppmNext e := by
  rw [ppmRun, List.foldlM_cons]
  exact bind_pure (s.ppmNext e)

theorem Safe.action (h : s.Safe) {a : PpmAction} (hrun : s.ppmRun a.events = some s') :
    s'.Safe := by
  cases a with
  | pwm e =>
    rw [PpmAction.events, ppmRun_singleton] at hrun
    cases e with
    | configureCapture chan defValue =>
      obtain rfl := Option.some_inj.mp hrun
      exact h.configureCapture chan defValue
    | irq v i =>
      obtain ⟨u, hu, hsafe⟩ := h.irq v i
      obtain rfl := Option.some_inj.mp (hu.symm.trans hrun)
      exact hsafe
  | ppmConfigure call gaps => exact h.call hrun
  | storePulse t c i w =>
    rw [PpmAction.events, ppmRun_singleton] at hrun
    obtain rfl := Option.some_inj.mp hrun
    exact h.storePulse t c i w

/-- Whole calls and events, one after the other. -/
def ppmProgram (s : Stm32Pwm) (actions : List PpmAction) : Option Stm32Pwm :=
  actions.foldlM (fun s a ↦ s.ppmRun a.events) s

/-- **Between two calls every train is safe.** -/
theorem safe_of_program {actions : List PpmAction} (hrun : boot.ppmProgram actions = some s) :
    s.Safe :=
  foldlM_invariant (fun _ _ _ hs hnext ↦ hs.action hnext) safe_boot hrun

theorem dier_irq {v : TimVector} {i : TimIrq} (h : s.next (.irq v i) = some s') (t : Fin 8) :
    (s' t).dier = (s t).dier := by
  obtain ⟨u, hu, rfl⟩ := Option.map_eq_some_iff.mp h
  by_cases ht : t = v.timer
  · rw [ht, Function.update_self]
    exact (PwmTimer.handled_of_timIrqHandler hu).dier
  · rw [Function.update_of_ne ht]

/-- A timer that is not there has no interrupt enabled. -/
theorem dier_of_program {actions : List PpmAction} (hrun : boot.ppmProgram actions = some s)
    {t : Fin 8} (ht : (pwmTimers t).1 = false) : (s t).dier = 0 := by
  -- over the calls of the program, and over the events of each
  refine foldlM_invariant (P := fun s : Stm32Pwm ↦ (s t).dier = 0)
    (fun s a s' hs hnext ↦ ?_) rfl hrun
  refine foldlM_invariant (P := fun s : Stm32Pwm ↦ (s t).dier = 0)
    (fun s e s' hs hnext ↦ ?_) hs hnext
  rw [← hs]
  cases e with
  | pwm e =>
    cases e with
    | configureCapture chan defValue =>
      obtain rfl := Option.some_inj.mp hnext
      rw [pwmConfigureCapture]
      split
      · rfl
      · rename_i hthere
        have hne : t ≠ timId chan := fun heq ↦ hthere (.inl (heq ▸ ht))
        rw [Function.update_of_ne hne]
    | irq v i => exact dier_irq hnext t
  | statement call k =>
    rw [ppmNext] at hnext
    split at hnext
    · rename_i hthere
      obtain rfl := Option.some_inj.mp hnext
      have hne : t ≠ timId call.chan := fun heq ↦ by
        rw [← heq, ht] at hthere
        exact Bool.noConfusion hthere
      rw [Function.update_of_ne hne]
    · exact absurd hnext (by simp)
  | storePulse t' c i w =>
    obtain rfl := Option.some_inj.mp hnext
    by_cases heq : t = t'
    · rw [heq, Function.update_self]
      rfl
    · rw [Function.update_of_ne heq]

end Stm32Pwm

end Martink
