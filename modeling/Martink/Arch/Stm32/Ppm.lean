import Martink.Arch.Stm32.PwmCapture

/-!
# Sending pulse trains

`ppm_configure` turns a channel into the sender of a pulse train: at every update of its timer the
handler takes the next entry of the buffer as the period and as the width of the pulse. Mode,
buffer, count and position are assigned one after the other, and the update interrupt is never
masked. The handler does not look at the length of the array behind the buffer.

An interrupt can come before each statement of the call, any number of them, of this timer and of
the others.
-/

namespace Martink

/-! ## The next pulse -/

/-- The position that the handler reads, after going back to the start at the end of the buffer. -/
def ChannelState.turn (o : ChannelState) : BitVec 8 :=
  if o.ppmCurrent = o.ppmCount then 0 else o.ppmCurrent

/-- The entry at that position; no entry outside the array, or without one. -/
def ChannelState.width (o : ChannelState) : Option (BitVec 16) :=
  o.ppmBuffer.bind fun buffer ↦ buffer[o.turn.toNat]?

def ChannelState.advance (o : ChannelState) : ChannelState := { o with ppmCurrent := o.turn + 1 }

/-- The owner of the buffer writes an entry. -/
def ChannelState.storePulse (i : ℕ) (w : BitVec 16) (o : ChannelState) : ChannelState :=
  { o with ppmBuffer := o.ppmBuffer.map fun buffer ↦ buffer.set i w }

/-- A channel with its next pulse programmed. -/
def PwmChan.sent (w : BitVec 16) (ch : PwmChan) : PwmChan :=
  { ch with
    ccr := w - ch.output.ppmSpacing
    output := ch.output.advance }

/-! ## Setting up a train -/

/-- The arguments of `ppm_configure`: a buffer of `npulse` entries, at least one. -/
structure PpmCall where
  /-- The channel, with its timer in the higher bits. -/
  chan : BitVec 8
  /-- The array that the buffer points to. -/
  pulses : List (BitVec 16)
  /-- The ticks between a compare and the end of its pulse. -/
  spacing : BitVec 16
  /-- There is an entry. -/
  pos : 0 < pulses.length
  /-- The number of entries is a `uint8_t`. -/
  le : pulses.length ≤ 255

def PpmCall.npulse (call : PpmCall) : BitVec 8 := BitVec.ofNat 8 call.pulses.length

theorem PpmCall.toNat_npulse (call : PpmCall) : call.npulse.toNat = call.pulses.length := by
  rw [PpmCall.npulse, BitVec.toNat_ofNat]
  exact Nat.mod_eq_of_lt (by have := call.le; omega)

namespace PwmTimer

/-- A statement about one channel. -/
def onChan (c : Fin 4) (f : PwmChan → PwmChan) (t : PwmTimer) : PwmTimer :=
  { t with chan := Function.update t.chan c (f (t.chan c)) }

def onOutput (c : Fin 4) (f : ChannelState → ChannelState) : PwmTimer → PwmTimer :=
  onChan c fun ch ↦ { ch with output := f ch.output }

/-- `TIM_TimeBaseInit` sets the period and raises the update flag. -/
def timeBaseInit (period : BitVec 16) (t : PwmTimer) : PwmTimer :=
  { t with
    arr := period
    sr := t.sr ||| itUpdate }

/-- `_pwm_configure_oc_chan`, with `TIM_OCMode_PWM1`: the bits of the output mode are among those of
the input filter. -/
def pwmConfigureOcChan (c : Fin 4) (pulse : BitVec 16) : PwmTimer → PwmTimer :=
  onChan c fun ch ↦
    { ch with
      ccr := pulse
      ic := ⟨.rising, 0x0000, ch.ic.prescaler, (ch.ic.filter &&& 0x8) ||| 0x6⟩ }

/-- `pwm_write`. -/
def pwmWrite (c : Fin 4) (width : BitVec 16) : PwmTimer → PwmTimer :=
  onChan c fun ch ↦ { ch with ccr := width }

/-- `TIM_ITConfig` to `ENABLE`. -/
def itConfig (it : BitVec 16) (t : PwmTimer) : PwmTimer := { t with dier := t.dier ||| it }

end PwmTimer

/-- The statements of `ppm_configure`, from those of `pwm_configure(chan, 19600, 20000)` on. -/
def PpmCall.statement (call : PpmCall) : Fin 10 → PwmTimer → PwmTimer :=
  let c := chanId call.chan
  ![.timeBaseInit 20000,
    .pwmConfigureOcChan c 19600,
    .pwmWrite c 19600,
    .onOutput c fun o ↦ { o with mode := .ppmOutput },
    .onOutput c fun o ↦ { o with ppmSpacing := call.spacing },
    .onOutput c fun o ↦ { o with ppmBuffer := some call.pulses },
    .onOutput c fun o ↦ { o with ppmCount := call.npulse },
    .onOutput c fun o ↦ { o with ppmCurrent := 0 },
    .itConfig (intIds c),
    .itConfig itUpdate]

/-- What happens to the tables and the timers, one statement of `ppm_configure` at a time. -/
inductive PpmEvent where
  | pwm (e : PwmEvent)
  | statement (call : PpmCall) (k : Fin 10)
  | storePulse (t : Fin 8) (c : Fin 4) (i : ℕ) (w : BitVec 16)

/-- The interrupts that come at one point of a call. -/
abbrev Gap : Type := List (TimVector × TimIrq)

def Gap.events (gap : Gap) : List PpmEvent := gap.map fun vi ↦ .pwm (.irq vi.1 vi.2)

/-- A whole call, with the interrupts that come before each statement. -/
def PpmCall.events (call : PpmCall) (gaps : Fin 10 → Gap) : List PpmEvent :=
  (List.finRange 10).flatMap fun k ↦ (gaps k).events ++ [.statement call k]

namespace Stm32Pwm

def ppmNext (s : Stm32Pwm) : PpmEvent → Option Stm32Pwm
  | .pwm e => s.next e
  | .statement call k =>
    -- Without a timer the registers are at a null pointer.
    if (pwmTimers (timId call.chan)).1 then
      some (Function.update s (timId call.chan) (call.statement k (s (timId call.chan))))
    else none
  | .storePulse t c i w =>
    some (Function.update s t ((s t).onOutput c (ChannelState.storePulse i w)))

def ppmRun (s : Stm32Pwm) (events : List PpmEvent) : Option Stm32Pwm := events.foldlM ppmNext s

end Stm32Pwm

/-! ## What the handler does to a train -/

namespace PwmTimer

variable {t t' : PwmTimer} {c : Fin 4}

/-- The channel sends a pulse train. -/
def Sends (t : PwmTimer) (c : Fin 4) : Prop := (t.chan c).output.mode = .ppmOutput

instance : Decidable (t.Sends c) := inferInstanceAs (Decidable (_ = _))

theorem updateStep_sends (h : t.Sends c) (now : ℤ) :
    t.updateStep now c = (t.chan c).output.width.map fun w ↦
      { t with
        arr := w
        chan := Function.update t.chan c ((t.chan c).sent w) } := by
  refine (if_pos h).trans ?_
  rw [Option.map_eq_bind]
  rfl

theorem updateStep_idle (h : ¬t.Sends c) (now : ℤ) :
    ∃ t', t.updateStep now c = some t' ∧ t'.arr = t.arr ∧ t'.dier = t.dier
      ∧ (∀ d ≠ c, t'.chan d = t.chan d) ∧ (t'.chan c).output = (t.chan c).output := by
  simp only [PwmTimer.updateStep]
  rw [if_neg (show ¬(t.chan c).output.mode = .ppmOutput from h)]
  split
  · exact ⟨t, rfl, rfl, rfl, fun _ _ ↦ rfl, rfl⟩
  · split
    · refine ⟨_, rfl, rfl, rfl, fun d hd ↦ Function.update_of_ne hd _ _, ?_⟩
      refine (congrArg PwmChan.output (Function.update_self _ _ _)).trans ?_
      rfl
    · exact ⟨t, rfl, rfl, rfl, fun _ _ ↦ rfl, rfl⟩

/-- The second loop over some channels: each sender among them gets its next pulse, and the last one
decides about the period. -/
structure Updated (l : List (Fin 4)) (t t' : PwmTimer) : Prop where
  /-- The interrupts that are enabled stay so. -/
  dier : t'.dier = t.dier
  /-- The other channels are left alone. -/
  other : ∀ c ∉ l, t'.chan c = t.chan c
  /-- A channel that sends nothing keeps its output. -/
  idle : ∀ c, ¬t.Sends c → (t'.chan c).output = (t.chan c).output
  /-- A sender among the channels gets its next pulse. -/
  sends : ∀ c ∈ l, t.Sends c →
    ∃ w, (t.chan c).output.width = some w ∧ t'.chan c = (t.chan c).sent w
  /-- Without a sender the period stays. -/
  quiet : (∀ c ∈ l, ¬t.Sends c) → t'.arr = t.arr
  /-- The last sender's pulse is the period. -/
  arr : ∀ c post, c :: post <:+ l → t.Sends c → (∀ d ∈ post, ¬t.Sends d) →
    (t.chan c).output.width = some t'.arr

theorem updated_nil (t : PwmTimer) : Updated [] t t where
  dier := rfl
  other _ _ := rfl
  idle _ _ := rfl
  sends _ hc := absurd hc List.not_mem_nil
  quiet _ := rfl
  arr _ _ hl := absurd (List.suffix_nil.mp hl) (List.cons_ne_nil _ _)

theorem Updated.sends_iff {l : List (Fin 4)} (h : Updated l t t') (c : Fin 4) :
    t'.Sends c ↔ t.Sends c := by
  have hmode : (t'.chan c).output.mode = (t.chan c).output.mode := by
    by_cases hc : t.Sends c
    · by_cases hl : c ∈ l
      · obtain ⟨w, -, hchan⟩ := h.sends c hl hc
        rw [hchan]
        rfl
      · rw [h.other c hl]
    · rw [h.idle c hc]
  rw [Sends, hmode, Sends]

theorem updated_of_updateStep {now : ℤ} (h : t.updateStep now c = some t') :
    Updated [c] t t' := by
  have hone {d : Fin 4} {post : List (Fin 4)} (hl : d :: post <:+ [c]) : d = c :=
    List.mem_singleton.mp (hl.subset List.mem_cons_self)
  by_cases hc : t.Sends c
  · rw [updateStep_sends hc] at h
    obtain ⟨w, hw, rfl⟩ := Option.map_eq_some_iff.mp h
    refine ⟨rfl, fun d hd ↦ ?_, fun d hd ↦ ?_, fun d hd _ ↦ ?_, fun hquiet ↦ ?_,
      fun d _ hl _ _ ↦ ?_⟩
    · exact Function.update_of_ne (List.ne_of_not_mem_cons hd) _ _
    · have hne : d ≠ c := fun heq ↦ hd (heq ▸ hc)
      exact congrArg PwmChan.output (Function.update_of_ne hne _ _)
    · obtain rfl := List.mem_singleton.mp hd
      exact ⟨w, hw, Function.update_self _ _ _⟩
    · exact absurd hc (hquiet c List.mem_cons_self)
    · rw [hone hl]
      exact hw
  · obtain ⟨u, hu, harr, hdier, hother, houtput⟩ := updateStep_idle hc now
    obtain rfl := Option.some_inj.mp (hu.symm.trans h)
    refine ⟨hdier, fun d hd ↦ hother d (List.ne_of_not_mem_cons hd), fun d _ ↦ ?_,
      fun d hd hsends ↦ ?_, fun _ ↦ harr, fun d _ hl hsends _ ↦ ?_⟩
    · by_cases hd : d = c
      · rw [hd, houtput]
      · rw [hother d hd]
    · exact absurd (List.mem_singleton.mp hd ▸ hsends) hc
    · exact absurd (hone hl ▸ hsends) hc

theorem Updated.cons {l : List (Fin 4)} {u : PwmTimer} (h : Updated [c] t u) (hl : Updated l u t')
    (hc : c ∉ l) : Updated (c :: l) t t' := by
  have hne {d : Fin 4} (hd : d ∈ l) : u.chan d = t.chan d :=
    h.other d fun hmem ↦ hc (List.mem_singleton.mp hmem ▸ hd)
  refine ⟨hl.dier.trans h.dier, fun d hd ↦ ?_, fun d hd ↦ ?_, fun d hd hsends ↦ ?_, fun hquiet ↦ ?_,
    fun d post hsuffix hsends hlast ↦ ?_⟩
  · rw [List.mem_cons, not_or] at hd
    exact (hl.other d hd.2).trans (h.other d fun hmem ↦ hd.1 (List.mem_singleton.mp hmem))
  · exact (hl.idle d (mt (h.sends_iff d).mp hd)).trans (h.idle d hd)
  · rcases List.mem_cons.mp hd with rfl | hd
    · rw [hl.other d hc]
      exact h.sends d List.mem_cons_self hsends
    · rw [← hne hd]
      exact hl.sends d hd ((h.sends_iff d).mpr hsends)
  · have hrest (d : Fin 4) (hd : d ∈ l) : ¬u.Sends d :=
      mt (h.sends_iff d).mp (hquiet d (List.mem_cons_of_mem c hd))
    rw [hl.quiet hrest]
    exact h.quiet fun d hd ↦ hquiet d (List.mem_singleton.mp hd ▸ List.mem_cons_self)
  · have hrest (d : Fin 4) (hd : d ∈ post) : ¬u.Sends d := mt (h.sends_iff d).mp (hlast d hd)
    -- the last channel that sends is the first of the list, or one of the rest
    rcases List.suffix_cons_iff.mp hsuffix with heq | hsuffix
    · obtain ⟨rfl, rfl⟩ := List.cons_eq_cons.mp heq
      rw [hl.quiet hrest]
      exact h.arr d [] List.suffix_rfl hsends fun _ hd ↦ absurd hd List.not_mem_nil
    · rw [← hne (hsuffix.subset List.mem_cons_self)]
      exact hl.arr d post hsuffix ((h.sends_iff d).mpr hsends) hrest

theorem updated_of_foldlM {l : List (Fin 4)} {now : Fin 4 → ℤ} (hl : l.Nodup)
    (h : l.foldlM (fun t c ↦ t.updateStep (now c) c) t = some t') : Updated l t t' := by
  induction l generalizing t with
  | nil =>
    obtain rfl := Option.some_inj.mp h
    exact updated_nil t
  | cons c l ih =>
    obtain ⟨u, hu, hrest⟩ := foldlM_cons_eq_some_iff.mp h
    rw [List.nodup_cons] at hl
    exact (updated_of_updateStep hu).cons (ih hl.2 hrest) hl.1

/-- The loop is defined when every sender has an entry to send. -/
theorem exists_foldlM {l : List (Fin 4)} (hl : l.Nodup) (now : Fin 4 → ℤ)
    (h : ∀ c ∈ l, t.Sends c → ∃ w, (t.chan c).output.width = some w) :
    ∃ t', l.foldlM (fun t c ↦ t.updateStep (now c) c) t = some t' := by
  induction l generalizing t with
  | nil => exact ⟨t, rfl⟩
  | cons c l ih =>
    rw [List.nodup_cons] at hl
    -- a channel that sends has something to send, and the others need nothing
    obtain ⟨u, hu⟩ : ∃ u, t.updateStep (now c) c = some u := by
      by_cases hc : t.Sends c
      · obtain ⟨w, hw⟩ := h c List.mem_cons_self hc
        exact ⟨_, by rw [updateStep_sends hc, hw]; rfl⟩
      · obtain ⟨u, hu, -⟩ := updateStep_idle hc (now c)
        exact ⟨u, hu⟩
    have hstep := updated_of_updateStep hu
    obtain ⟨t', ht'⟩ := ih hl.2 fun d hd hsends ↦ by
      have hne : d ∉ [c] := fun hmem ↦ hl.1 (List.mem_singleton.mp hmem ▸ hd)
      rw [hstep.other d hne]
      exact h d (List.mem_cons_of_mem c hd) ((hstep.sends_iff d).mp hsends)
    exact ⟨t', foldlM_cons_eq_some_iff.mpr ⟨u, hu, ht'⟩⟩

/-- The first loop leaves the senders, the period and the update flag alone. -/
structure Captured (t t' : PwmTimer) : Prop where
  /-- The interrupts that are enabled stay so. -/
  dier : t'.dier = t.dier
  /-- The period stays. -/
  arr : t'.arr = t.arr
  /-- The update flag stays. -/
  update : t'.sr &&& itUpdate = t.sr &&& itUpdate
  /-- The senders are left alone. -/
  sends : ∀ c, t.Sends c → t'.chan c = t.chan c
  /-- All outputs are left alone. -/
  output : ∀ c, (t'.chan c).output = (t.chan c).output

theorem captured_refl (t : PwmTimer) : Captured t t := ⟨rfl, rfl, rfl, fun _ _ ↦ rfl, fun _ ↦ rfl⟩

theorem Captured.sends_iff (h : Captured t t') (c : Fin 4) : t'.Sends c ↔ t.Sends c := by
  rw [Sends, h.output c, Sends]

theorem Captured.trans {u : PwmTimer} (h : Captured t u) (h' : Captured u t') : Captured t t' where
  dier := h'.dier.trans h.dier
  arr := h'.arr.trans h.arr
  update := h'.update.trans h.update
  sends c hc := (h'.sends c ((h.sends_iff c).mpr hc)).trans (h.sends c hc)
  output c := (h'.output c).trans (h.output c)

theorem clearPending_update (sr : BitVec 16) (c : Fin 4) :
    (sr &&& ~~~intIds c) &&& itUpdate = sr &&& itUpdate := by
  have hflags : ~~~intIds c &&& itUpdate = itUpdate := by
    revert c
    decide
  rw [BitVec.and_assoc, hflags]

theorem captured_captureStep (now : ℤ) (t : PwmTimer) (c : Fin 4) :
    Captured t (t.captureStep now c) := by
  rw [PwmTimer.captureStep]
  split
  · dsimp only
    split
    · exact ⟨rfl, rfl, clearPending_update _ c, fun _ _ ↦ rfl, fun _ ↦ rfl⟩
    · rename_i hc
      refine ⟨rfl, rfl, clearPending_update _ c, fun d hd ↦ ?_, fun d ↦ ?_⟩
      · have hne : d ≠ c := fun heq ↦ hc (heq ▸ hd)
        exact Function.update_of_ne hne _ _
      · by_cases hd : d = c
        · rw [hd]
          refine (congrArg PwmChan.output (Function.update_self _ _ _)).trans ?_
          exact PwmChan.captured_output _ _ _
        · exact congrArg PwmChan.output (Function.update_of_ne hd _ _)
  · exact captured_refl t

theorem captured_captureEvents (i : TimIrq) (t : PwmTimer) : Captured t (t.captureEvents i) :=
  List.foldlRecOn (motive := Captured t) _ _ (captured_refl t) fun _ ht c _ ↦
    ht.trans (captured_captureStep _ _ c)

/-- The call finds the update interrupt pending and enabled. -/
def Updates (t : PwmTimer) (i : TimIrq) : Prop := i.sr &&& itUpdate ≠ 0 ∧ t.dier &&& itUpdate ≠ 0

instance (i : TimIrq) : Decidable (t.Updates i) := inferInstanceAs (Decidable (_ ∧ _))

/-- What a call of the handler does to the channels that send pulse trains. -/
structure Handled (i : TimIrq) (t t' : PwmTimer) : Prop where
  /-- The interrupts that are enabled stay so. -/
  dier : t'.dier = t.dier
  /-- A channel that sends nothing keeps its output. -/
  idle : ∀ c, ¬t.Sends c → (t'.chan c).output = (t.chan c).output
  /-- Without an update the senders are left alone. -/
  rest : ¬t.Updates i → ∀ c, t.Sends c → t'.chan c = { t.chan c with ccr := i.ccr c }
  /-- At an update each of them gets its next pulse. -/
  sends : t.Updates i → ∀ c, t.Sends c →
    ∃ w, (t.chan c).output.width = some w ∧ t'.chan c = (t.chan c).sent w
  /-- The last sender's pulse is the period then. -/
  arr : t.Updates i → ∀ c, t.Sends c → (∀ d, c < d → ¬t.Sends d) →
    (t.chan c).output.width = some t'.arr

/-- The channels that the loops see to after a channel are those of a higher number. -/
theorem suffix_finRange (c : Fin 4) :
    c :: (List.finRange 4).filter (fun d ↦ c < d) <:+ List.finRange 4 := by
  revert c
  decide

theorem itStatus_captureEvents (t : PwmTimer) (i : TimIrq) :
    ((t.load i).captureEvents i).itStatus itUpdate = true ↔ t.Updates i := by
  have hcaptured := captured_captureEvents i (t.load i)
  rw [PwmTimer.itStatus, decide_eq_true_iff, hcaptured.update, hcaptured.dier]
  rfl

/-- **The handler.** -/
theorem handled_of_timIrqHandler {i : TimIrq} (h : t.timIrqHandler i = some t') :
    Handled i t t' := by
  have hcaptured := captured_captureEvents i (t.load i)
  rw [PwmTimer.timIrqHandler, PwmTimer.updateEvent,
    if_congr (itStatus_captureEvents t i) rfl rfl] at h
  -- the loop over the captures is done; the update event is the other half
  by_cases hupdates : t.Updates i
  · rw [if_pos hupdates] at h
    have hloop := updated_of_foldlM (List.nodup_finRange 4) h
    have hsame {c : Fin 4} (hc : t.Sends c) :
        ((((t.load i).captureEvents i).clearPending itUpdate).chan c).output = (t.chan c).output :=
      hcaptured.output c
    have hsends {c : Fin 4} (hc : t.Sends c) :
        (((t.load i).captureEvents i).clearPending itUpdate).Sends c :=
          (hcaptured.sends_iff c).mpr hc
    have hidle {c : Fin 4} (hc : ¬t.Sends c) :
        ¬(((t.load i).captureEvents i).clearPending itUpdate).Sends c :=
      mt (hcaptured.sends_iff c).mp hc
    refine ⟨hloop.dier.trans hcaptured.dier, fun c hc ↦ ?_, fun hno ↦ absurd hupdates hno,
      fun _ c hc ↦ ?_, fun _ c hc hlast ↦ ?_⟩
    · exact (hloop.idle c (hidle hc)).trans (hcaptured.output c)
    · obtain ⟨w, hw, hchan⟩ := hloop.sends c (List.mem_finRange c) (hsends hc)
      rw [hsame hc] at hw
      refine ⟨w, hw, hchan.trans ?_⟩
      change PwmChan.sent w (((t.load i).captureEvents i).chan c) = _
      rw [hcaptured.sends c hc]
      rfl
    · rw [← hsame hc]
      refine hloop.arr c _ (suffix_finRange c) (hsends hc) fun d hd ↦ hidle (hlast d ?_)
      exact of_decide_eq_true (List.mem_filter.mp hd).2
  · rw [if_neg hupdates] at h
    obtain rfl := Option.some_inj.mp h
    exact ⟨hcaptured.dier, fun c _ ↦ hcaptured.output c, fun _ c hc ↦ hcaptured.sends c hc,
      fun hyes ↦ absurd hyes hupdates, fun hyes ↦ absurd hyes hupdates⟩

theorem exists_timIrqHandler {i : TimIrq}
    (h : t.Updates i → ∀ c, t.Sends c → ∃ w, (t.chan c).output.width = some w) :
    ∃ t', t.timIrqHandler i = some t' := by
  have hcaptured := captured_captureEvents i (t.load i)
  rw [PwmTimer.timIrqHandler, PwmTimer.updateEvent, if_congr (itStatus_captureEvents t i) rfl rfl]
  by_cases hupdates : t.Updates i
  · rw [if_pos hupdates]
    refine exists_foldlM (List.nodup_finRange 4) i.updateNow fun c _ hc ↦ ?_
    obtain ⟨w, hw⟩ := h hupdates c ((hcaptured.sends_iff c).mp hc)
    exact ⟨w, (congrArg ChannelState.width (hcaptured.output c)).trans hw⟩
  · exact ⟨_, if_neg hupdates⟩

end PwmTimer

end Martink
