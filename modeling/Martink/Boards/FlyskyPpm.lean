import Martink.Base.Sweep
import Martink.Boards.FlyskyT6

/-!
# Frames of the transmitter

A frame is seven pulses, six channels and a gap. `fst6_write_ppm` makes the gap so long that the
frame takes 20 ms. But it stores the seven numbers one after the other, while the interrupt goes
through the same buffer, so a frame can have some of the old numbers and some of the new ones. It
takes 20 ms exactly if the numbers that came late for it make up for each other.
-/

namespace Martink

/-- Values of the six channels that leave a gap of more than a pulse's spacing. -/
structure PpmValues where
  /-- The value of channel 1. -/
  ch1 : BitVec 16
  /-- The value of channel 2. -/
  ch2 : BitVec 16
  /-- The value of channel 3. -/
  ch3 : BitVec 16
  /-- The value of channel 4. -/
  ch4 : BitVec 16
  /-- The value of channel 5. -/
  ch5 : BitVec 16
  /-- The value of channel 6. -/
  ch6 : BitVec 16
  /-- The gap is what they leave of a frame. -/
  sum_lt : ch1.toNat + ch2.toNat + ch3.toNat + ch4.toNat + ch5.toNat + ch6.toNat < 20000 - 400

namespace PpmValues

variable (v : PpmValues)

/-- The assignments of a call. -/
def writes : List PpmEvent := fst6WritePpm v.ch1 v.ch2 v.ch3 v.ch4 v.ch5 v.ch6

/-- The buffer after a call. -/
def buffer : List (BitVec 16) :=
  [v.ch1, v.ch2, v.ch3, v.ch4, v.ch5, v.ch6, 20000 - v.ch1 - v.ch2 - v.ch3 - v.ch4 - v.ch5 - v.ch6]

end PpmValues

/-- Widths as integers. -/
def widths (buffer : List (BitVec 16)) : List ℤ := buffer.map fun w ↦ (w.toNat : ℤ)

theorem sum_widths_buffer (v : PpmValues) : (widths v.buffer).sum = 20000 := by
  have hlt := v.sum_lt
  have hgap : (20000 - v.ch1 - v.ch2 - v.ch3 - v.ch4 - v.ch5 - v.ch6).toNat = 20000 - (v.ch1.toNat
      + v.ch2.toNat + v.ch3.toNat + v.ch4.toNat + v.ch5.toNat + v.ch6.toNat) := by
    bv_omega
  simp only [widths, PpmValues.buffer, List.map_cons, List.map_nil, List.sum_cons,
    List.sum_nil, hgap]
  omega

/-! ## The handler and the calls as a reader and a writer -/

section Sweeps

variable (t : Fin 8) (c : Fin 4)

/-- What an event does to the buffer of a channel. -/
def PpmEvent.sweep : PpmEvent → Option (SweepStep ℤ)
  | .storePulse t' c' i w => if t = t' ∧ c = c' then some (.store i w.toNat) else none
  | e => if e.IsUpdate t then some .read else none

def sweeps (events : List PpmEvent) : List (SweepStep ℤ) := events.filterMap (PpmEvent.sweep t c)

/-- The assignments among the events. -/
def stores (events : List PpmEvent) : List (SweepStep ℤ) :=
  (sweeps t c events).filter SweepStep.IsStore

/-- The periods that the update interrupts of a timer program. -/
def intervals : Stm32Pwm → List PpmEvent → List (BitVec 16)
  | _, [] => []
  | s, e :: events =>
    match s.ppmNext e with
    | none => []
    | some s' => (if e.IsUpdate t then [(s' t).arr] else []) ++ intervals s' events

end Sweeps

variable {t : Fin 8} {c : Fin 4} {s s' : Stm32Pwm} {spacing : BitVec 16} {buffer : List (BitVec 16)}
  {k : ℕ} {events : List PpmEvent}

theorem sweeps_append (events events' : List PpmEvent) :
    sweeps t c (events ++ events') = sweeps t c events ++ sweeps t c events' :=
  List.filterMap_append

/-- What an event can be to the channel. -/
inductive PpmEvent.Effect (t : Fin 8) (c : Fin 4) (e : PpmEvent) : Prop
  | update (isUpdate : e.IsUpdate t) (sweep : e.sweep t c = some .read)
      (write : ∀ b, e.write t c b = b)
  | store (i : ℕ) (w : BitVec 16) (notUpdate : ¬e.IsUpdate t)
      (sweep : e.sweep t c = some (.store i w.toNat)) (write : ∀ b, e.write t c b = b.set i w)
  | other (notUpdate : ¬e.IsUpdate t) (sweep : e.sweep t c = none) (write : ∀ b, e.write t c b = b)

theorem PpmEvent.effect (t : Fin 8) (c : Fin 4) (e : PpmEvent) : e.Effect t c := by
  by_cases hupdate : e.IsUpdate t
  · cases e with
    | pwm e => exact .update hupdate (if_pos hupdate) fun _ ↦ rfl
    | statement call j => exact hupdate.elim
    | storePulse t' c' i w => exact hupdate.elim
  · cases e with
    | pwm e => exact .other hupdate (if_neg hupdate) fun _ ↦ rfl
    | statement call j => exact .other hupdate rfl fun _ ↦ rfl
    | storePulse t' c' i w =>
      by_cases hown : t = t' ∧ c = c'
      · exact .store i w hupdate (if_pos hown) fun _ ↦ if_pos hown
      · exact .other hupdate (if_neg hown) fun _ ↦ if_neg hown

theorem sweep_of_isUpdate {e : PpmEvent} (h : e.IsUpdate t) : e.sweep t c = some .read := by
  cases e.effect t c with
  | update _ hsweep _ => exact hsweep
  | store i w hupdate _ _ => exact absurd h hupdate
  | other hupdate _ _ => exact absurd h hupdate

theorem readCount_sweeps (events : List PpmEvent) :
    Sweep.readCount (sweeps t c events) = updateCount t events := by
  induction events with
  | nil => rfl
  | cons e events ih =>
    rw [updateCount_cons, ← ih, sweeps, List.filterMap_cons]
    cases e.effect t c with
    | update hupdate hsweep _ =>
      rw [hsweep, if_pos hupdate]
      exact Sweep.readCount_read _
    | store i w hupdate hsweep _ =>
      rw [hsweep, if_neg hupdate]
      exact Sweep.readCount_store _ _ _
    | other hupdate hsweep _ =>
      rw [hsweep, if_neg hupdate]
      rfl

theorem written_sweeps (buffer : List (BitVec 16)) (events : List PpmEvent) :
    Sweep.written (widths buffer) (sweeps t c events) = widths (contents t c buffer events) := by
  induction events generalizing buffer with
  | nil => rfl
  | cons e events ih =>
    have hcontents : contents t c buffer (e :: events) = contents t c (e.write t c buffer) events :=
      rfl
    rw [hcontents, ← ih, sweeps, List.filterMap_cons]
    cases e.effect t c with
    | update _ hsweep hwrite =>
      rw [hsweep, hwrite]
      rfl
    | store i w _ hsweep hwrite =>
      rw [hsweep, hwrite, widths, widths, List.map_set]
      rfl
    | other _ hsweep hwrite =>
      rw [hsweep, hwrite]
      rfl

theorem intervals_cons {u : Stm32Pwm} {e : PpmEvent} (h : s.ppmNext e = some u)
    (events : List PpmEvent) : intervals t s (e :: events)
      = (if e.IsUpdate t then [(u t).arr] else []) ++ intervals t u events := by
  rw [intervals, h]

/-- The last channel of a timer decides about the period. -/
theorem Stm32Pwm.Sending.arr_update {u : Stm32Pwm} {e : PpmEvent}
    (h : s.Sending t c spacing buffer k)
    (hlast : ∀ d, ¬c < d) (he : e.IsUpdate t) (hnext : s.ppmNext e = some u) :
    buffer[k % buffer.length]? = some (u t).arr := by
  cases e with
  | statement call j => exact he.elim
  | storePulse t' c' i w => exact he.elim
  | pwm e =>
    cases e with
    | configureCapture chan defValue => exact he.elim
    | irq v i =>
      obtain ⟨rfl, hflag⟩ := he
      obtain ⟨w, hentry, hwidth⟩ := h.train.width
      obtain ⟨t', ht', rfl⟩ := Option.map_eq_some_iff.mp hnext
      have harr := (PwmTimer.handled_of_timIrqHandler ht').arr ⟨hflag, h.enabled⟩ c h.train.mode
        fun d hd ↦ absurd hd (hlast d)
      rw [hentry, Function.update_self, ← harr]
      exact hwidth.symm

/-- On the last channel of a timer, the periods are what the handler reads. -/
theorem widths_intervals (hlast : ∀ d, ¬c < d) {p : ℕ} (h : s.Sending t c spacing buffer k)
    (hevents : ∀ e ∈ events, ¬e.Assigns t c) (hp : k % buffer.length = p % buffer.length)
    (hle : p + updateCount t events ≤ buffer.length) (hrun : s.ppmRun events = some s') :
    widths (intervals t s events) = Sweep.reads p (widths buffer) (sweeps t c events) := by
  induction events generalizing s buffer k p with
  | nil => rfl
  | cons e events ih =>
    obtain ⟨u, hnext, hrest⟩ := foldlM_cons_eq_some_iff.mp hrun
    have hsending := h.ppmNext (hevents e List.mem_cons_self) hnext
    have hothers (e' : PpmEvent) (he' : e' ∈ events) := hevents e' (List.mem_cons_of_mem e he')
    rw [updateCount_cons] at hle
    rw [intervals_cons hnext, sweeps]
    cases e.effect t c with
    | update hupdate hsweep hwrite =>
      rw [if_pos hupdate] at hsending hle ⊢
      rw [hwrite] at hsending
      have hentry := h.arr_update hlast hupdate hnext
      have hlt : p < buffer.length := by omega
      rw [hp, Nat.mod_eq_of_lt hlt] at hentry
      have hhead : (widths buffer).getD p 0 = ((u t).arr.toNat : ℤ) := by
        rw [widths, List.getD_eq_getElem?_getD, List.getElem?_map, hentry]
        rfl
      have hrec := ih (p := p + 1) hsending hothers (by rw [Nat.add_mod, hp, ← Nat.add_mod])
        (by omega) hrest
      rw [List.filterMap_cons_some hsweep, Sweep.reads, hhead, List.singleton_append, widths,
        List.map_cons]
      exact congrArg _ hrec
    | store i w hupdate hsweep hwrite =>
      rw [if_neg hupdate] at hsending hle ⊢
      rw [hwrite] at hsending
      have hrec := ih (p := p) hsending hothers (by rwa [List.length_set])
          (by rwa [List.length_set])
        hrest
      rw [List.filterMap_cons_some hsweep, List.nil_append, hrec, widths, List.map_set]
      rfl
    | other hupdate hsweep hwrite =>
      rw [if_neg hupdate] at hsending hle ⊢
      rw [hwrite] at hsending
      rw [List.filterMap_cons_none hsweep, List.nil_append]
      exact ih hsending hothers hp hle hrest

/-! ## Frames -/

/-- The timer and the channel of the train. -/
def fst6Tim : Fin 8 := timId fst6Ppm.chan

def fst6Chan : Fin 4 := chanId fst6Ppm.chan

/-- The assignments among the events are those of the calls, each of them whole. -/
def WholeCalls (events : List PpmEvent) (calls : List PpmValues) : Prop :=
  stores fst6Tim fst6Chan events = calls.flatMap fun v ↦ sweeps fst6Tim fst6Chan v.writes

/-- A call has just returned. -/
def Returned (events : List PpmEvent) : Prop := ∃ calls ≠ [], WholeCalls events calls

/-- After `before` a call has returned, and after `mid`, with the next update interrupt, the seven
updates of `frame` begin. The channel had sent `k` pulses at first. -/
structure IsFrame (k : ℕ) (before mid frame : List PpmEvent) : Prop where
  /-- A call has returned before. -/
  returned : Returned before
  /-- The frame begins with the first pulse of the buffer. -/
  boundary : (k + updateCount fst6Tim (before ++ mid)) % 7 = 0
  /-- It has the seven updates of a frame. -/
  updates : updateCount fst6Tim frame = 7

/-- Every frame that starts after a call returned takes 20 ms. -/
def RightFrames (k : ℕ) (s : Stm32Pwm) (events : List PpmEvent) : Prop :=
  ∀ before mid frame after u, events = before ++ mid ++ frame ++ after →
    IsFrame k before mid frame → s.ppmRun (before ++ mid) = some u →
    (widths (intervals fst6Tim u frame)).sum = 20000

/-- The assignments made after the call returned that come in time for the frame change nothing in
total: those before the frame, and those during the frame to entries it has not sent. -/
def Balanced (buffer : List (BitVec 16)) (before mid frame : List PpmEvent) : Prop :=
  Sweep.late 0 (widths (contents fst6Tim fst6Chan buffer before))
    (stores fst6Tim fst6Chan mid ++ sweeps fst6Tim fst6Chan frame) = 0

def BalancedFrames (k : ℕ) (buffer : List (BitVec 16)) (events : List PpmEvent) : Prop :=
  ∀ before mid frame after, events = before ++ mid ++ frame ++ after →
    IsFrame k before mid frame → Balanced buffer before mid frame

theorem widths_contents (buffer : List (BitVec 16)) (events : List PpmEvent) :
    widths (contents t c buffer events) = Sweep.written (widths buffer) (stores t c events) := by
  rw [← written_sweeps, stores, Sweep.written_filter]

theorem contents_append_list (buffer : List (BitVec 16)) (events events' : List PpmEvent) :
    contents t c buffer (events ++ events') = contents t c (contents t c buffer events) events' :=
  List.foldl_append

theorem written_writes (v : PpmValues) {l : List ℤ} (h : l.length = 7) :
    Sweep.written l (sweeps fst6Tim fst6Chan v.writes) = widths v.buffer := by
  match l, h with
  | [_, _, _, _, _, _, _], _ => rfl

theorem sum_of_returned (h : Returned events) (hlength : buffer.length = 7) :
    (widths (contents fst6Tim fst6Chan buffer events)).sum = 20000 := by
  obtain ⟨calls, hcalls, hwhole⟩ := h
  rw [widths_contents, hwhole, ← List.dropLast_append_getLast hcalls, List.flatMap_append,
    Sweep.written_append, List.flatMap_singleton, written_writes, sum_widths_buffer]
  rw [Sweep.length_written, widths, List.length_map, hlength]

/-- A run that returns does so through each part of it. -/
theorem exists_ppmRun_part {before part after : List PpmEvent}
    (hrun : s.ppmRun (before ++ part ++ after) = some s') :
    ∃ u u', s.ppmRun before = some u ∧ u.ppmRun part = some u' := by
  obtain ⟨u', hrun, -⟩ := foldlM_append_eq_some_iff.mp hrun
  obtain ⟨u, hu, hpart⟩ := foldlM_append_eq_some_iff.mp hrun
  exact ⟨u, u', hu, hpart⟩

/-- **One frame.** -/
theorem sum_intervals (h : s.Sending fst6Tim fst6Chan spacing buffer k)
    (hlength : buffer.length = 7)
    {before mid frame : List PpmEvent} (hframe : IsFrame k before mid frame)
    (hmid : ∀ e ∈ before ++ mid, ¬e.Assigns fst6Tim fst6Chan)
    (hevents : ∀ e ∈ frame, ¬e.Assigns fst6Tim fst6Chan) {u : Stm32Pwm}
    (hu : s.ppmRun (before ++ mid) = some u) (hrun : u.ppmRun frame = some s') :
    (widths (intervals fst6Tim u frame)).sum = 20000 +
      Sweep.late 0 (widths (contents fst6Tim fst6Chan buffer before))
        (stores fst6Tim fst6Chan mid ++ sweeps fst6Tim fst6Chan frame) := by
  have hnoreads : Sweep.readCount (stores fst6Tim fst6Chan mid) = 0 := Sweep.readCount_filter _
  have hsize := (length_contents fst6Tim fst6Chan buffer (before ++ mid)).trans hlength
  have hintervals := widths_intervals (p := 0) (by decide) (h.ppmRun hmid hu) hevents
    (by rw [hsize, hframe.boundary]) (by rw [hsize, hframe.updates]) hrun
  have hreads := Sweep.reads_append (stores fst6Tim fst6Chan mid) (sweeps fst6Tim fst6Chan frame) 0
    (widths (contents fst6Tim fst6Chan buffer before))
  rw [Sweep.reads_of_no_reads hnoreads, hnoreads, ← widths_contents, ← contents_append_list,
    List.nil_append] at hreads
  rw [hintervals, ← hreads, Sweep.sum_reads_eq, sum_of_returned hframe.returned hlength]
  rw [Sweep.readCount_append, hnoreads, readCount_sweeps, hframe.updates, widths, List.length_map,
    length_contents, hlength]

/-- **Frames.** -/
theorem rightFrames_iff (h : s.Sending fst6Tim fst6Chan spacing buffer k)
    (hlength : buffer.length = 7)
    (hevents : ∀ e ∈ events, ¬e.Assigns fst6Tim fst6Chan) (hrun : s.ppmRun events = some s') :
    RightFrames k s events ↔ BalancedFrames k buffer events := by
  have hsum {before mid frame after : List PpmEvent} {u : Stm32Pwm}
      (hsplit : events = before ++ mid ++ frame ++ after) (hframe : IsFrame k before mid frame)
      (hu : s.ppmRun (before ++ mid) = some u) : (widths (intervals fst6Tim u frame)).sum = 20000 ↔
        Balanced buffer before mid frame := by
    obtain ⟨u₁, u', hu₁, hrun⟩ := exists_ppmRun_part (hsplit ▸ hrun)
    obtain rfl := Option.some_inj.mp (hu₁.symm.trans hu)
    rw [sum_intervals h hlength hframe (fun e he ↦ hevents e ?_) (fun e he ↦ hevents e ?_) hu hrun,
      Balanced, add_eq_left]
    · rw [hsplit]
      exact List.mem_append_left _ (List.mem_append_left _ he)
    · rw [hsplit]
      exact List.mem_append_left _ (List.mem_append_right _ he)
  constructor
  · intro hright before mid frame after hsplit hframe
    obtain ⟨u, -, hu, -⟩ := exists_ppmRun_part (hsplit ▸ hrun)
    exact (hsum hsplit hframe hu).mp (hright before mid frame after u hsplit hframe hu)
  · intro hbalanced before mid frame after u hsplit hframe hu
    exact (hsum hsplit hframe hu).mpr (hbalanced before mid frame after hsplit hframe)

theorem not_assigns_writes (v : PpmValues) {e : PpmEvent} (he : e ∈ v.writes) : ¬e.Assigns t c := by
  simp only [PpmValues.writes, fst6WritePpm, List.mem_cons, List.not_mem_nil, or_false] at he
  rcases he with rfl | rfl | rfl | rfl | rfl | rfl | rfl <;> exact id

/-- Six values of `w`, which is at most 3000. -/
def sameValues (w : BitVec 16) (h : w.toNat ≤ 3000) : PpmValues := ⟨w, w, w, w, w, w, by omega⟩

/-- The frame after a call. -/
def quietFrame : List PpmEvent :=
  (sameValues 1500 (by decide)).writes ++ List.replicate 7 (.pwm (.irq .tim1Up updateIrq))

theorem rightFrames_iff_quiet : ∃ s s', Stm32Pwm.boot.ppmRun (fst6Ppm.events fun _ ↦ []) = some s ∧
    s.ppmRun quietFrame = some s' ∧
    (RightFrames 0 s quietFrame ↔ BalancedFrames 0 fst6Ppm.pulses quietFrame) := by
  obtain ⟨s, hcall⟩ : ∃ s, Stm32Pwm.boot.ppmRun (fst6Ppm.events fun _ ↦ []) = some s := ⟨_, rfl⟩
  have hsending := Stm32Pwm.sending_of_call hcall
  obtain ⟨s', hrun⟩ : ∃ s', s.ppmRun quietFrame = some s' := by
    obtain rfl := Option.some_inj.mp hcall
    exact ⟨_, rfl⟩
  refine ⟨s, s', hcall, hrun, rightFrames_iff hsending rfl (fun e he ↦ ?_) hrun⟩
  rcases List.mem_append.mp he with he | he
  · exact not_assigns_writes _ he
  · rw [List.eq_of_mem_replicate he]
    exact id

/-- The second call comes after the first pulse of a frame. -/
def tornFrame : List PpmEvent :=
  .pwm (.irq .tim1Up updateIrq) :: (sameValues 1000 (by decide)).writes ++
    List.replicate 6 (.pwm (.irq .tim1Up updateIrq))

/-- A frame of one old pulse and six new ones takes 20.5 ms. -/
theorem not_rightFrames_torn : ∃ s, Stm32Pwm.boot.ppmRun (fst6Ppm.events fun _ ↦ []) = some s ∧
    ¬RightFrames 0 s ((sameValues 1500 (by decide)).writes ++ tornFrame) := by
  have hcompute : ((Stm32Pwm.boot.ppmRun (fst6Ppm.events fun _ ↦ [])).bind fun s ↦
      (s.ppmRun (sameValues 1500 (by decide)).writes).map fun u ↦
        (widths (intervals fst6Tim u tornFrame)).sum) = some 20500 := by decide +kernel
  obtain ⟨s, hs, hrest⟩ := Option.bind_eq_some_iff.mp hcompute
  obtain ⟨u, hu, hsum⟩ := Option.map_eq_some_iff.mp hrest
  refine ⟨s, hs, fun hright ↦ ?_⟩
  have hreturned : Returned (sameValues 1500 (by decide)).writes := ⟨[_], List.cons_ne_nil _ _, rfl⟩
  have hframe := hright (sameValues 1500 (by decide)).writes [] tornFrame [] u (by simp)
    ⟨hreturned, by decide, by decide⟩ (by rw [List.append_nil]; exact hu)
  rw [hsum] at hframe
  exact absurd hframe (by decide)

/-! ## Calls between two frames -/

def PpmEvent.Stores (e : PpmEvent) : Prop := ∃ i w, e.sweep fst6Tim fst6Chan = some (.store i w)

/-- Every update comes between two calls, and every assignment between two frames. -/
structure BetweenFrames (k : ℕ) (events : List PpmEvent) : Prop where
  /-- No update comes within a call. -/
  at_update : ∀ pre e post, events = pre ++ e :: post → e.IsUpdate fst6Tim →
    ∃ calls, WholeCalls pre calls
  /-- No assignment comes within a frame. -/
  at_store : ∀ pre e post, events = pre ++ e :: post → e.Stores →
    (k + updateCount fst6Tim pre) % 7 = 0

theorem stores_append (events events' : List PpmEvent) :
    stores t c (events ++ events') = stores t c events ++ stores t c events' := by
  rw [stores, sweeps_append, List.filter_append]
  rfl

theorem Returned.append {calls : List PpmValues} (h : Returned events) {rest : List PpmEvent}
    (hwhole : WholeCalls (events ++ rest) calls) : Returned (events ++ rest) := by
  refine ⟨calls, ?_, hwhole⟩
  rintro rfl
  obtain ⟨calls, hcalls, hfirst⟩ := h
  obtain ⟨v, calls, rfl⟩ := List.exists_cons_of_ne_nil hcalls
  rw [WholeCalls, stores_append, hfirst, List.flatMap_cons, List.append_assoc] at hwhole
  have hempty : sweeps fst6Tim fst6Chan v.writes = [] := (List.append_eq_nil_iff.mp hwhole).1
  exact List.cons_ne_nil _ _ hempty

/-- The first update among some events. -/
theorem exists_first_update (h : updateCount t events ≠ 0) : ∃ pre e post,
    events = pre ++ e :: post ∧ e.IsUpdate t ∧ updateCount t pre = 0 := by
  induction events with
  | nil => exact absurd rfl h
  | cons e events ih =>
    by_cases he : e.IsUpdate t
    · exact ⟨[], e, events, rfl, he, rfl⟩
    · rw [updateCount_cons, if_neg he] at h
      obtain ⟨pre, e', post, hsplit, he', hpre⟩ := ih h
      refine ⟨e :: pre, e', post, by rw [hsplit]; rfl, he', ?_⟩
      rw [updateCount_cons, if_neg he, hpre]

/-- After the first update of a frame nothing is assigned until its last one. -/
theorem BetweenFrames.late_eq_zero (h : BetweenFrames k events) {pre post after : List PpmEvent}
    {e : PpmEvent} (hsplit : events = pre ++ e :: (post ++ after)) (he : e.IsUpdate fst6Tim)
    (hboundary : (k + updateCount fst6Tim pre) % 7 = 0) {l : List ℤ} (hlength : l.length = 7) :
    Sweep.late 1 l (sweeps fst6Tim fst6Chan post) = 0 := by
  refine Sweep.late_eq_zero _ _ _ fun first i v last hpost ↦ ?_
  obtain ⟨p₁, p₂, rfl, rfl, hlast⟩ := List.filterMap_eq_append_iff.mp hpost
  obtain ⟨q₁, e', q₂, rfl, hquiet, hstore, -⟩ := List.filterMap_eq_cons_iff.mp hlast
  have hcount : updateCount fst6Tim q₁ = 0 := by
    rw [← readCount_sweeps (c := fst6Chan), sweeps, List.filterMap_eq_nil_iff.mpr hquiet]
    rfl
  have hat := h.at_store (pre ++ e :: (p₁ ++ q₁)) e' (q₂ ++ after) (by simp [hsplit]) ⟨i, v, hstore⟩
  rw [updateCount_append_list, updateCount_cons, updateCount_append_list, if_pos he, hcount] at hat
  have hreads : Sweep.readCount (List.filterMap (PpmEvent.sweep fst6Tim fst6Chan) p₁)
      = updateCount fst6Tim p₁ := readCount_sweeps p₁
  rw [hlength, hreads]
  omega

/-- **Calls that keep clear of the frames.** -/
theorem BetweenFrames.balanced (h : BetweenFrames k events) (hlength : buffer.length = 7) :
    BalancedFrames k buffer events := by
  intro before mid frame after hsplit hframe
  have hupdates : updateCount fst6Tim frame ≠ 0 := by
    rw [hframe.updates]
    decide
  obtain ⟨pre, e, post, rfl, he, hpre⟩ := exists_first_update hupdates
  have hevents : events = before ++ (mid ++ pre) ++ e :: (post ++ after) := by simp [hsplit]
  obtain ⟨calls, hwhole⟩ := h.at_update _ e _ hevents he
  -- up to the first update, the assignments are those of whole calls
  have hnoreads : Sweep.readCount
      (stores fst6Tim fst6Chan mid ++ sweeps fst6Tim fst6Chan pre) = 0 := by
    rw [Sweep.readCount_append, readCount_sweeps, hpre]
    exact Sweep.readCount_filter _
  have hwritten : Sweep.written (widths (contents fst6Tim fst6Chan buffer before))
      (stores fst6Tim fst6Chan mid ++ sweeps fst6Tim fst6Chan pre)
        = widths (contents fst6Tim fst6Chan buffer (before ++ (mid ++ pre))) := by
    rw [Sweep.written_append, ← widths_contents, written_sweeps, ← contents_append_list,
      ← contents_append_list]
  have hfirst := Sweep.late_of_no_reads hnoreads (widths (contents fst6Tim fst6Chan buffer before))
  rw [hwritten, sum_of_returned (hframe.returned.append hwhole) hlength,
    sum_of_returned hframe.returned hlength, sub_self] at hfirst
  -- and there are none in the rest of the frame
  have hboundary : (k + updateCount fst6Tim (before ++ (mid ++ pre))) % 7 = 0 := by
    rw [← List.append_assoc, updateCount_append_list, hpre]
    exact hframe.boundary
  have hsize : (widths (contents fst6Tim fst6Chan buffer (before ++ (mid ++ pre)))).length = 7 := by
    rw [widths, List.length_map, length_contents, hlength]
  have hrest := h.late_eq_zero hevents he hboundary hsize
  have hread : sweeps fst6Tim fst6Chan (pre ++ e :: post)
      = sweeps fst6Tim fst6Chan pre ++ .read :: sweeps fst6Tim fst6Chan post := by
    rw [sweeps_append]
    exact congrArg _ (List.filterMap_cons_some (sweep_of_isUpdate he))
  rw [Balanced, hread, ← List.append_assoc, Sweep.late_append, hfirst, hnoreads,
    hwritten, Sweep.late, zero_add]
  exact hrest

end Martink
