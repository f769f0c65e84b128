import Martink.Util.SerialDebugger

/-!
# The lines of the serial debugger

Every line that a debugger prints should hold bytes of one direction, under its label, and the lines
followed by the line buffer should be the traffic of the device. This is `Faithful`. The code prints
`sent` if the last call was a read, so a line that holds bytes of earlier calls has the wrong label,
and a bulk read logs the whole buffer of the caller. `Tidy` says that a call does neither.

A call is a list of events, each of which adds a byte to the line buffer or prints it. `Tracks` is
what holds as long as every event is clean: the bytes that wait passed in the direction of the last
call. An event that is not clean leaves the lines unfaithful, and since lines and traffic only grow
nothing that follows repairs them.
-/

namespace Martink

/-! ## Traffic -/

/-- The bytes that an exchange moves: the bytes handed to a write, and those a read returned. -/
def SerialExchange.traffic : SerialExchange → List (Direction × BitVec 8)
  | (.getc, .word d) => if d ≠ serialNoData then [(.got, d.setWidth 8)] else []
  | (.putc ch, _) => [(.sent, ch)]
  | (.putn data, _) => data.map (Direction.sent, ·)
  | (.getn _, .read data n) => (data.take n).map (Direction.got, ·)
  | _ => []

/-- The bytes of a line, with its label. -/
def DebugLine.tagged (line : DebugLine) : List (Direction × BitVec 8) :=
  line.bytes.map (line.label, ·)

/-- The lines hold bytes of one direction under its label, and they and the bytes that wait are the
traffic, in order. -/
def LineLog.Faithful (l : LineLog) (traffic : List (Direction × BitVec 8)) : Prop :=
  ∃ rest, traffic = l.lines.flatMap DebugLine.tagged ++ rest ∧ rest.map Prod.snd = l.pending

/-! ## Events -/

namespace Direction

def other : Direction → Direction
  | sent => got
  | got => sent

/-- The value of `last_is_read` after a call. -/
def flag : Direction → ℕ
  | sent => 0
  | got => 1

end Direction

/-- What a handler does: it logs a byte, if one passed in that direction the one that did, or it
only prints the line buffer. -/
inductive DebugEvent where
  | log (d : Direction) (b : BitVec 8) (passed : Option (BitVec 8))
  | getNothing
  | flush

namespace DebugEvent

def seen : DebugEvent → List (BitVec 8)
  | log _ b _ => [b]
  | _ => []

def passes : DebugEvent → List (Direction × BitVec 8)
  | log d _ (some b) => [(d, b)]
  | _ => []

theorem length_passes_le (e : DebugEvent) : e.passes.length ≤ e.seen.length := by
  rcases e with ⟨d, b, _ | b'⟩ | _ | _ <;> simp [passes, seen]

end DebugEvent

namespace LineLog

/-- `put` and `get` in one. -/
def add (l : LineLog) (d : Direction) (b : BitVec 8) : LineLog :=
  { (l.push b).flushIf ((l.push b).pending.length = 16 ∨ l.last = d.other.flag) with
    last := d.flag }

theorem get_eq_add (l : LineLog) (b : BitVec 8) : l.get b = l.add .got b := rfl

def event (l : LineLog) : DebugEvent → LineLog
  | .log d b _ => l.add d b
  | .getNothing => l.getNothing
  | .flush => l.flush

/-- The bytes in the lines and in the line buffer. -/
def logged (l : LineLog) : List (BitVec 8) := l.lines.flatMap DebugLine.bytes ++ l.pending

theorem map_snd_tagged (lines : List DebugLine) :
    (lines.flatMap DebugLine.tagged).map Prod.snd = lines.flatMap DebugLine.bytes := by
  induction lines with
  | nil => rfl
  | cons line lines ih => simp [DebugLine.tagged, ih]

variable (l : LineLog)

theorem logged_flush : l.flush.logged = l.logged := by simp [logged, flush]

theorem logged_flushIf (c : Prop) [Decidable c] : (l.flushIf c).logged = l.logged := by
  rw [flushIf]
  split
  · exact l.logged_flush
  · rfl

theorem lines_prefix_flushIf (c : Prop) [Decidable c] : l.lines <+: (l.flushIf c).lines := by
  rw [flushIf]
  split
  · exact List.prefix_append _ _
  · exact List.prefix_refl _

theorem logged_event (e : DebugEvent) : (l.event e).logged = l.logged ++ e.seen := by
  cases e with
  | log d b passed =>
    exact (logged_flushIf (l.push b) _).trans (by simp [logged, push, DebugEvent.seen])
  | getNothing => exact (logged_flushIf l _).trans (List.append_nil _).symm
  | flush => exact l.logged_flush.trans (List.append_nil _).symm

theorem lines_prefix_event (e : DebugEvent) : l.lines <+: (l.event e).lines := by
  cases e with
  | log d b passed => exact lines_prefix_flushIf (l.push b) _
  | getNothing => exact lines_prefix_flushIf l _
  | flush => exact List.prefix_append _ _

/-! ## Runs of events -/

theorem logged_foldl (events : List DebugEvent) :
    (events.foldl event l).logged = l.logged ++ events.flatMap DebugEvent.seen := by
  induction events generalizing l with
  | nil => simp
  | cons e events ih => rw [List.foldl_cons, ih, logged_event, List.flatMap_cons, List.append_assoc]

theorem lines_prefix_foldl (events : List DebugEvent) :
    l.lines <+: (events.foldl event l).lines := by
  induction events generalizing l with
  | nil => exact List.prefix_refl _
  | cons e events ih => exact (l.lines_prefix_event e).trans (ih _)

theorem length_passes_le (events : List DebugEvent) :
    (events.flatMap DebugEvent.passes).length ≤ (events.flatMap DebugEvent.seen).length := by
  induction events with
  | nil => rfl
  | cons e events ih =>
    have h := e.length_passes_le
    simp only [List.flatMap_cons, List.length_append]
    omega

variable {l} {t : List (Direction × BitVec 8)}

/-- **No repair.** What is faithful after a run of events was so before it. -/
theorem Faithful.of_foldl {events : List DebugEvent} (hlen : t.length ≤ l.logged.length)
    (h : (events.foldl event l).Faithful (t ++ events.flatMap DebugEvent.passes)) :
    l.Faithful t := by
  obtain ⟨rest, htraffic, hrest⟩ := h
  have hseen := congrArg (List.map Prod.snd) htraffic
  rw [List.map_append, List.map_append, map_snd_tagged, hrest, ← logged, logged_foldl] at hseen
  have hpasses := length_passes_le events
  have hlengths := congrArg List.length hseen
  simp only [List.length_append, List.length_map] at hlengths
  obtain ⟨hlogged, -⟩ := List.append_inj hseen (by rw [List.length_map]; omega)
  -- the lines so far are a prefix of the traffic so far
  have hpre : l.lines.flatMap DebugLine.tagged <+: t := by
    obtain ⟨more, hmore⟩ := l.lines_prefix_foldl events
    rw [← hmore, List.flatMap_append, List.append_assoc] at htraffic
    refine List.prefix_of_prefix_length_le ⟨_, htraffic.symm⟩ (List.prefix_append t _) ?_
    have hlines := congrArg List.length (map_snd_tagged l.lines)
    have hall := congrArg List.length hlogged
    rw [logged, List.length_append] at hall
    rw [List.length_map] at hlines hall
    omega
  obtain ⟨rest₀, rfl⟩ := hpre
  refine ⟨rest₀, rfl, ?_⟩
  rw [List.map_append, map_snd_tagged, logged] at hlogged
  exact List.append_cancel_left hlogged

/-! ## Clean events -/

/-- The bytes that wait have passed in the direction of the last call, and there is room for
more. -/
structure Tracks (l : LineLog) (t : List (Direction × BitVec 8)) (d : Direction) : Prop where
  /-- There is room for one more. -/
  length_lt : l.pending.length < 16
  /-- Their direction is that of the last call. -/
  last : l.pending = [] ∨ l.last = d.flag
  /-- The lines and these bytes are all that has passed. -/
  traffic : t = l.lines.flatMap DebugLine.tagged ++ l.pending.map (d, ·)

/-- The event logs what passed, and prints no line that holds bytes of earlier calls. -/
def Clean (l : LineLog) : DebugEvent → Prop
  | .log d b passed =>
    passed = some b ∧ if l.last = d.other.flag then l.pending = [] else l.pending.length < 15
  | .getNothing => l.last = 0 → l.pending = []
  | .flush => l.pending = []

variable {d : Direction}

theorem Tracks.faithful (h : l.Tracks t d) : l.Faithful t :=
  ⟨_, h.traffic, by simp⟩

theorem Tracks.length_eq (h : l.Tracks t d) : t.length = l.logged.length := by
  have hlines := congrArg List.length (map_snd_tagged l.lines)
  rw [List.length_map] at hlines
  rw [h.traffic, logged, List.length_append, List.length_append, List.length_map, hlines]

/-- Printing bytes that wait gives them the label of the other direction. -/
theorem Tracks.label_ne (h : l.Tracks t d) (hpending : l.pending ≠ []) : l.label ≠ d := by
  have hlast := h.last.resolve_left hpending
  rw [label, hlast]
  cases d <;> decide

theorem Tracks.faithful_push_iff (h : l.Tracks t d) (b : BitVec 8)
    (p : List (Direction × BitVec 8)) : (l.push b).Faithful (t ++ p) ↔ p.map Prod.snd = [b] := by
  constructor
  · rintro ⟨rest, htraffic, hrest⟩
    rw [h.traffic, List.append_assoc] at htraffic
    have hp := congrArg (List.map Prod.snd) (List.append_cancel_left htraffic)
    rw [hrest] at hp
    simpa [push, Function.comp_def] using hp
  · intro hp
    refine ⟨l.pending.map (d, ·) ++ p, by rw [h.traffic, List.append_assoc]; rfl, ?_⟩
    simp [hp, push, Function.comp_def]

theorem Tracks.faithful_push_flush_iff (h : l.Tracks t d) (b : BitVec 8)
    (p : List (Direction × BitVec 8)) :
    (l.push b).flush.Faithful (t ++ p) ↔ l.pending = [] ∧ p = [(l.label, b)] := by
  have hlines : (l.push b).flush.lines.flatMap DebugLine.tagged =
      l.lines.flatMap DebugLine.tagged ++ (l.pending.map (l.label, ·) ++ [(l.label, b)]) := by
    have hlabel : (l.push b).label = l.label := rfl
    simp only [flush, hlabel]
    simp [push, DebugLine.tagged]
  constructor
  · rintro ⟨rest, htraffic, hrest⟩
    obtain rfl := List.map_eq_nil_iff.mp hrest
    rw [hlines, h.traffic, List.append_nil, List.append_assoc] at htraffic
    obtain ⟨hwaited, hp⟩ := List.append_inj (List.append_cancel_left htraffic) (by simp)
    refine ⟨?_, hp⟩
    by_contra hpending
    obtain ⟨x, hx⟩ := List.exists_mem_of_ne_nil _ hpending
    have hpair := List.map_inj_left.mp hwaited x hx
    exact h.label_ne hpending (congrArg Prod.fst hpair).symm
  · rintro ⟨hpending, rfl⟩
    refine ⟨[], ?_, rfl⟩
    rw [hlines, h.traffic, hpending]
    simp

theorem Tracks.faithful_flush_iff (h : l.Tracks t d) : l.flush.Faithful t ↔ l.pending = [] := by
  have hlines : l.flush.lines.flatMap DebugLine.tagged =
      l.lines.flatMap DebugLine.tagged ++ l.pending.map (l.label, ·) := by
    simp [flush, DebugLine.tagged]
  constructor
  · rintro ⟨rest, htraffic, hrest⟩
    obtain rfl := List.map_eq_nil_iff.mp hrest
    rw [hlines, h.traffic, List.append_nil] at htraffic
    have hwaited := List.append_cancel_left htraffic
    by_contra hpending
    obtain ⟨x, hx⟩ := List.exists_mem_of_ne_nil _ hpending
    have hpair := List.map_inj_left.mp hwaited x hx
    exact h.label_ne hpending (congrArg Prod.fst hpair).symm
  · intro hpending
    refine ⟨[], ?_, rfl⟩
    rw [hlines, h.traffic, hpending]
    simp

/-- Only the other direction's label names this one. -/
theorem label_eq_of_last {l : LineLog} {d : Direction} (h : l.last = d.other.flag) :
    l.label = d := by
  rw [label, h]
  cases d <;> rfl

theorem passes_log_eq_iff {d : Direction} {b : BitVec 8} {passed : Option (BitVec 8)} :
    (DebugEvent.log d b passed).passes = [(d, b)] ↔ passed = some b := by
  cases passed <;> simp [DebugEvent.passes]

theorem map_snd_passes_log_eq_iff {d : Direction} {b : BitVec 8} {passed : Option (BitVec 8)} :
    (DebugEvent.log d b passed).passes.map Prod.snd = [b] ↔ passed = some b := by
  cases passed <;> simp [DebugEvent.passes]

theorem Tracks.faithful_add_iff (h : l.Tracks t d) (d' : Direction) (b : BitVec 8)
    (passed : Option (BitVec 8)) :
    (l.add d' b).Faithful (t ++ (DebugEvent.log d' b passed).passes) ↔
      l.Clean (.log d' b passed) := by
  have hlength : (l.push b).pending.length = l.pending.length + 1 := by simp [push]
  have hlt := h.length_lt
  rw [Clean]
  by_cases hlast : l.last = d'.other.flag
  · -- the direction has changed, and the line is printed
    have hadd : l.add d' b = { (l.push b).flush with last := d'.flag } := by
      rw [add, flushIf, if_pos (.inr hlast)]
    rw [hadd, if_pos hlast]
    refine (h.faithful_push_flush_iff b _).trans ?_
    rw [label_eq_of_last hlast, passes_log_eq_iff, and_comm]
  · rw [if_neg hlast]
    by_cases hfull : l.pending.length = 15
    · -- the line is full and gets the wrong label
      have hadd : l.add d' b = { (l.push b).flush with last := d'.flag } := by
        rw [add, flushIf, if_pos (.inl (by omega))]
      rw [hadd]
      refine (h.faithful_push_flush_iff b _).trans ?_
      rw [← List.length_eq_zero_iff]
      omega
    · have hadd : l.add d' b = { l.push b with last := d'.flag } := by
        rw [add, flushIf, if_neg (not_or.mpr ⟨by omega, hlast⟩)]
      rw [hadd]
      refine (h.faithful_push_iff b _).trans ?_
      rw [map_snd_passes_log_eq_iff]
      exact (and_iff_left (by omega)).symm

theorem Tracks.faithful_event_iff (h : l.Tracks t d) (e : DebugEvent) :
    (l.event e).Faithful (t ++ e.passes) ↔ l.Clean e := by
  cases e with
  | log d' b passed => exact h.faithful_add_iff d' b passed
  | getNothing =>
    change l.getNothing.Faithful (t ++ []) ↔ (l.last = 0 → l.pending = [])
    rw [List.append_nil, getNothing, flushIf]
    split
    · rw [forall_prop_of_true ‹_›]
      exact h.faithful_flush_iff
    · exact iff_of_true h.faithful fun hlast ↦ absurd hlast ‹_›
  | flush =>
    change l.flush.Faithful (t ++ []) ↔ _
    rw [List.append_nil]
    exact h.faithful_flush_iff

theorem add_of_changed {b : BitVec 8} (hlast : l.last = d.other.flag) (hpending : l.pending = []) :
    l.add d b = ⟨l.lines ++ [⟨d, [b]⟩], [], d.flag⟩ := by
  have hlabel : (l.push b).label = d := label_eq_of_last hlast
  rw [add, flushIf, if_pos (.inr hlast), flush, hlabel]
  simp [push, hpending]

theorem add_of_lt {b : BitVec 8} (hlast : l.last ≠ d.other.flag) (hlt : l.pending.length < 15) :
    l.add d b = ⟨l.lines, l.pending ++ [b], d.flag⟩ := by
  have hlength : (l.push b).pending.length = l.pending.length + 1 := by simp [push]
  rw [add, flushIf, if_neg (not_or.mpr ⟨by omega, hlast⟩)]
  rfl

/-- Unless the last call was one of the other direction, the bytes that wait have this one. -/
theorem Tracks.map_eq (h : l.Tracks t d) (d' : Direction) (hlast : l.last ≠ d'.other.flag) :
    l.pending.map (d, ·) = l.pending.map (d', ·) := by
  rcases h.last with hpending | hflag
  · rw [hpending, List.map_nil, List.map_nil]
  · rw [hflag] at hlast
    have hd : d = d' := by
      revert hlast
      cases d <;> cases d' <;> decide
    rw [hd]

theorem Tracks.event (h : l.Tracks t d) {e : DebugEvent} (he : l.Clean e) :
    ∃ d', (l.event e).Tracks (t ++ e.passes) d' := by
  cases e with
  | log d' b passed =>
    obtain ⟨rfl, hclean⟩ := he
    refine ⟨d', ?_⟩
    change (l.add d' b).Tracks (t ++ [(d', b)]) d'
    by_cases hlast : l.last = d'.other.flag
    · rw [if_pos hlast] at hclean
      rw [add_of_changed hlast hclean]
      exact ⟨Nat.succ_pos 15, .inl rfl, by simp [h.traffic, hclean, DebugLine.tagged]⟩
    · rw [if_neg hlast] at hclean
      rw [add_of_lt hlast hclean]
      refine ⟨?_, .inr rfl, ?_⟩
      · rw [List.length_append, List.length_singleton]
        omega
      · rw [h.traffic, h.map_eq _ hlast, List.append_assoc, List.map_append]
        rfl
  | getNothing =>
    refine ⟨.got, ?_⟩
    change l.getNothing.Tracks (t ++ []) .got
    rw [List.append_nil, getNothing, flushIf]
    by_cases hlast : l.last = 0
    · have hpending := he hlast
      rw [if_pos hlast]
      exact ⟨Nat.succ_pos 15, .inl rfl, by simp [h.traffic, flush, hpending, DebugLine.tagged]⟩
    · rw [if_neg hlast]
      exact ⟨h.length_lt, .inr rfl, h.traffic.trans (by rw [h.map_eq .got hlast])⟩
  | flush =>
    have hpending : l.pending = [] := he
    refine ⟨d, ?_⟩
    change l.flush.Tracks (t ++ []) d
    exact ⟨Nat.succ_pos 15, .inl rfl, by simp [h.traffic, flush, hpending, DebugLine.tagged]⟩

/-- Every event of the list is clean when its turn comes. -/
def CleanRun (l : LineLog) : List DebugEvent → Prop
  | [] => True
  | e :: events => l.Clean e ∧ CleanRun (l.event e) events

theorem cleanRun_append (events events' : List DebugEvent) :
    l.CleanRun (events ++ events') ↔
      l.CleanRun events ∧ (events.foldl LineLog.event l).CleanRun events' := by
  induction events generalizing l with
  | nil => exact (iff_of_eq (true_and _)).symm
  | cons e events ih => rw [List.cons_append, CleanRun, ih, CleanRun, and_assoc, List.foldl_cons]

/-- **Runs.** The lines are faithful after a run of events if and only if each of them is clean. -/
theorem Tracks.faithful_foldl_iff (h : l.Tracks t d) (events : List DebugEvent) :
    (events.foldl LineLog.event l).Faithful (t ++ events.flatMap DebugEvent.passes) ↔
      l.CleanRun events := by
  induction events generalizing l t d with
  | nil => exact iff_of_true (by simpa using h.faithful) trivial
  | cons e events ih =>
    rw [List.foldl_cons, List.flatMap_cons, ← List.append_assoc, CleanRun]
    constructor
    · intro hfaithful
      have hlength : (t ++ e.passes).length ≤ (l.event e).logged.length := by
        have hpasses := e.length_passes_le
        rw [logged_event, List.length_append, List.length_append, h.length_eq]
        omega
      have hclean := (h.faithful_event_iff e).mp (hfaithful.of_foldl hlength)
      obtain ⟨d', h'⟩ := h.event hclean
      exact ⟨hclean, (ih h').mp hfaithful⟩
    · rintro ⟨hclean, hrest⟩
      obtain ⟨d', h'⟩ := h.event hclean
      exact (ih h').mpr hrest

/-! ## Bulk transfers -/

/-- The events that log a list of bytes, each with the one that passed. -/
def logs (d : Direction) (ps : List (BitVec 8 × Option (BitVec 8))) : List DebugEvent :=
  ps.map fun p ↦ .log d p.1 p.2

theorem foldl_logs (d : Direction) (ps : List (BitVec 8 × Option (BitVec 8))) :
    (logs d ps).foldl LineLog.event l = (ps.map Prod.fst).foldl (fun l b ↦ l.add d b) l := by
  rw [logs, List.foldl_map, List.foldl_map]
  rfl

/-- Without a change of direction, everything has to fit into the line. -/
theorem cleanRun_logs_of_last_ne (ps : List (BitVec 8 × Option (BitVec 8))) :
    ∀ {l : LineLog}, l.last ≠ d.other.flag → l.pending.length < 16 →
      (l.CleanRun (logs d ps) ↔
        (∀ p ∈ ps, p.2 = some p.1) ∧ l.pending.length + ps.length ≤ 15) := by
  induction ps with
  | nil =>
    intro l _ hlt
    exact iff_of_true trivial ⟨by simp, by simpa using Nat.le_of_lt_succ hlt⟩
  | cons p ps ih =>
    intro l hlast hlt
    have hflag : d.flag ≠ d.other.flag := by cases d <;> decide
    rw [logs, List.map_cons, CleanRun, ← logs, Clean, if_neg hlast, List.forall_mem_cons,
      List.length_cons]
    by_cases hroom : l.pending.length < 15
    · have hlength : (l.pending ++ [p.1]).length = l.pending.length + 1 := by simp
      rw [event, add_of_lt hlast hroom, ih hflag (by rw [hlength]; omega), hlength]
      simp only [hroom, and_true, and_assoc]
      rw [Nat.add_assoc, Nat.add_comm 1]
    · constructor
      · exact fun h ↦ absurd h.1.2 hroom
      · exact fun h ↦ absurd h.2 (by omega)

theorem cleanRun_logs_iff (ps : List (BitVec 8 × Option (BitVec 8))) (hlt : l.pending.length < 16) :
    l.CleanRun (logs d ps) ↔ (∀ p ∈ ps, p.2 = some p.1) ∧
      (ps.length = 0 ∨ if l.last = d.other.flag then l.pending.length = 0 ∧ ps.length ≤ 16
        else l.pending.length + ps.length ≤ 15) := by
  by_cases hlast : l.last = d.other.flag
  · rw [if_pos hlast]
    cases ps with
    | nil => exact iff_of_true trivial ⟨by simp, .inl rfl⟩
    | cons p ps =>
      have hflag : d.flag ≠ d.other.flag := by cases d <;> decide
      rw [logs, List.map_cons, CleanRun, ← logs, Clean, if_pos hlast, List.forall_mem_cons,
        List.length_cons, List.length_eq_zero_iff]
      by_cases hpending : l.pending = []
      · have hrest := cleanRun_logs_of_last_ne (d := d) ps
          (l := ⟨l.lines ++ [⟨d, [p.1]⟩], [], d.flag⟩) hflag (Nat.succ_pos 15)
        rw [event, add_of_changed hlast hpending, hrest]
        have hle : ps.length + 1 ≤ 16 ↔ ps.length ≤ 15 := by omega
        simp [hpending, hle, and_assoc]
      · simp [hpending]
  · rw [if_neg hlast, cleanRun_logs_of_last_ne ps hlast hlt]
    refine and_congr_right fun _ ↦ ?_
    omega

end LineLog

/-! ## Calls -/

/-- What the handlers do when a call gets the answer `r` from the device. -/
def DebuggerCall.events (r : SerialReply) : DebuggerCall → List DebugEvent
  | getc =>
    match r with
    | .word d =>
      if d ≠ serialNoData then LineLog.logs .got [(d.setWidth 8, some (d.setWidth 8))]
      else [.getNothing]
    | _ => []
  | putc ch => LineLog.logs .sent [(ch, some ch)]
  | putn data maxSz =>
    LineLog.logs .sent ((data.bytes maxSz).zip (((data.add maxSz).bytes maxSz).map some))
  | getn _ =>
    match r with
    | .read data n =>
      LineLog.logs .got ((data.take n).map (fun b ↦ (b, some b)) ++ (data.drop n).map (·, none))
    | _ => []
  | finish => [.flush]
  | begin | waiting => []

theorem DebuggerCall.logged_eq_foldl (c : DebuggerCall) (l : LineLog) (r : SerialReply) :
    c.logged l r = (c.events r).foldl LineLog.event l := by
  cases c with
  | getc =>
    cases r with
    | word d =>
      by_cases hd : d = serialNoData <;> simp [logged, events, hd, LineLog.logs, LineLog.event,
        LineLog.get_eq_add]
    | size n => rfl
    | read data n => rfl
  | putc ch => rfl
  | putn data maxSz =>
    rw [events, LineLog.foldl_logs, List.map_fst_zip (by simp)]
    rfl
  | getn data =>
    cases r with
    | word d => rfl
    | size n => rfl
    | read data n =>
      have hbytes : ((data.take n).map (fun b ↦ (b, some b)) ++
          (data.drop n).map (·, none)).map Prod.fst = data := by
        simp [Function.comp_def]
      rw [events, LineLog.foldl_logs, hbytes]
      rfl
  | begin => rfl
  | finish => rfl
  | waiting => rfl

theorem flatMap_passes_logs (d : Direction) (ps : List (BitVec 8 × Option (BitVec 8))) :
    (LineLog.logs d ps).flatMap DebugEvent.passes = (ps.filterMap Prod.snd).map (d, ·) := by
  induction ps with
  | nil => rfl
  | cons p ps ih =>
    rw [LineLog.logs, List.map_cons, List.flatMap_cons, ← LineLog.logs, ih]
    rcases p with ⟨b, _ | b'⟩ <;> simp [DebugEvent.passes]

/-- The traffic of a call is what passes in its events. -/
theorem DebuggerCall.traffic_eq_flatMap (c : DebuggerCall) (r : SerialReply) :
    SerialExchange.traffic (c.forwarded, r) = (c.events r).flatMap DebugEvent.passes := by
  cases c with
  | getc =>
    cases r with
    | word d =>
      by_cases hd : d = serialNoData <;>
        simp [forwarded, direct, SerialExchange.traffic, events, hd,
        flatMap_passes_logs, DebugEvent.passes]
    | size n => rfl
    | read data n => rfl
  | putc ch => cases r <;> rfl
  | putn data maxSz =>
    have hpassed : ((data.bytes maxSz).zip (((data.add maxSz).bytes maxSz).map some)).filterMap
        Prod.snd = (data.add maxSz).bytes maxSz := by
      rw [show (Prod.snd : BitVec 8 × Option (BitVec 8) → _) = id ∘ Prod.snd from rfl,
        ← List.filterMap_map, List.map_snd_zip (by simp), List.filterMap_map]
      exact List.filterMap_some
    rw [events, flatMap_passes_logs, hpassed]
    cases r <;> rfl
  | getn data =>
    cases r with
    | word d => rfl
    | size n => rfl
    | read data n =>
      have hpassed : ((data.take n).map (fun b ↦ (b, some b)) ++
          (data.drop n).map (·, none)).filterMap Prod.snd = data.take n := by
        rw [List.filterMap_append, List.filterMap_map, List.filterMap_map]
        simp
      rw [events, flatMap_passes_logs, hpassed]
      rfl
  | begin => cases r <;> rfl
  | finish => cases r <;> rfl
  | waiting => cases r <;> rfl

namespace SerialDebugger

/-- The bytes of a call in one direction can be logged without printing bytes of earlier calls. -/
def Fits (dbg : SerialDebugger) (d : Direction) (n : ℕ) : Prop :=
  n = 0 ∨ if dbg.lastIsRead = d.other.flag then dbg.bufPtr = 0 ∧ n ≤ 16 else dbg.bufPtr + n ≤ 15

/-- The call logs the bytes that pass, and prints no line that holds bytes of earlier calls. The
bytes behind a buffer that is written have to repeat it, a bulk read has to fill the buffer, and
nothing may wait when the transaction ends. -/
def Tidy (dbg : SerialDebugger) (r : SerialReply) : DebuggerCall → Prop
  | .getc =>
    match r with
    | .word d => if d ≠ serialNoData then dbg.Fits .got 1 else dbg.lastIsRead = 0 → dbg.bufPtr = 0
    | _ => True
  | .putc _ => dbg.Fits .sent 1
  | .putn data maxSz =>
    (data.add maxSz).bytes maxSz = data.bytes maxSz ∧ dbg.Fits .sent maxSz
  | .getn _ =>
    match r with
    | .read data n => data.length ≤ n ∧ dbg.Fits .got data.length
    | _ => True
  | .finish => dbg.bufPtr = 0
  | .begin => True
  | .waiting => True

variable {dbg : SerialDebugger}

theorem cleanRun_log_iff (h : dbg.bufPtr < 16) (d : Direction)
    (ps : List (BitVec 8 × Option (BitVec 8))) :
    dbg.log.CleanRun (LineLog.logs d ps) ↔ (∀ p ∈ ps, p.2 = some p.1) ∧ dbg.Fits d ps.length := by
  have hlength : dbg.log.pending.length = dbg.bufPtr := length_buffered h.le
  rw [LineLog.cleanRun_logs_iff ps (by omega), hlength]
  rfl

theorem last_log : dbg.log.last = dbg.lastIsRead := rfl

theorem pending_eq_nil_iff (h : dbg.bufPtr < 16) : dbg.log.pending = [] ↔ dbg.bufPtr = 0 := by
  rw [← List.length_eq_zero_iff, show dbg.log.pending.length = dbg.bufPtr from length_buffered h.le]

theorem cleanRun_events_iff (h : dbg.bufPtr < 16) (c : DebuggerCall) (r : SerialReply) :
    dbg.log.CleanRun (c.events r) ↔ dbg.Tidy r c := by
  cases c with
  | getc =>
    cases r with
    | word d =>
      by_cases hd : d = serialNoData
      · simp [DebuggerCall.events, Tidy, hd, LineLog.CleanRun, LineLog.Clean,
          pending_eq_nil_iff h, last_log]
      · simp [DebuggerCall.events, Tidy, hd, cleanRun_log_iff h]
    | size n => rfl
    | read data n => rfl
  | putc ch => simp [DebuggerCall.events, Tidy, cleanRun_log_iff h]
  | putn data maxSz =>
    have hall : (∀ p ∈ (data.bytes maxSz).zip (((data.add maxSz).bytes maxSz).map some),
        p.2 = some p.1) ↔ (data.add maxSz).bytes maxSz = data.bytes maxSz := by
      rw [← List.map_inj_left, List.map_snd_zip (by simp),
        show (fun p : BitVec 8 × Option (BitVec 8) ↦ some p.1) = some ∘ Prod.fst from rfl,
        ← List.map_map, List.map_fst_zip (by simp)]
      exact List.map_inj_right fun x y ↦ Option.some.inj
    have hlength : ((data.bytes maxSz).zip (((data.add maxSz).bytes maxSz).map some)).length =
        maxSz := by simp
    rw [DebuggerCall.events, cleanRun_log_iff h, hall, hlength, Tidy]
  | getn data =>
    cases r with
    | word d => rfl
    | size n => rfl
    | read data n =>
      have hall : (∀ p ∈ (data.take n).map (fun b ↦ (b, some b)) ++ (data.drop n).map (·, none),
          p.2 = some p.1) ↔ data.length ≤ n := by
        rw [List.forall_mem_append, List.forall_mem_map, List.forall_mem_map,
          ← List.drop_eq_nil_iff, List.eq_nil_iff_forall_not_mem]
        simp
      have hlength : ((data.take n).map (fun b ↦ (b, some b)) ++
          (data.drop n).map (·, none)).length = data.length := by
        rw [List.length_append, List.length_map, List.length_map, ← List.length_append,
          List.take_append_drop]
      rw [DebuggerCall.events, cleanRun_log_iff h, hall, hlength, Tidy]
  | begin => rfl
  | finish => simp [DebuggerCall.events, Tidy, LineLog.CleanRun, LineLog.Clean,
      pending_eq_nil_iff h]
  | waiting => rfl

/-! ## Runs -/

variable {σ : Type} (device : SerialIf σ)

/-- Every call of the run is tidy when its turn comes. -/
def TidyRun (w : SerialDebugger × σ) : List DebuggerCall → Prop
  | [] => True
  | c :: calls =>
    w.1.Tidy (device.answer w.2 c.forwarded).2 c ∧
      match call device w c with
      | some (w', _) => TidyRun w' calls
      | none => False

/-- The events of a run. -/
def eventsRun (calls : List DebuggerCall) (exchanges : List SerialExchange) : List DebugEvent :=
  (calls.zip exchanges).flatMap fun p ↦ p.1.events p.2.2

theorem loggedRun_eq_foldl (l : LineLog) (calls : List DebuggerCall)
    (exchanges : List SerialExchange) :
    loggedRun l calls exchanges = (eventsRun calls exchanges).foldl LineLog.event l := by
  rw [loggedRun, eventsRun, List.foldl_flatMap]
  congr 1
  funext l p
  exact p.1.logged_eq_foldl l p.2.2

theorem traffic_run_eq_flatMap (calls : List DebuggerCall) (s : σ) :
    (device.run s (calls.map DebuggerCall.forwarded)).flatMap SerialExchange.traffic =
      (eventsRun calls (device.run s (calls.map DebuggerCall.forwarded))).flatMap
        DebugEvent.passes := by
  induction calls generalizing s with
  | nil => rfl
  | cons c calls ih =>
    rw [List.map_cons, SerialIf.run, List.flatMap_cons, ih, c.traffic_eq_flatMap, eventsRun,
      eventsRun, List.zip_cons_cons, List.flatMap_cons, List.flatMap_append]

theorem cleanRun_eventsRun_iff (calls : List DebuggerCall) : ∀ {dbg : SerialDebugger} (s : σ),
    dbg.bufPtr < 16 →
    (dbg.log.CleanRun (eventsRun calls (device.run s (calls.map DebuggerCall.forwarded))) ↔
      TidyRun device (dbg, s) calls) := by
  induction calls with
  | nil => exact fun s h ↦ Iff.rfl
  | cons c calls ih =>
    intro dbg s h
    obtain ⟨dbg', hcall, hlt, hlog⟩ := call_spec device h s c
    rw [List.map_cons, SerialIf.run, eventsRun, List.zip_cons_cons, List.flatMap_cons,
      LineLog.cleanRun_append, ← c.logged_eq_foldl, ← hlog, cleanRun_events_iff h, TidyRun, hcall]
    exact and_congr_right fun _ ↦ ih _ hlt

/-- **The lines of a run.** Whatever is called, no byte is stored outside the line buffer. The lines
are faithful to the traffic of the device if and only if every call of the run is tidy. -/
theorem serialDebugger_faithful_iff (buffer : Vector (BitVec 8) 16) (s : σ)
    (calls : List DebuggerCall) :
    ∃ dbg s' trace replies,
      runCalls device.traced (serialDebuggerInit buffer, (s, [])) calls =
        some ((dbg, (s', trace)), replies) ∧
      dbg.bufPtr < 16 ∧
      (dbg.log.Faithful (trace.flatMap SerialExchange.traffic) ↔
        TidyRun device (serialDebuggerInit buffer, s) calls) := by
  have hinit : (serialDebuggerInit buffer).bufPtr < 16 := Nat.succ_pos 15
  obtain ⟨dbg, hrun, hlt, hlog⟩ := runCalls_spec device.traced calls (s, []) hinit
  rw [SerialIf.after_traced, SerialIf.run_traced, List.nil_append] at hrun
  rw [SerialIf.run_traced, loggedRun_eq_foldl] at hlog
  refine ⟨dbg, _, _, _, hrun, hlt, ?_⟩
  have hstart : (serialDebuggerInit buffer).log.Tracks [] .sent :=
    ⟨Nat.succ_pos 15, .inl rfl, rfl⟩
  rw [hlog, traffic_run_eq_flatMap, ← cleanRun_eventsRun_iff device calls s hinit]
  exact hstart.faithful_foldl_iff _

/-- A byte that was written is printed as `got : 41 A`. -/
theorem sent_byte_printed_as_got :
    ∃ dbg s' trace replies,
      runCalls silentSerial.traced (serialDebuggerInit (Vector.replicate 16 0), ((), []))
        [.putc 0x41, .finish] = some ((dbg, (s', trace)), replies) ∧
      trace.flatMap SerialExchange.traffic = [(.sent, 0x41)] ∧
      dbg.printed.map lineText = ["got : 41 A \n".toList] ∧
      ¬dbg.log.Faithful (trace.flatMap SerialExchange.traffic) := by
  refine ⟨_, _, _, _, rfl, rfl, by decide, ?_⟩
  rintro ⟨rest, htraffic, -⟩
  have hlabel : (Direction.sent, (0x41 : BitVec 8)) = (Direction.got, 0x41) :=
    (List.cons.inj htraffic).1
  exact absurd hlabel (by decide)

end SerialDebugger

end Martink
