import Mathlib.Tactic

/-!
# Serial devices

`struct serial_if` of `arch/interface.h`. A device is a machine that takes calls and answers them.
`SerialIf.traced` is the same device with a record of the calls it received and of its answers, and
`SerialIf.run` is what a caller that uses the device directly gets.
-/

namespace Martink

/-- `struct serial_if`. `putn` is handed the `max_sz` bytes it is to write. `getn` is handed a
buffer of `max_sz` bytes, and returns the buffer afterwards with its count. -/
structure SerialIf (σ : Type) where
  /-- `get`: a byte, or a status above them. -/
  get : σ → σ × BitVec 16
  /-- `put`: the status. -/
  put : σ → BitVec 8 → σ × BitVec 16
  /-- `putn`: how many bytes were written. -/
  putn : σ → List (BitVec 8) → σ × ℕ
  /-- `getn`: the buffer, and how many bytes were read. -/
  getn : σ → List (BitVec 8) → σ × List (BitVec 8) × ℕ
  /-- `begin`: the status. -/
  begin : σ → σ × BitVec 16
  /-- `end`: the status. -/
  finish : σ → σ × BitVec 16
  /-- `waiting`: how many bytes wait. -/
  waiting : σ → σ × ℕ
  /-- The buffer keeps its length. -/
  length_getn : ∀ s data, (getn s data).2.1.length = data.length

/-- The calls, with what they hand over. -/
inductive SerialCall where
  | getc
  | putc (ch : BitVec 8)
  | putn (data : List (BitVec 8))
  | getn (data : List (BitVec 8))
  | begin
  | finish
  | waiting
  deriving DecidableEq

/-- The answers: a 16-bit value, a count, or a buffer with a count. -/
inductive SerialReply where
  | word (r : BitVec 16)
  | size (n : ℕ)
  | read (data : List (BitVec 8)) (n : ℕ)
  deriving DecidableEq

abbrev SerialExchange := SerialCall × SerialReply

namespace SerialIf

variable {σ : Type} (dev : SerialIf σ)

/-- The functions `serial_getc`, `serial_putc`, … -/
def answer (s : σ) : SerialCall → σ × SerialReply
  | .getc => ((dev.get s).1, .word (dev.get s).2)
  | .putc ch => ((dev.put s ch).1, .word (dev.put s ch).2)
  | .putn data => ((dev.putn s data).1, .size (dev.putn s data).2)
  | .getn data => ((dev.getn s data).1, .read (dev.getn s data).2.1 (dev.getn s data).2.2)
  | .begin => ((dev.begin s).1, .word (dev.begin s).2)
  | .finish => ((dev.finish s).1, .word (dev.finish s).2)
  | .waiting => ((dev.waiting s).1, .size (dev.waiting s).2)

/-- The device with a record of its exchanges. -/
def traced : SerialIf (σ × List SerialExchange) where
  get w := let r := dev.get w.1; ((r.1, w.2 ++ [(.getc, .word r.2)]), r.2)
  put w ch := let r := dev.put w.1 ch; ((r.1, w.2 ++ [(.putc ch, .word r.2)]), r.2)
  putn w data := let r := dev.putn w.1 data; ((r.1, w.2 ++ [(.putn data, .size r.2)]), r.2)
  getn w data :=
    let r := dev.getn w.1 data
    ((r.1, w.2 ++ [(.getn data, .read r.2.1 r.2.2)]), r.2)
  begin w := let r := dev.begin w.1; ((r.1, w.2 ++ [(.begin, .word r.2)]), r.2)
  finish w := let r := dev.finish w.1; ((r.1, w.2 ++ [(.finish, .word r.2)]), r.2)
  waiting w := let r := dev.waiting w.1; ((r.1, w.2 ++ [(.waiting, .size r.2)]), r.2)
  length_getn w data := dev.length_getn w.1 data

/-- The exchanges of a caller that makes these calls. -/
def run : σ → List SerialCall → List SerialExchange
  | _, [] => []
  | s, c :: calls => (c, (dev.answer s c).2) :: run (dev.answer s c).1 calls

/-- The device after these calls. -/
def after (s : σ) (calls : List SerialCall) : σ := calls.foldl (fun s c ↦ (dev.answer s c).1) s

theorem answer_traced (s : σ) (trace : List SerialExchange) (c : SerialCall) :
    dev.traced.answer (s, trace) c =
      (((dev.answer s c).1, trace ++ [(c, (dev.answer s c).2)]), (dev.answer s c).2) := by
  cases c <;> rfl

@[simp] theorem map_fst_run (s : σ) (calls : List SerialCall) :
    (dev.run s calls).map Prod.fst = calls := by
  induction calls generalizing s with
  | nil => rfl
  | cons c calls ih => rw [run, List.map_cons, ih]

theorem run_traced (s : σ) (trace : List SerialExchange) (calls : List SerialCall) :
    dev.traced.run (s, trace) calls = dev.run s calls := by
  induction calls generalizing s trace with
  | nil => rfl
  | cons c calls ih => rw [run, answer_traced, ih, run]

theorem after_traced (s : σ) (trace : List SerialExchange) (calls : List SerialCall) :
    dev.traced.after (s, trace) calls = (dev.after s calls, trace ++ dev.run s calls) := by
  induction calls generalizing s trace with
  | nil => rw [after, run, List.append_nil, List.foldl_nil, after, List.foldl_nil]
  | cons c calls ih =>
    rw [after, List.foldl_cons, answer_traced]
    refine (ih _ _).trans ?_
    rw [run, List.append_assoc]
    rfl

end SerialIf

end Martink
