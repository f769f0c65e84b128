import Martink.Arch.Serial
import Martink.Arch.UartRx

/-!
# The serial debugger

`util/serial_debugger.c`. A serial debugger stands between a caller and a serial device: it forwards
the calls, and prints the bytes that pass. It collects up to 16 bytes in a line buffer and prints
them as one line. A store past the end of the line buffer is undefined, and ends in `none`.

The functions are given the device as an arbitrary `SerialIf`. The caller of `putn` hands over a
pointer, so that it can be advanced past the end of what the caller wrote there.
-/

namespace Martink

/-! ## Pointers to bytes -/

structure BytePtr where
  /-- The bytes of the memory. -/
  mem : ℕ → BitVec 8
  /-- Where it points. -/
  addr : ℕ

namespace BytePtr

def read (p : BytePtr) : BitVec 8 := p.mem p.addr

def next (p : BytePtr) : BytePtr := { p with addr := p.addr + 1 }

def add (p : BytePtr) (n : ℕ) : BytePtr := { p with addr := p.addr + n }

/-- The first `n` bytes behind a pointer. -/
def bytes (p : BytePtr) : ℕ → List (BitVec 8)
  | 0 => []
  | n + 1 => p.read :: p.next.bytes n

@[simp] theorem length_bytes (p : BytePtr) (n : ℕ) : (p.bytes n).length = n := by
  induction n generalizing p with
  | zero => rfl
  | succ n ih => rw [bytes, List.length_cons, ih]

theorem next_add (p : BytePtr) (n : ℕ) : p.next.add n = p.add (n + 1) := by
  rw [add, add, next, Nat.add_assoc, Nat.add_comm 1 n]

end BytePtr

/-! ## State -/

/-- The direction in which a byte passes, and the label of a line. -/
inductive Direction where
  | sent
  | got
  deriving DecidableEq

structure DebugLine where
  /-- The word in front of the bytes. -/
  label : Direction
  /-- The bytes. -/
  bytes : List (BitVec 8)
  deriving DecidableEq

/-- `struct serial_debugger`, with the lines that were printed. -/
structure SerialDebugger where
  /-- The bytes that wait to be printed. -/
  buffer : Vector (BitVec 8) 16
  /-- How many wait. -/
  bufPtr : ℕ
  /-- Whether they were read. -/
  lastIsRead : ℕ
  /-- The lines. -/
  printed : List DebugLine

namespace SerialDebugger

def serialDebuggerInit (buffer : Vector (BitVec 8) 16) : SerialDebugger where
  buffer := buffer
  bufPtr := 0
  lastIsRead := 2
  printed := []

/-- The bytes that wait in the line buffer. -/
def buffered (dbg : SerialDebugger) : List (BitVec 8) := dbg.buffer.toList.take dbg.bufPtr

/-! ## The text of a line -/

def hexDigit (n : ℕ) : Char := if n < 10 then Char.ofNat (48 + n) else Char.ofNat (87 + n)

/-- The format `%02x `. -/
def hexText (i : BitVec 8) : List Char := [hexDigit (i.toNat / 16), hexDigit (i.toNat % 16), ' ']

/-- The format `%c ` with a dot for what is not printed. -/
def charText (i : BitVec 8) : List Char :=
  [if 0x20 < i.toNat ∧ i.toNat < 0x70 then Char.ofNat i.toNat else '.', ' ']

def labelText : Direction → List Char
  | .sent => "sent: ".toList
  | .got => "got : ".toList

/-- What `_do_flush` prints. -/
def lineText (line : DebugLine) : List Char :=
  labelText line.label ++ line.bytes.flatMap hexText ++ line.bytes.flatMap charText ++ ['\n']

/-! ## The handlers -/

def doFlush (dbg : SerialDebugger) : SerialDebugger :=
  { dbg with
    printed := dbg.printed ++ [⟨if dbg.lastIsRead = 1 then .sent else .got, dbg.buffered⟩]
    bufPtr := 0 }

/-- `dbg->buffer[dbg->buf_ptr++] = ch` -/
def store (dbg : SerialDebugger) (ch : BitVec 8) : Option SerialDebugger :=
  if h : dbg.bufPtr < 16 then
    some { dbg with buffer := dbg.buffer.set dbg.bufPtr ch h, bufPtr := dbg.bufPtr + 1 }
  else none

def onPut (dbg : SerialDebugger) (ch : BitVec 8) : Option SerialDebugger := do
  let dbg ← dbg.store ch
  let dbg := if dbg.bufPtr = 16 ∨ dbg.lastIsRead = 1 then dbg.doFlush else dbg
  some { dbg with lastIsRead := 0 }

def onGet (dbg : SerialDebugger) (ch : BitVec 16) : Option SerialDebugger := do
  let dbg ← if ch ≠ serialNoData then dbg.store (ch.setWidth 8) else some dbg
  let dbg := if dbg.bufPtr = 16 ∨ dbg.lastIsRead = 0 then dbg.doFlush else dbg
  some { dbg with lastIsRead := 1 }

/-- The loop of `serial_debugger_putn`, which advances `data`. -/
def onPutn : ℕ → SerialDebugger → BytePtr → Option (SerialDebugger × BytePtr)
  | 0, dbg, data => some (dbg, data)
  | maxSz + 1, dbg, data => do
    let dbg ← dbg.onPut data.read
    onPutn maxSz dbg data.next

/-! ## The interface -/

section Interface

variable {σ : Type} (device : SerialIf σ)

def serialDebuggerGetc (dbg : SerialDebugger) (s : σ) :
    Option ((SerialDebugger × σ) × BitVec 16) := do
  let d := device.get s
  let dbg ← dbg.onGet d.2
  some ((dbg, d.1), d.2)

def serialDebuggerPutc (dbg : SerialDebugger) (s : σ) (ch : BitVec 8) :
    Option ((SerialDebugger × σ) × BitVec 16) := do
  let r := device.put s ch
  let dbg ← dbg.onPut ch
  some ((dbg, r.1), r.2)

def serialDebuggerPutn (dbg : SerialDebugger) (s : σ) (data : BytePtr) (maxSz : ℕ) :
    Option ((SerialDebugger × σ) × ℕ) := do
  let (dbg, data) ← onPutn maxSz dbg data
  let r := device.putn s (data.bytes maxSz)
  some ((dbg, r.1), r.2)

def serialDebuggerGetn (dbg : SerialDebugger) (s : σ) (data : List (BitVec 8)) :
    Option ((SerialDebugger × σ) × List (BitVec 8) × ℕ) := do
  let ret := device.getn s data
  let dbg ← ret.2.1.foldlM (fun dbg b ↦ dbg.onGet (b.setWidth 16)) dbg
  some ((dbg, ret.1), ret.2)

def serialDebuggerEnd (dbg : SerialDebugger) (s : σ) : (SerialDebugger × σ) × BitVec 16 :=
  ((dbg.doFlush, (device.finish s).1), 0)

def serialDebuggerBegin (dbg : SerialDebugger) (s : σ) : (SerialDebugger × σ) × BitVec 16 :=
  ((dbg, (device.begin s).1), 0)

def serialDebuggerWaiting (dbg : SerialDebugger) (s : σ) : (SerialDebugger × σ) × ℕ :=
  ((dbg, (device.waiting s).1), (device.waiting s).2)

end Interface

end SerialDebugger

/-! ## Calls -/

/-- The calls of the interface that a debugger exports. -/
inductive DebuggerCall where
  | getc
  | putc (ch : BitVec 8)
  | putn (data : BytePtr) (maxSz : ℕ)
  | getn (data : List (BitVec 8))
  | begin
  | finish
  | waiting

namespace DebuggerCall

/-- The call that a caller without the debugger makes. -/
def direct : DebuggerCall → SerialCall
  | getc => .getc
  | putc ch => .putc ch
  | putn data maxSz => .putn (data.bytes maxSz)
  | getn data => .getn data
  | begin => .begin
  | finish => .finish
  | waiting => .waiting

end DebuggerCall

namespace SerialDebugger

variable {σ : Type} (device : SerialIf σ)

def call (w : SerialDebugger × σ) : DebuggerCall → Option ((SerialDebugger × σ) × SerialReply)
  | .getc => (serialDebuggerGetc device w.1 w.2).map fun r ↦ (r.1, .word r.2)
  | .putc ch => (serialDebuggerPutc device w.1 w.2 ch).map fun r ↦ (r.1, .word r.2)
  | .putn data maxSz => (serialDebuggerPutn device w.1 w.2 data maxSz).map fun r ↦ (r.1, .size r.2)
  | .getn data =>
    (serialDebuggerGetn device w.1 w.2 data).map fun r ↦ (r.1, .read r.2.1 r.2.2)
  | .begin =>
    let r := serialDebuggerBegin device w.1 w.2
    some (r.1, .word r.2)
  | .finish =>
    let r := serialDebuggerEnd device w.1 w.2
    some (r.1, .word r.2)
  | .waiting =>
    let r := serialDebuggerWaiting device w.1 w.2
    some (r.1, .size r.2)

/-- A run: the debugger and the device after it, and the answers to the calls. -/
def runCalls (w : SerialDebugger × σ) :
    List DebuggerCall → Option ((SerialDebugger × σ) × List SerialReply)
  | [] => some (w, [])
  | c :: calls => do
    let (w, reply) ← call device w c
    let (w, replies) ← runCalls w calls
    some (w, reply :: replies)

end SerialDebugger

/-! ## The line buffer as a list

`LineLog` is a debugger without the array: the lines, the bytes that wait for the next one, and the
flag `last_is_read`. The handlers do to the array what `put`, `get` and `flush` do to the list. -/

structure LineLog where
  /-- The lines that are finished. -/
  lines : List DebugLine
  /-- The bytes of the next one. -/
  pending : List (BitVec 8)
  /-- The direction of the last call. -/
  last : ℕ

namespace LineLog

/-- The label that the next line gets. -/
def label (l : LineLog) : Direction := if l.last = 1 then .sent else .got

def flush (l : LineLog) : LineLog :=
  { l with lines := l.lines ++ [⟨l.label, l.pending⟩], pending := [] }

def push (l : LineLog) (b : BitVec 8) : LineLog := { l with pending := l.pending ++ [b] }

def flushIf (l : LineLog) (c : Prop) [Decidable c] : LineLog := if c then l.flush else l

def put (l : LineLog) (b : BitVec 8) : LineLog :=
  { (l.push b).flushIf ((l.push b).pending.length = 16 ∨ l.last = 1) with last := 0 }

def get (l : LineLog) (b : BitVec 8) : LineLog :=
  { (l.push b).flushIf ((l.push b).pending.length = 16 ∨ l.last = 0) with last := 1 }

theorem flushIf_congr (l : LineLog) {c d : Prop} [Decidable c] [Decidable d] (h : c ↔ d) :
    l.flushIf c = l.flushIf d := by
  simp only [flushIf, h]

def getNothing (l : LineLog) : LineLog := { l.flushIf (l.last = 0) with last := 1 }

end LineLog

namespace SerialDebugger

def log (dbg : SerialDebugger) : LineLog := ⟨dbg.printed, dbg.buffered, dbg.lastIsRead⟩

variable {dbg : SerialDebugger}

theorem length_buffered (h : dbg.bufPtr ≤ 16) : dbg.buffered.length = dbg.bufPtr := by
  rw [buffered, List.length_take, Vector.length_toList]
  omega

theorem store_of_lt (h : dbg.bufPtr < 16) (ch : BitVec 8) :
    ∃ dbg', dbg.store ch = some dbg' ∧ dbg'.bufPtr = dbg.bufPtr + 1 ∧
      dbg'.log = dbg.log.push ch := by
  refine ⟨_, dif_pos h, rfl, ?_⟩
  have hlen : dbg.bufPtr < dbg.buffer.toList.length := by rwa [Vector.length_toList]
  simp only [log, LineLog.push, buffered, Vector.toList_set, LineLog.mk.injEq, true_and, and_true]
  rw [List.take_succ_eq_append_getElem (by rwa [List.length_set]), List.take_set_of_le le_rfl,
    List.getElem_set_self]

/-- The end of a handler: a flush if the line is full or the direction has changed. -/
def settle (dbg : SerialDebugger) (c : Prop) [Decidable c] (last : ℕ) : SerialDebugger :=
  { (if dbg.bufPtr = 16 ∨ c then dbg.doFlush else dbg) with lastIsRead := last }

theorem settle_spec (h : dbg.bufPtr ≤ 16) (c : Prop) [Decidable c] (last : ℕ) :
    (dbg.settle c last).bufPtr < 16 ∧
      (dbg.settle c last).log =
        { dbg.log.flushIf (dbg.log.pending.length = 16 ∨ c) with last := last } := by
  rw [LineLog.flushIf, show dbg.log.pending.length = dbg.bufPtr from length_buffered h]
  by_cases hflush : dbg.bufPtr = 16 ∨ c
  · simp only [settle, if_pos hflush]
    exact ⟨Nat.succ_pos 15, rfl⟩
  · simp only [settle, if_neg hflush]
    exact ⟨by omega, rfl⟩

theorem onPut_spec (h : dbg.bufPtr < 16) (ch : BitVec 8) :
    ∃ dbg', dbg.onPut ch = some dbg' ∧ dbg'.bufPtr < 16 ∧ dbg'.log = dbg.log.put ch := by
  obtain ⟨dbg', hstore, hptr, hlog⟩ := store_of_lt h ch
  have hle : dbg'.bufPtr ≤ 16 := by omega
  obtain ⟨hlt, hsettle⟩ := settle_spec hle (dbg'.lastIsRead = 1) 0
  refine ⟨dbg'.settle (dbg'.lastIsRead = 1) 0, by rw [onPut, hstore]; rfl, hlt, ?_⟩
  have hlast : dbg'.lastIsRead = dbg.log.last := congrArg LineLog.last hlog
  rw [hsettle, LineLog.put, hlog]
  simp only [hlast]

theorem onGet_spec (h : dbg.bufPtr < 16) {ch : BitVec 16} (hch : ch ≠ serialNoData) :
    ∃ dbg', dbg.onGet ch = some dbg' ∧ dbg'.bufPtr < 16 ∧
      dbg'.log = dbg.log.get (ch.setWidth 8) := by
  obtain ⟨dbg', hstore, hptr, hlog⟩ := store_of_lt h (ch.setWidth 8)
  have hle : dbg'.bufPtr ≤ 16 := by omega
  obtain ⟨hlt, hsettle⟩ := settle_spec hle (dbg'.lastIsRead = 0) 1
  refine ⟨dbg'.settle (dbg'.lastIsRead = 0) 1, by rw [onGet, if_pos hch, hstore]; rfl, hlt, ?_⟩
  have hlast : dbg'.lastIsRead = dbg.log.last := congrArg LineLog.last hlog
  rw [hsettle, LineLog.get, hlog]
  simp only [hlast]

theorem onGet_noData_spec (h : dbg.bufPtr < 16) :
    ∃ dbg', dbg.onGet serialNoData = some dbg' ∧ dbg'.bufPtr < 16 ∧
      dbg'.log = dbg.log.getNothing := by
  obtain ⟨hlt, hsettle⟩ := settle_spec h.le (dbg.lastIsRead = 0) 1
  refine ⟨dbg.settle (dbg.lastIsRead = 0) 1, by rw [onGet, if_neg (not_not.mpr rfl)]; rfl, hlt, ?_⟩
  have hcond : dbg.log.pending.length = 16 ∨ dbg.lastIsRead = 0 ↔ dbg.log.last = 0 := by
    rw [show dbg.log.pending.length = dbg.bufPtr from length_buffered h.le]
    exact or_iff_right h.ne
  rw [hsettle, LineLog.getNothing, LineLog.flushIf_congr _ hcond]

theorem onPutn_spec (n : ℕ) : ∀ {dbg : SerialDebugger} (data : BytePtr), dbg.bufPtr < 16 →
    ∃ dbg', onPutn n dbg data = some (dbg', data.add n) ∧
      dbg'.bufPtr < 16 ∧ dbg'.log = (data.bytes n).foldl LineLog.put dbg.log := by
  induction n with
  | zero => exact fun data h ↦ ⟨_, rfl, h, rfl⟩
  | succ n ih =>
    intro dbg data h
    obtain ⟨dbg₁, hput, hlt, hlog⟩ := onPut_spec h data.read
    obtain ⟨dbg₂, hrest, hlt₂, hlog₂⟩ := ih data.next hlt
    refine ⟨dbg₂, ?_, hlt₂, by rw [hlog₂, hlog]; rfl⟩
    rw [BytePtr.next_add] at hrest
    rw [onPutn, hput]
    exact hrest

theorem onGetn_spec (data : List (BitVec 8)) : ∀ {dbg : SerialDebugger}, dbg.bufPtr < 16 →
    ∃ dbg', data.foldlM (fun dbg b ↦ dbg.onGet (b.setWidth 16)) dbg = some dbg' ∧
      dbg'.bufPtr < 16 ∧ dbg'.log = data.foldl LineLog.get dbg.log := by
  induction data with
  | nil => exact fun h ↦ ⟨_, rfl, h, rfl⟩
  | cons b data ih =>
    intro dbg h
    obtain ⟨dbg₁, hget, hlt, hlog⟩ := onGet_spec h (RxQueue.setWidth_ne_serialNoData b)
    obtain ⟨dbg₂, hrest, hlt₂, hlog₂⟩ := ih hlt
    refine ⟨dbg₂, by rw [List.foldlM_cons, hget]; exact hrest, hlt₂, ?_⟩
    rw [hlog₂, hlog, List.foldl_cons]
    congr 2
    simp

end SerialDebugger

/-! ## What a call does

A call makes exactly one call of the device. The answer to the caller, and what the handlers do to
the line buffer, follow from that call and its answer. -/

namespace DebuggerCall

/-- The call that the device receives: `serial_debugger_putn` has advanced the pointer. -/
def forwarded : DebuggerCall → SerialCall
  | putn data maxSz => .putn ((data.add maxSz).bytes maxSz)
  | c => c.direct

/-- The answer that the caller receives when the device gives the answer `r`. -/
def answered (r : SerialReply) : DebuggerCall → SerialReply
  | begin | finish => .word 0
  | _ => r

/-- What the handlers do to the line buffer. -/
def logged (l : LineLog) (r : SerialReply) : DebuggerCall → LineLog
  | getc =>
    match r with
    | .word d => if d ≠ serialNoData then l.get (d.setWidth 8) else l.getNothing
    | _ => l
  | putc ch => l.put ch
  | putn data maxSz => (data.bytes maxSz).foldl LineLog.put l
  | getn _ =>
    match r with
    | .read data _ => data.foldl LineLog.get l
    | _ => l
  | finish => l.flush
  | begin | waiting => l

end DebuggerCall

namespace SerialDebugger

variable {σ : Type} (device : SerialIf σ)

theorem call_spec {dbg : SerialDebugger} (h : dbg.bufPtr < 16) (s : σ) (c : DebuggerCall) :
    ∃ dbg', call device (dbg, s) c = some ((dbg', (device.answer s c.forwarded).1),
        c.answered (device.answer s c.forwarded).2) ∧
      dbg'.bufPtr < 16 ∧ dbg'.log = c.logged dbg.log (device.answer s c.forwarded).2 := by
  cases c with
  | getc =>
    by_cases hd : (device.get s).2 = serialNoData
    · obtain ⟨dbg', hget, hlt, hlog⟩ := onGet_noData_spec h
      refine ⟨dbg', ?_, hlt, by rw [hlog]; exact (if_neg (not_not.mpr hd)).symm⟩
      rw [call, serialDebuggerGetc, hd, hget, ← hd]
      rfl
    · obtain ⟨dbg', hget, hlt, hlog⟩ := onGet_spec h hd
      refine ⟨dbg', ?_, hlt, by rw [hlog]; exact (if_pos hd).symm⟩
      rw [call, serialDebuggerGetc, hget]
      rfl
  | putc ch =>
    obtain ⟨dbg', hput, hlt, hlog⟩ := onPut_spec h ch
    refine ⟨dbg', ?_, hlt, hlog⟩
    rw [call, serialDebuggerPutc, hput]
    rfl
  | putn data maxSz =>
    obtain ⟨dbg', hput, hlt, hlog⟩ := onPutn_spec maxSz data h
    refine ⟨dbg', ?_, hlt, hlog⟩
    rw [call, serialDebuggerPutn, hput]
    rfl
  | getn data =>
    obtain ⟨dbg', hget, hlt, hlog⟩ := onGetn_spec (device.getn s data).2.1 h
    refine ⟨dbg', ?_, hlt, hlog⟩
    rw [call, serialDebuggerGetn, hget]
    rfl
  | begin => exact ⟨dbg, rfl, h, rfl⟩
  | finish => exact ⟨dbg.doFlush, rfl, Nat.succ_pos 15, rfl⟩
  | waiting => exact ⟨dbg, rfl, h, rfl⟩

/-- What the handlers do to the line buffer in a run, from the calls and the exchanges with the
device. -/
def loggedRun (l : LineLog) (calls : List DebuggerCall) (exchanges : List SerialExchange) :
    LineLog :=
  (calls.zip exchanges).foldl (fun l p ↦ p.1.logged l p.2.2) l

theorem runCalls_spec (calls : List DebuggerCall) : ∀ {dbg : SerialDebugger} (s : σ),
    dbg.bufPtr < 16 →
    ∃ dbg', runCalls device (dbg, s) calls =
        some ((dbg', device.after s (calls.map DebuggerCall.forwarded)),
          calls.zipWith (fun c e ↦ c.answered e.2)
            (device.run s (calls.map DebuggerCall.forwarded))) ∧
      dbg'.bufPtr < 16 ∧
      dbg'.log =
        loggedRun dbg.log calls (device.run s (calls.map DebuggerCall.forwarded)) := by
  induction calls with
  | nil => exact fun s h ↦ ⟨_, rfl, h, rfl⟩
  | cons c calls ih =>
    intro dbg s h
    obtain ⟨dbg₁, hcall, hlt, hlog⟩ := call_spec device h s c
    obtain ⟨dbg₂, hrest, hlt₂, hlog₂⟩ := ih (device.answer s c.forwarded).1 hlt
    refine ⟨dbg₂, ?_, hlt₂, by rw [hlog₂, hlog]; rfl⟩
    rw [runCalls, hcall]
    simp only [Option.bind_eq_bind, Option.bind_some, hrest]
    rfl

end SerialDebugger

/-! ## Transparency -/

/-- The bytes behind the buffer of a `putn` are those in it. -/
def DebuggerCall.Repeats : DebuggerCall → Prop
  | putn data maxSz => (data.add maxSz).bytes maxSz = data.bytes maxSz
  | _ => True

theorem DebuggerCall.forwarded_eq_direct_iff (c : DebuggerCall) :
    c.forwarded = c.direct ↔ c.Repeats := by
  cases c <;> simp [forwarded, direct, Repeats]

/-- A transaction begins and ends with the answer 0. -/
def SerialExchange.Quiet (e : SerialExchange) : Prop :=
  e.1 = .begin ∨ e.1 = .finish → e.2 = .word 0

namespace SerialDebugger

theorem answered_eq_iff (c : DebuggerCall) (r : SerialReply) :
    c.answered r = r ↔ SerialExchange.Quiet (c.direct, r) := by
  cases c <;> simp [DebuggerCall.answered, DebuggerCall.direct, SerialExchange.Quiet, eq_comm]

theorem zipWith_answered_eq_iff (calls : List DebuggerCall) : ∀ exchanges : List SerialExchange,
    exchanges.map Prod.fst = calls.map DebuggerCall.direct →
    (calls.zipWith (fun c e ↦ c.answered e.2) exchanges = exchanges.map Prod.snd ↔
      ∀ e ∈ exchanges, SerialExchange.Quiet e) := by
  induction calls with
  | nil =>
    intro exchanges h
    rw [List.map_nil, List.map_eq_nil_iff] at h
    simp [h]
  | cons c calls ih =>
    rintro (_ | ⟨⟨c', r⟩, exchanges⟩) h
    · simp at h
    · rw [List.map_cons, List.map_cons, List.cons.injEq] at h
      obtain ⟨rfl, hcalls⟩ := h
      rw [List.zipWith_cons_cons, List.map_cons, List.cons.injEq, ih _ hcalls, answered_eq_iff,
        List.forall_mem_cons]

variable {σ : Type} (device : SerialIf σ)

/-- **Transparency.** The debugger is transparent for a sequence of calls, that is, the device
receives the calls that the caller makes and the caller the answers that the device gives without
the debugger, if and only if the bytes behind each buffer that is written repeat it and the device
answers 0 at the beginning and at the end of each transaction. -/
theorem serialDebugger_transparent_iff (buffer : Vector (BitVec 8) 16) (s : σ)
    (calls : List DebuggerCall) :
    ∃ dbg s' trace replies,
      runCalls device.traced (serialDebuggerInit buffer, (s, [])) calls =
        some ((dbg, (s', trace)), replies) ∧
      (trace.map Prod.fst = calls.map DebuggerCall.direct ∧
          replies = (device.run s (calls.map DebuggerCall.direct)).map Prod.snd ↔
        (∀ c ∈ calls, c.Repeats) ∧
          ∀ e ∈ device.run s (calls.map DebuggerCall.direct), SerialExchange.Quiet e) := by
  have hinit : (serialDebuggerInit buffer).bufPtr < 16 := Nat.succ_pos 15
  obtain ⟨dbg, hrun, -, -⟩ := runCalls_spec device.traced calls (s, []) hinit
  rw [SerialIf.after_traced, SerialIf.run_traced, List.nil_append] at hrun
  refine ⟨dbg, _, _, _, hrun, ?_⟩
  have hforwarded : calls.map DebuggerCall.forwarded = calls.map DebuggerCall.direct ↔
      ∀ c ∈ calls, c.Repeats := by
    rw [List.map_inj_left]
    simp only [DebuggerCall.forwarded_eq_direct_iff]
  rw [SerialIf.map_fst_run, hforwarded]
  refine and_congr_right fun hrepeats ↦ ?_
  rw [hforwarded.mpr hrepeats]
  exact zipWith_answered_eq_iff calls _ (SerialIf.map_fst_run device s _)

/-- A device that has nothing to read and accepts what is written. -/
def silentSerial : SerialIf Unit where
  get _ := ((), serialNoData)
  put _ _ := ((), 0)
  putn _ data := ((), data.length)
  getn _ data := ((), data, 0)
  begin _ := ((), 0)
  finish _ := ((), 0)
  waiting _ := ((), 0)
  length_getn _ _ := rfl

/-- The two characters `ok`, with zeros behind them. -/
def okText : BytePtr := ⟨fun a ↦ [0x6F, 0x6B].getD a 0, 0⟩

theorem putn_not_transparent :
    ∃ dbg s' trace replies,
      runCalls silentSerial.traced (serialDebuggerInit (Vector.replicate 16 0), ((), []))
        [.putn okText 2] = some ((dbg, (s', trace)), replies) ∧
      trace.map Prod.fst = [.putn [0x00, 0x00]] ∧
      trace.map Prod.fst ≠ [DebuggerCall.putn okText 2].map DebuggerCall.direct := by
  refine ⟨_, _, _, _, rfl, by decide, by decide⟩

end SerialDebugger

end Martink
