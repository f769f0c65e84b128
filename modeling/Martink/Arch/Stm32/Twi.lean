import Martink.Arch.Interface

/-!
# The I2C peripherals of the STM32

`arm/stm32/twi.c`. The driver waits for every event by polling the status registers of a peripheral.
The bus acknowledges every byte, so that each event it waits for occurs sooner or later: `delay k`
is the number of polls that do not see the `k`-th of them yet. What the driver does to the
peripherals is kept in the order it happens.
-/

namespace Martink

/-- The peripherals of the table `_devices`. -/
inductive I2cPort where
  | i2c1
  | i2c2
  deriving DecidableEq

inductive I2cOp where
  | generateStart
  | send7bitAddress (adr : BitVec 8) (receiver : Bool)
  | cmdEnable
  | sendData (b : BitVec 8)
  | receiveData (b : BitVec 8)
  | acknowledgeConfig (enable : Bool)
  | readSr1
  | clearAf
  | generateStop
  deriving DecidableEq

/-- The peripherals and the busses behind them: `reply k` is the `k`-th byte that arrives, `events`
and `received` are the numbers of events and of bytes so far. -/
structure TwiBus where
  /-- How often an event is looked for before it comes. -/
  delay : ℕ → ℕ
  /-- The bytes that arrive. -/
  reply : ℕ → BitVec 8
  /-- The number of events so far. -/
  events : ℕ
  /-- The number of bytes so far. -/
  received : ℕ
  /-- How often events were looked for so far. -/
  polls : ℕ
  /-- The operations on the peripherals, in order. -/
  ops : List (I2cPort × I2cOp)

namespace TwiBus

def op (s : TwiBus) (dev : I2cPort) (o : I2cOp) : TwiBus := { s with ops := s.ops ++ [(dev, o)] }

/-- A poll that sees nothing. -/
def miss (s : TwiBus) : TwiBus := { s with polls := s.polls + 1 }

/-- The poll that sees the event. -/
def hit (s : TwiBus) : TwiBus := { s with polls := s.polls + 1, events := s.events + 1 }

/-- The macro `WAIT`. -/
def wait (s : TwiBus) : TwiBus := (miss^[s.delay s.events] s).hit

/-- `I2C_ReceiveData` -/
def receive (s : TwiBus) (dev : I2cPort) : TwiBus × BitVec 8 :=
  let b := s.reply s.received
  ({ s.op dev (.receiveData b) with received := s.received + 1 }, b)

/-! ## The driver -/

/-- The table `_devices`. -/
def devices : List I2cPort := [.i2c1, .i2c2]

def twiStartWrite (s : TwiBus) (devId : BitVec 8) (adr : BitVec 8) (data : List (BitVec 8))
    (bytesToSend : BitVec 8) : TwiBus × BitVec 8 :=
  match devices[devId.toNat]? with
  | none => (s, -1)
  | some dev =>
    let s := s.wait.op dev .generateStart
    let s := s.wait.op dev (.send7bitAddress adr false)
    let s := s.wait.op dev .cmdEnable
    ((data.take bytesToSend.toNat).foldl (fun s b ↦ (s.op dev (.sendData b)).wait) s, 0)

/-- A turn of the loop of `twi_start_read` with `bytesToRead` bytes to come, up to the test of the
event. -/
def readTurn (dev : I2cPort) (bytesToRead : ℕ) (s : TwiBus) : TwiBus :=
  if bytesToRead = 1 then (s.op dev (.acknowledgeConfig false)).op dev .generateStop else s

/-- The turns that see no byte, and the one that does. -/
def awaitByte (dev : I2cPort) (bytesToRead : ℕ) (s : TwiBus) : TwiBus :=
  (readTurn dev bytesToRead ((fun s ↦ (readTurn dev bytesToRead s).miss)^[s.delay s.events] s)).hit

/-- `while(bytes_to_read)` -/
def readLoop (dev : I2cPort) : ℕ → TwiBus → TwiBus × List (BitVec 8)
  | 0, s => (s, [])
  | bytesToRead + 1, s =>
    let byte := (awaitByte dev (bytesToRead + 1) s).receive dev
    let rest := readLoop dev bytesToRead byte.1
    (rest.1, byte.2 :: rest.2)

def twiStartRead (s : TwiBus) (devId : BitVec 8) (adr : BitVec 8) (bytesToRead : BitVec 8) :
    TwiBus × List (BitVec 8) × BitVec 8 :=
  match devices[devId.toNat]? with
  | none => (s, [], -1)
  | some dev =>
    let s := s.op dev .generateStart
    let s := s.wait.op dev (.send7bitAddress adr true)
    let s := s.wait.op dev .cmdEnable
    let r := readLoop dev bytesToRead.toNat s
    (r.1.op dev (.acknowledgeConfig true), r.2, 0)

def twiStop (s : TwiBus) (devId : BitVec 8) : TwiBus × BitVec 8 :=
  match devices[devId.toNat]? with
  | none => (s, -1)
  | some dev => (s.op dev .generateStop, 0)

/-- A turn of the loop of `twi_wait`. -/
def waitTurn (dev : I2cPort) (addr : BitVec 8) (s : TwiBus) : TwiBus :=
  ((s.op dev .generateStart).op dev .readSr1).op dev (.send7bitAddress addr false)

def twiWait (s : TwiBus) (devId : BitVec 8) (addr : BitVec 8) : TwiBus :=
  match devices[devId.toNat]? with
  | none => s
  | some dev =>
    let missed := fun s ↦ (waitTurn dev addr s).miss
    let s := (waitTurn dev addr (missed^[s.delay s.events] s)).hit
    (s.op dev .clearAf).op dev .generateStop

/-! ## What a transfer moves -/

/-- The byte that an operation puts on the bus of `dev`. -/
def sentBy (dev : I2cPort) : I2cPort × I2cOp → Option (BitVec 8)
  | (d, .sendData b) => if d = dev then some b else none
  | _ => none

/-- The byte that an operation takes from the bus of `dev`. -/
def takenBy (dev : I2cPort) : I2cPort × I2cOp → Option (BitVec 8)
  | (d, .receiveData b) => if d = dev then some b else none
  | _ => none

def sent (s : TwiBus) (dev : I2cPort) : List (BitVec 8) := s.ops.filterMap (sentBy dev)

def taken (s : TwiBus) (dev : I2cPort) : List (BitVec 8) := s.ops.filterMap (takenBy dev)

section Moves

variable (s : TwiBus) (dev d : I2cPort) (o : I2cOp)

theorem iterate_miss (n : ℕ) : miss^[n] s = { s with polls := s.polls + n } := by
  induction n generalizing s with
  | zero => rfl
  | succ n ih =>
    rw [Function.iterate_succ_apply, ih, miss, Nat.add_assoc, Nat.add_comm 1 n]

theorem wait_eq :
    s.wait = { s with polls := s.polls + s.delay s.events + 1, events := s.events + 1 } := by
  rw [wait, iterate_miss]
  rfl

@[simp] theorem ops_wait : s.wait.ops = s.ops := by rw [wait_eq]

@[simp] theorem reply_wait : s.wait.reply = s.reply := by rw [wait_eq]

@[simp] theorem received_wait : s.wait.received = s.received := by rw [wait_eq]

@[simp] theorem reply_op : (s.op dev o).reply = s.reply := rfl

@[simp] theorem received_op : (s.op dev o).received = s.received := rfl

@[simp] theorem sent_wait : s.wait.sent d = s.sent d := by rw [sent, ops_wait, sent]

@[simp] theorem taken_wait : s.wait.taken d = s.taken d := by rw [taken, ops_wait, taken]

theorem sent_op : (s.op dev o).sent d = s.sent d ++ (sentBy d (dev, o)).toList := by
  cases h : sentBy d (dev, o) <;> simp [sent, op, h]

theorem taken_op : (s.op dev o).taken d = s.taken d ++ (takenBy d (dev, o)).toList := by
  cases h : takenBy d (dev, o) <;> simp [taken, op, h]

/-- The loop of `twi_start_write` sends what it is given. -/
theorem sent_foldl (data : List (BitVec 8)) :
    (data.foldl (fun s b ↦ (s.op dev (.sendData b)).wait) s).sent dev = s.sent dev ++ data := by
  induction data generalizing s with
  | nil => simp
  | cons b data ih => simp [ih, sent_op, sentBy]

/-- What a turn of the loop of `twi_start_read` without a byte leaves alone. -/
structure Idles (s s' : TwiBus) : Prop where
  /-- The bytes that arrive are the same. -/
  reply : s'.reply = s.reply
  /-- None has arrived. -/
  received : s'.received = s.received
  /-- None was taken. -/
  taken : s'.taken dev = s.taken dev

theorem Idles.trans {s s' s'' : TwiBus} (h : Idles dev s s') (h' : Idles dev s' s'') :
    Idles dev s s'' where
  reply := h'.reply.trans h.reply
  received := h'.received.trans h.received
  taken := h'.taken.trans h.taken

theorem idles_readTurn (n : ℕ) : Idles dev s (readTurn dev n s) := by
  rw [readTurn]
  split
  · exact ⟨rfl, rfl, by simp [taken_op, takenBy]⟩
  · exact ⟨rfl, rfl, rfl⟩

theorem idles_awaitByte (n : ℕ) : Idles dev s (awaitByte dev n s) := by
  have hmisses : ∀ k s, Idles dev s ((fun s ↦ (readTurn dev n s).miss)^[k] s) := by
    intro k
    induction k with
    | zero => exact fun s ↦ ⟨rfl, rfl, rfl⟩
    | succ k ih =>
      intro s
      have hturn := idles_readTurn s dev n
      have hmiss : Idles dev s (readTurn dev n s).miss :=
        ⟨hturn.reply, hturn.received, hturn.taken⟩
      exact hmiss.trans dev (ih _)
  have hlast := (hmisses (s.delay s.events) s).trans dev (idles_readTurn _ dev n)
  exact ⟨hlast.reply, hlast.received, hlast.taken⟩

/-- The loop of `twi_start_read` stores the bytes that arrive, in order, and no others. -/
theorem readLoop_moves (n : ℕ) :
    (readLoop dev n s).2 = (List.range' s.received n).map s.reply ∧
      (readLoop dev n s).1.taken dev = s.taken dev ++ (readLoop dev n s).2 := by
  induction n generalizing s with
  | zero => simp [readLoop]
  | succ n ih =>
    have hidle := idles_awaitByte s dev (n + 1)
    obtain ⟨hstored, htaken⟩ := ih ((awaitByte dev (n + 1) s).receive dev).1
    have hnow : ((awaitByte dev (n + 1) s).receive dev).1.taken dev =
        s.taken dev ++ [s.reply s.received] := by
      rw [← hidle.taken, ← hidle.reply, ← hidle.received]
      exact (taken_op _ dev dev _).trans (by simp [takenBy])
    constructor
    · rw [readLoop, hstored, List.range'_succ, List.map_cons, receive]
      simp [op, hidle.reply, hidle.received]
    · rw [readLoop, htaken, hnow, receive, hidle.reply, hidle.received]
      simp

end Moves

end TwiBus

end Martink
