import Martink.Include.StaticCbuf

/-!
# What the receive paths of the UART drivers share

On every chip the receive interrupt puts a byte into a circular buffer if there is room, and
`uart_getc`, with the interrupt switched off, takes one out or answers `SERIAL_NO_DATA`. `RxQueue`
is such a buffer with what became of the bytes: those the interrupt handled, each with a mark that
says whether it was kept, and those taken out. `RxQueue.Ok k` says that the buffer has `2 ^ k` slots
and that the kept bytes are the taken ones followed by the unread ones.

`RxLaw` is what a driver promises of one receiver. It is stated over the steps of a whole chip, seen
through an `RxPort`.
-/

namespace Martink

def serialBufferFull : BitVec 16 := 0x0200

def serialNoData : BitVec 16 := 0x0100

/-! ## A receive buffer and its history -/

structure RxQueue where
  /-- The ring. -/
  buf : Cbuf
  /-- The bytes the interrupt handled, in order, with `true` for those it kept. -/
  arrived : List (BitVec 8 × Bool)
  /-- The bytes taken out of it, in order. -/
  taken : List (BitVec 8)

namespace RxQueue

/-- The buffer that `DECLARE_STATIC_CBUF` declares for a receiver. -/
def declare (size : ℕ) : RxQueue := ⟨declareCbuf size, [], []⟩

def kept (q : RxQueue) : List (BitVec 8) := (q.arrived.filter (·.2)).map (·.1)

def dropped (q : RxQueue) : List (BitVec 8) := (q.arrived.filter (!·.2)).map (·.1)

/-- What an interrupt handler does with a byte. -/
def receive (q : RxQueue) (data : BitVec 8) : RxQueue :=
  if q.buf.isFull then { q with arrived := q.arrived ++ [(data, false)] }
  else { q with buf := (q.buf.put data).1, arrived := q.arrived ++ [(data, true)] }

/-- What `getc` does while the interrupt is off: the buffer after it and the value to return. -/
def getc (q : RxQueue) : RxQueue × BitVec 16 :=
  if q.buf.isEmpty then (q, serialNoData)
  else
    let data := BitVec.ofInt 8 q.buf.get.2
    ({ q with buf := q.buf.get.1, taken := q.taken ++ [data] }, data.setWidth 16)

/-- The bytes in a buffer of `2 ^ k` slots. -/
def unread (k : ℕ) (q : RxQueue) : List (BitVec 8) := q.buf.contents k

structure Ok (k : ℕ) (q : RxQueue) : Prop where
  /-- The ring has `2 ^ k` slots, with its indices inside. -/
  sized : q.buf.Sized k
  /-- What was kept was taken or is unread. -/
  kept_eq : q.kept = q.taken ++ q.unread k

variable {k : ℕ} {q : RxQueue}

theorem ok_declare (h1 : 1 ≤ k) (hk : k ≤ 30) : (declare (2 ^ k)).Ok k where
  sized := Cbuf.sized_declareCbuf h1 hk
  kept_eq := by simp [declare, kept, unread, Cbuf.contents_declareCbuf]

theorem length_unread (k : ℕ) (q : RxQueue) : (q.unread k).length = q.buf.unread k :=
  Cbuf.length_contents _ _

theorem Ok.receive (h : q.Ok k) (data : BitVec 8) : (q.receive data).Ok k := by
  rw [RxQueue.receive, Cbuf.isFull_eq h.sized]
  by_cases hfull : q.buf.unread k = 2 ^ k - 1
  · rw [if_pos (decide_eq_true hfull)]
    exact ⟨h.sized, by simpa [kept, unread] using h.kept_eq⟩
  · rw [if_neg (by simp [hfull])]
    refine ⟨Cbuf.sized_put h.sized data, ?_⟩
    have hkept := h.kept_eq
    rw [kept] at hkept
    simp [kept, unread, hkept, (Cbuf.contents_put h.sized hfull data).1]

/-- A byte is dropped only when the buffer is full. -/
theorem length_of_dropped (h : q.Ok k) (data : BitVec 8)
    (hdrop : (q.receive data).dropped ≠ q.dropped) : (q.unread k).length = 2 ^ k - 1 := by
  rw [RxQueue.receive, Cbuf.isFull_eq h.sized] at hdrop
  by_cases hfull : q.buf.unread k = 2 ^ k - 1
  · rw [length_unread, hfull]
  · rw [if_neg (by simp [hfull])] at hdrop
    exact absurd (by simp [dropped]) hdrop

@[simp] theorem taken_receive (q : RxQueue) (data : BitVec 8) :
    (q.receive data).taken = q.taken := by
  rw [RxQueue.receive]
  split <;> rfl

theorem arrived_receive (q : RxQueue) (data : BitVec 8) :
    (q.receive data).arrived.map Prod.fst = q.arrived.map Prod.fst ++ [data] := by
  rw [RxQueue.receive]
  split <;> simp

theorem setWidth_ne_serialNoData (data : BitVec 8) : data.setWidth 16 ≠ serialNoData := by
  intro h
  have hlt := data.isLt
  have hnat := congrArg BitVec.toNat h
  rw [BitVec.toNat_setWidth_of_le (by decide)] at hnat
  rw [hnat] at hlt
  exact absurd hlt (by decide)

/-- The two outcomes of `getc`. -/
theorem getc_cases (h : q.Ok k) :
    (q.unread k = [] ∧ q.getc = (q, serialNoData)) ∨
      ∃ data, q.unread k = data :: q.getc.1.unread k ∧ q.getc.2 = data.setWidth 16 ∧
        q.getc.1.taken = q.taken ++ [data] ∧ q.getc.1.buf.Sized k := by
  by_cases hempty : q.buf.unread k = 0
  · refine .inl ⟨List.eq_nil_of_length_eq_zero (by rw [length_unread, hempty]), ?_⟩
    rw [RxQueue.getc, Cbuf.isEmpty_eq h.sized, if_pos (decide_eq_true hempty)]
  · obtain ⟨data, hcons, hget⟩ := Cbuf.contents_get h.sized hempty
    have hdata : BitVec.ofInt 8 q.buf.get.2 = data := by
      rw [hget]
      simp
    rw [RxQueue.getc, Cbuf.isEmpty_eq h.sized, if_neg (by simp [hempty]), hdata]
    exact .inr ⟨data, hcons, rfl, rfl, Cbuf.sized_get h.sized⟩

@[simp] theorem arrived_getc (q : RxQueue) : q.getc.1.arrived = q.arrived := by
  rw [RxQueue.getc]
  split <;> rfl

@[simp] theorem dropped_getc (q : RxQueue) : q.getc.1.dropped = q.dropped := by
  rw [dropped, dropped, arrived_getc]

theorem Ok.getc (h : q.Ok k) : q.getc.1.Ok k := by
  rcases getc_cases h with ⟨-, heq⟩ | ⟨data, hcons, -, htaken, hsized⟩
  · rwa [heq]
  · have hkept : q.getc.1.kept = q.kept := by rw [kept, kept, arrived_getc]
    refine ⟨hsized, ?_⟩
    rw [hkept, htaken, h.kept_eq, hcons, List.append_assoc, List.singleton_append]

end RxQueue

/-! ## The law -/

/-- One receiver, as its callers see it. -/
structure RxPort where
  /-- The buffer, with its history. -/
  queue : RxQueue
  /-- What the calls of `getc` returned, in order. -/
  returns : List (BitVec 16)
  /-- What the call under way will return, once it has decided. -/
  result : Option (BitVec 16)
  /-- No call is under way. -/
  idle : Bool
  /-- The interrupt is enabled. -/
  enabled : Bool
  /-- A byte whose interrupt has not run. -/
  pending : Option (BitVec 8)

/-- What a driver promises of a receiver with `2 ^ k` slots in a state `s`, after the bytes
`received` came in. -/
structure RxLaw {σ ε : Type} (k : ℕ) (next : σ → ε → Option σ) (port : σ → RxPort)
    (received : List (BitVec 8)) (s : σ) : Prop where
  /-- Every byte was handled by the interrupt, or waits for it. -/
  handled : (port s).queue.arrived.map Prod.fst ++ (port s).pending.toList = received
  /-- The bytes that were kept are returned in order, each once; the others are still unread. -/
  in_order : (port s).queue.kept.map (·.setWidth 16)
    = ((port s).returns ++ (port s).result.toList).filter (· ≠ serialNoData)
      ++ ((port s).queue.unread k).map (·.setWidth 16)
  /-- A byte is dropped only while the buffer is full. -/
  dropped_full : ∀ e s', next s e = some s' → (port s').queue.dropped ≠ (port s).queue.dropped →
    ((port s).queue.unread k).length = 2 ^ k - 1
  /-- A call finds no data only while it is empty. -/
  noData_empty : ∀ e s', next s e = some s' → (port s).result = none →
    (port s').result = some serialNoData → (port s).queue.unread k = []
  /-- Between two calls the interrupt is enabled, and no byte waits. -/
  enabled_of_idle : (port s).idle = true → (port s).enabled = true ∧ (port s).pending = none

/-- What a call's decision does to the values returned. -/
theorem RxQueue.returns_getc {k : ℕ} {q : RxQueue} (h : q.Ok k) {returns : List (BitVec 16)}
    (hreturns : q.taken.map (·.setWidth 16) = returns.filter (· ≠ serialNoData)) :
    q.getc.1.taken.map (·.setWidth 16) = (returns ++ [q.getc.2]).filter (· ≠ serialNoData) := by
  rcases getc_cases h with ⟨-, heq⟩ | ⟨data, -, hret, htaken, -⟩
  · simp [heq, hreturns]
  · rw [htaken, hret, List.map_append, List.filter_append, hreturns]
    simp [setWidth_ne_serialNoData]

end Martink
