import Martink.Base.Bits
import Martink.Base.Outcome

/-!
# The humidity sensor

A DHT11 or a DHT22 answers a request with forty bits on the line of the request. Before each bit the
line is low; how long it is high then is the value of the bit, and the driver looks at the line
after the time of a zero. It gives up when the line does not change for `DHT_TIMEOUT` turns of a
loop.

The line is a sequence of levels, one for each time that the driver reads the pin. The request
itself and the delays have no effect here.
-/

namespace Martink

/-- `struct dht`, by the type of the sensor. -/
structure Dht where
  /-- The type. -/
  sensorType : BitVec 8

namespace Dht

/-! ## The driver -/

def dht11 : BitVec 8 := 1

def dht22 : BitVec 8 := 2

/-- `DHT_TIMEOUT`. -/
def timeout : ℕ := 200

def init (sensorType : BitVec 8) : Dht :=
  ⟨if sensorType ≠ dht11 ∧ sensorType ≠ dht22 then dht11 else sensorType⟩

/-- The number of times that the pin was read, the variables of `dht_read_data`, and what was
written to `*temperature` and `*humidity`. -/
structure Reading where
  /-- The number of samples. -/
  samples : ℕ
  /-- The bytes read. -/
  bits : ℕ → BitVec 8
  /-- The byte under way. -/
  result : BitVec 8
  /-- What `*temperature` was given. -/
  temperature : Option (BitVec 8)
  /-- What `*humidity` was given. -/
  humidity : Option (BitVec 8)

/-- The pin was read once more. -/
def Reading.sampled (s : Reading) : Reading := { s with samples := s.samples + 1 }

/-- Wait until the pin has a level, for as many more turns as `timeoutcounter` allows. -/
def waitFor (pin : ℕ → Bool) (level : Bool) : ℕ → Reading → Outcome Unit Reading
  | 0, s => if pin s.samples = level then .done s.sampled else .stuck () s.sampled
  | left + 1, s =>
    if pin s.samples = level then .done s.sampled else waitFor pin level left s.sampled

/-- The value of a bit is read, 30 µs after the pin went high. -/
def takeBit (pin : ℕ → Bool) (i : ℕ) (s : Reading) : Reading :=
  if pin s.samples then { s.sampled with result := s.result ||| bv (7 - i) } else s.sampled

/-- The body of the loop over the bits. -/
def readBit (pin : ℕ → Bool) (i : ℕ) (s : Reading) : Outcome Unit Reading :=
  (waitFor pin true timeout s).andThen fun s ↦ waitFor pin false timeout (takeBit pin i s)

/-- The body of the loop over the bytes. -/
def readByte (pin : ℕ → Bool) (j : ℕ) (s : Reading) : Outcome Unit Reading :=
  (Outcome.forRange (readBit pin) 0 8 { s with result := 0 }).andThen fun s ↦
    .done { s with bits := Function.update s.bits j s.result }

/-- The values that are returned. A number that does not fit into `int8_t` is taken modulo 256. -/
def output (self : Dht) (s : Reading) : Reading :=
  if self.sensorType = dht11 then
    { s with temperature := some (s.bits 2), humidity := some (s.bits 0) }
  else if self.sensorType = dht22 then
    let rawhumidity := s.bits 0 ++ s.bits 1
    let rawtemperature := s.bits 2 ++ s.bits 3
    { s with
      temperature := some (if rawtemperature &&& 0x8000 ≠ 0 then
          BitVec.ofInt 8 (-((rawtemperature &&& 0x7fff).toNat / 10))
        else BitVec.ofInt 8 (rawtemperature.toNat / 10))
      humidity := some (BitVec.ofInt 8 (rawhumidity.toNat / 10)) }
  else s

/-- The checksum, and the end of the function. -/
def finish (self : Dht) (s : Reading) : Outcome Unit Reading :=
  if s.bits 0 + s.bits 1 + s.bits 2 + s.bits 3 = s.bits 4 then .done (self.output s)
    else .stuck () s

/-- `dht_read_data`. It is stuck where the code returns -1. -/
def readData (self : Dht) (pin : ℕ → Bool) (s : Reading) : Outcome Unit Reading :=
  if pin s.samples then .stuck () s.sampled
  else
    let s := s.sampled
    if !pin s.samples then .stuck () s.sampled
    else (Outcome.forRange (readByte pin) 0 5 s.sampled).andThen self.finish

/-- What `dht_read` returns, with the state at the end. -/
def read (self : Dht) (pin : ℕ → Bool) : ℤ × Reading :=
  match self.readData pin ⟨0, fun _ ↦ 0, 0, none, none⟩ with
  | .done s => (0, s)
  | .stuck _ s => (-1, s)

/-! ## The bits on the line -/

/-- A bit is on the line from the sample `n` to the one before `n'`: low and then high for some
samples, and low again, with the value of the bit next after the line went high. -/
def IsBit (pin : ℕ → Bool) (n : ℕ) (bit : Bool) (n' : ℕ) : Prop :=
  ∃ i j, i ≤ timeout ∧ j ≤ timeout ∧ (∀ k < i, pin (n + k) = false) ∧ pin (n + i) = true ∧
    pin (n + i + 1) = bit ∧ (∀ k < j, pin (n + i + 2 + k) = true) ∧ pin (n + i + 2 + j) = false ∧
    n' = n + i + 2 + j + 1

def AreBits (pin : ℕ → Bool) : ℕ → List Bool → ℕ → Prop
  | n, [], n' => n' = n
  | n, bit :: bits, n' => ∃ m, IsBit pin n bit m ∧ AreBits pin m bits n'

/-- A number, most significant bit first. -/
def msbFirst (bits : List Bool) : ℕ := bits.foldl (fun n bit ↦ 2 * n + bit.toNat) 0

/-- Eight of some bits. -/
def byteAt (bits : List Bool) (j : ℕ) : BitVec 8 :=
  BitVec.ofNat 8 (msbFirst ((bits.drop (8 * j)).take 8))

theorem areBits_append {pin : ℕ → Bool} {bits bits' : List Bool} {m n' : ℕ} : ∀ {n : ℕ},
    AreBits pin n bits m → AreBits pin m bits' n' → AreBits pin n (bits ++ bits') n' := by
  induction bits with
  | nil =>
    intro n h h'
    cases h
    exact h'
  | cons bit bits ih =>
    rintro n ⟨k, hbit, h⟩ h'
    exact ⟨k, hbit, ih h h'⟩

theorem msbFirst_concat (bits : List Bool) (bit : Bool) :
    msbFirst (bits ++ [bit]) = 2 * msbFirst bits + bit.toNat := by
  rw [msbFirst, List.foldl_append]
  rfl

/-! ## What is read -/

/-- Waiting ends with the first sample that has the level, or after one sample too many. -/
theorem waitFor_sat (pin : ℕ → Bool) (level : Bool) (left : ℕ) : ∀ s : Reading,
    (waitFor pin level left s).Sat
      (fun s' ↦ ∃ i, i ≤ left ∧ (∀ k < i, pin (s.samples + k) = !level) ∧
        pin (s.samples + i) = level ∧ s' = { s with samples := s.samples + i + 1 })
      fun _ s' ↦ s' = { s with samples := s.samples + left + 1 } := by
  induction left with
  | zero =>
    intro s
    rw [waitFor]
    split_ifs with h
    · exact Outcome.sat_done ⟨0, le_rfl, fun k hk ↦ absurd hk (Nat.not_lt_zero k), h, rfl⟩
    · exact Outcome.sat_stuck rfl
  | succ left ih =>
    intro s
    rw [waitFor]
    split_ifs with h
    · exact Outcome.sat_done ⟨0, Nat.zero_le _, fun k hk ↦ absurd hk (Nat.not_lt_zero k), h, rfl⟩
    · refine (ih s.sampled).mono ?_ ?_
      · rintro s' ⟨i, hi, hbefore, hat, rfl⟩
        refine ⟨i + 1, Nat.succ_le_succ hi, fun k hk ↦ ?_, ?_, ?_⟩
        · cases k with
          | zero => exact Bool.eq_not.mpr h
          | succ k =>
            have hsucc := hbefore k (Nat.lt_of_succ_lt_succ hk)
            rwa [Reading.sampled, Nat.add_assoc, Nat.add_comm 1] at hsucc
        · rwa [Reading.sampled, Nat.add_assoc, Nat.add_comm 1] at hat
        · rw [Reading.sampled, Nat.add_assoc s.samples, Nat.add_comm 1]
      · rintro _ s' rfl
        rw [Reading.sampled, Nat.add_assoc s.samples, Nat.add_comm 1]

/-- Nothing was written, and there were not more samples than `n`. -/
structure Unwritten (n : ℕ) (s : Reading) : Prop where
  /-- The number of samples. -/
  samples : s.samples ≤ n
  /-- The temperature was not written. -/
  temperature : s.temperature = none
  /-- The humidity was not written. -/
  humidity : s.humidity = none

theorem Unwritten.mono {m n : ℕ} {s : Reading} (h : Unwritten m s) (hle : m ≤ n) : Unwritten n s :=
  ⟨h.samples.trans hle, h.temperature, h.humidity⟩

/-- The samples of a bit, at most. -/
def bitSamples : ℕ := 2 * (timeout + 1) + 1

/-- **A bit.** -/
theorem readBit_sat (pin : ℕ → Bool) (i : ℕ) {n : ℕ} {s : Reading} (h : Unwritten n s) :
    (readBit pin i s).Sat
      (fun s' ↦ Unwritten (n + bitSamples) s' ∧ s'.bits = s.bits ∧
        ∃ bit, IsBit pin s.samples bit s'.samples ∧
          s'.result = if bit then s.result ||| bv (7 - i) else s.result)
      fun _ s' ↦ Unwritten (n + bitSamples) s' := by
  obtain ⟨hsamples, htemperature, hhumidity⟩ := h
  have hlimit : bitSamples = 403 := rfl
  have htimeout : timeout = 200 := rfl
  refine Outcome.Sat.andThen ((waitFor_sat pin true timeout s).mono (fun s' hs' ↦ hs') ?_) ?_
  · rintro _ s' rfl
    exact ⟨by dsimp only; omega, htemperature, hhumidity⟩
  rintro _ ⟨i', hi, hlow, hrise, rfl⟩
  -- The sample after the rise is the bit.
  have htake : takeBit pin i { s with samples := s.samples + i' + 1 }
      = { s with
          samples := s.samples + i' + 2
          result := if pin (s.samples + i' + 1) then s.result ||| bv (7 - i) else s.result } := by
    rw [takeBit]
    split_ifs <;> rfl
  rw [htake]
  refine (waitFor_sat pin false timeout _).mono ?_ ?_
  · rintro _ ⟨j, hj, hhigh, hfall, rfl⟩
    exact ⟨⟨by dsimp only; omega, htemperature, hhumidity⟩, rfl, pin (s.samples + i' + 1),
      ⟨i', j, hi, hj, hlow, hrise, rfl, hhigh, hfall, rfl⟩, rfl⟩
  · rintro _ _ rfl
    exact ⟨by dsimp only; omega, htemperature, hhumidity⟩

/-- After `i` bits of a byte that begins at the sample `m`. -/
structure InByte (pin : ℕ → Bool) (m n : ℕ) (bytes : ℕ → BitVec 8) (i : ℕ)
    (s : Reading) : Prop where
  /-- Nothing was written. -/
  unwritten : Unwritten (n + i * bitSamples) s
  /-- The bytes before are as they were. -/
  bytes_eq : s.bits = bytes
  /-- The bits of the samples are those of the byte, the first one highest. -/
  exists_bits : ∃ bits, bits.length = i ∧ AreBits pin m bits s.samples ∧
    s.result.toNat = msbFirst bits * 2 ^ (8 - i)

theorem toNat_or_bit {x : BitVec 8} {a i : ℕ} (hi : i < 8)
    (hx : x.toNat = a * 2 ^ (8 - i)) (bit : Bool) :
    (if bit then x ||| bv (7 - i) else x).toNat = (2 * a + bit.toNat) * 2 ^ (7 - i) := by
  have hpow : 2 ^ (8 - i) = 2 * 2 ^ (7 - i) := by
    rw [← Nat.pow_succ']
    congr 1
    omega
  have hone : (bv (7 - i)).toNat = 2 ^ (7 - i) := by
    rw [bv, BitVec.toNat_ofNat, Nat.shiftLeft_eq, Nat.one_mul]
    exact Nat.mod_eq_of_lt (Nat.pow_lt_pow_right Nat.one_lt_two (by omega : 7 - i < 8))
  cases bit with
  | false =>
    rw [if_neg Bool.false_ne_true, hx, hpow, Bool.toNat_false]
    ring
  | true =>
    have hor := Nat.two_pow_add_eq_or_of_lt
      (Nat.pow_lt_pow_right (Nat.one_lt_two) (by omega : 7 - i < 8 - i)) a
    rw [if_pos rfl, BitVec.toNat_or, hone, hx, Nat.mul_comm a, ← hor, hpow, Bool.toNat_true]
    ring

/-- **A byte.** -/
theorem readBits_sat (pin : ℕ → Bool) {n : ℕ} {s : Reading} (h : Unwritten n s) :
    (Outcome.forRange (readBit pin) 0 8 { s with result := 0 }).Sat
      (InByte pin s.samples n s.bits 8) fun _ s' ↦ Unwritten (n + 8 * bitSamples) s' := by
  have hstart : InByte pin s.samples n s.bits 0 { s with result := 0 } :=
    ⟨by rw [Nat.zero_mul]; exact ⟨h.samples, h.temperature, h.humidity⟩, rfl, [], rfl, rfl, rfl⟩
  refine Outcome.Sat.forRange 8 (fun i s' _ hi hin ↦ ?_) hstart
  obtain ⟨hunwritten, hbytes, bits, hlength, hbits, hresult⟩ := hin
  refine (readBit_sat pin i hunwritten).mono ?_ fun _ _ hstuck ↦ hstuck.mono ?_
  · rintro s'' ⟨hunwritten', hbytes', bit, hbit, hresult'⟩
    refine ⟨?_, hbytes'.trans hbytes, bits ++ [bit], ?_, areBits_append hbits ⟨_, hbit, rfl⟩, ?_⟩
    · rwa [Nat.succ_mul, ← Nat.add_assoc]
    · rw [List.length_append, hlength, List.length_singleton]
    · rw [hresult', toNat_or_bit (by omega) hresult, msbFirst_concat, Nat.succ_sub_succ]
  · rw [Nat.add_assoc, ← Nat.succ_mul]
    exact Nat.add_le_add_left (Nat.mul_le_mul_right _ (by omega)) n

/-- After `j` bytes. -/
structure InData (pin : ℕ → Bool) (j : ℕ) (s : Reading) : Prop where
  /-- Nothing was written. -/
  unwritten : Unwritten (2 + j * (8 * bitSamples)) s
  /-- The bits of the samples are those of the bytes. -/
  exists_bits : ∃ bits, bits.length = 8 * j ∧ AreBits pin 2 bits s.samples ∧
    ∀ k < j, s.bits k = byteAt bits k

theorem byteAt_append {bits bits' : List Bool} {j k : ℕ} (hlength : bits.length = 8 * j)
    (hk : k < j) :
    byteAt (bits ++ bits') k = byteAt bits k := by
  rw [byteAt, byteAt, List.drop_append_of_le_length (by omega),
    List.take_append_of_le_length (by rw [List.length_drop]; omega)]

theorem byteAt_append_last {bits bits' : List Bool} {j : ℕ} (hlength : bits.length = 8 * j)
    (hlength' : bits'.length = 8) : byteAt (bits ++ bits') j = BitVec.ofNat 8 (msbFirst bits') := by
  rw [byteAt, ← hlength, List.drop_left, ← hlength', List.take_length]

/-- **The forty bits.** -/
theorem readBytes_sat (pin : ℕ → Bool) {s : Reading} (h : Unwritten 2 s)
    (hsamples : s.samples = 2) :
    (Outcome.forRange (readByte pin) 0 5 s).Sat (InData pin 5) fun _ s' ↦
      Unwritten (2 + 5 * (8 * bitSamples)) s' := by
  have hstart : InData pin 0 s :=
    ⟨by rwa [Nat.zero_mul], [], rfl, hsamples, fun k hk ↦ absurd hk (Nat.not_lt_zero k)⟩
  refine Outcome.Sat.forRange 5 (fun j s' _ hj hin ↦ ?_) hstart
  obtain ⟨hunwritten, bits, hlength, hbits, hbytes⟩ := hin
  refine Outcome.Sat.andThen ((readBits_sat pin hunwritten).mono (fun _ hdone ↦ hdone)
    fun _ _ hstuck ↦ hstuck.mono ?_) fun s'' hin ↦ Outcome.sat_done ?_
  · rw [Nat.add_assoc, ← Nat.succ_mul]
    exact Nat.add_le_add_left (Nat.mul_le_mul_right _ (by omega)) 2
  obtain ⟨hunwritten', hbytes', bits', hlength', hbits', hresult⟩ := hin
  have hbyte : s''.result = BitVec.ofNat 8 (msbFirst bits') := by
    rw [Nat.sub_self, Nat.pow_zero, Nat.mul_one] at hresult
    rw [← hresult, BitVec.ofNat_toNat, BitVec.setWidth_eq]
  refine ⟨?_, bits ++ bits', ?_, areBits_append hbits hbits', fun k hk ↦ ?_⟩
  · rw [Nat.succ_mul, ← Nat.add_assoc]
    exact ⟨hunwritten'.samples, hunwritten'.temperature, hunwritten'.humidity⟩
  · rw [List.length_append, hlength, hlength', Nat.mul_succ]
  · dsimp only
    rcases Nat.lt_succ_iff_lt_or_eq.mp hk with hlt | rfl
    · rw [Function.update_of_ne hlt.ne, hbytes', hbytes k hlt, byteAt_append hlength hlt]
    · rw [Function.update_self, hbyte, byteAt_append_last hlength hlength']

/-! ## The result -/

/-- The samples of a reading, at most. -/
def maxSamples : ℕ := 2 + 5 * (8 * bitSamples)

/-- What is true of a reading with the right checksum. -/
structure Valid (dev : Dht) (pin : ℕ → Bool) (s : Reading) : Prop where
  /-- The number of samples. -/
  samples : s.samples ≤ maxSamples
  /-- Forty bits were read, the last byte is the sum of the others, and the results are theirs. -/
  exists_bits : ∃ bits, bits.length = 40 ∧ AreBits pin 2 bits s.samples ∧
    (∀ k < 5, s.bits k = byteAt bits k) ∧
    byteAt bits 4 = byteAt bits 0 + byteAt bits 1 + byteAt bits 2 + byteAt bits 3 ∧
    (dev.sensorType = dht11 → s.temperature = some (byteAt bits 2) ∧
      s.humidity = some (byteAt bits 0))

theorem samples_output (self : Dht) (s : Reading) : (self.output s).samples = s.samples := by
  rw [output]
  split_ifs <;> rfl

theorem bits_output (self : Dht) (s : Reading) : (self.output s).bits = s.bits := by
  rw [output]
  split_ifs <;> rfl

theorem finish_sat (self : Dht) {pin : ℕ → Bool} {s : Reading} (h : InData pin 5 s) :
    (self.finish s).Sat (self.Valid pin) fun _ s' ↦ Unwritten maxSamples s' := by
  obtain ⟨hunwritten, bits, hlength, hbits, hbytes⟩ := h
  rw [finish]
  split_ifs with hsum
  · refine Outcome.sat_done ⟨?_, bits, hlength, ?_, fun k hk ↦ ?_, ?_, fun hdht11 ↦ ?_⟩
    · rw [samples_output]
      exact hunwritten.samples
    · rwa [samples_output]
    · rw [bits_output, hbytes k hk]
    · rw [← hbytes 0 (by decide), ← hbytes 1 (by decide), ← hbytes 2 (by decide),
        ← hbytes 3 (by decide), ← hbytes 4 (by decide), hsum]
    · rw [output, if_pos hdht11, ← hbytes 0 (by decide), ← hbytes 2 (by decide)]
      exact ⟨rfl, rfl⟩
  · exact Outcome.sat_stuck hunwritten

theorem readData_sat (self : Dht) (pin : ℕ → Bool) :
    (self.readData pin ⟨0, fun _ ↦ 0, 0, none, none⟩).Sat (self.Valid pin)
      fun _ s' ↦ Unwritten maxSamples s' := by
  have hunwritten (n : ℕ) (hn : n ≤ maxSamples) :
      Unwritten maxSamples ⟨n, fun _ ↦ 0, 0, none, none⟩ := ⟨hn, rfl, rfl⟩
  rw [readData]
  split_ifs
  · exact Outcome.sat_stuck (hunwritten 1 (by decide))
  · dsimp only
    split_ifs
    · exact Outcome.sat_stuck (hunwritten 2 (by decide))
    · exact (readBytes_sat pin ⟨le_rfl, rfl, rfl⟩ rfl).andThen fun s hs ↦ self.finish_sat hs

/-- **Readings.** `dht_read` returns after at most 16122 samples, 0 only with the right checksum,
and otherwise -1 without having written anything. -/
theorem read_spec (self : Dht) (pin : ℕ → Bool) :
    (self.read pin).2.samples ≤ 16122 ∧ ((self.read pin).1 = 0 ∨ (self.read pin).1 = -1) ∧
      ((self.read pin).1 = 0 → ∃ bits, bits.length = 40 ∧
        AreBits pin 2 bits (self.read pin).2.samples ∧
        (∀ k < 5, (self.read pin).2.bits k = byteAt bits k) ∧
        byteAt bits 4 = byteAt bits 0 + byteAt bits 1 + byteAt bits 2 + byteAt bits 3 ∧
        (self.sensorType = dht11 → (self.read pin).2.temperature = some (byteAt bits 2) ∧
          (self.read pin).2.humidity = some (byteAt bits 0))) ∧
      ((self.read pin).1 = -1 →
        (self.read pin).2.temperature = none ∧ (self.read pin).2.humidity = none) := by
  have hsat := self.readData_sat pin
  have hne : (0 : ℤ) ≠ -1 := by decide
  rw [read]
  cases hread : self.readData pin ⟨0, fun _ ↦ 0, 0, none, none⟩ with
  | done s =>
    have hvalid := hsat.of_done hread
    exact ⟨hvalid.samples, .inl rfl, fun _ ↦ hvalid.exists_bits,
      fun h ↦ absurd h hne⟩
  | stuck e s =>
    have hunwritten := hsat.of_stuck hread
    exact ⟨hunwritten.samples, .inr rfl, fun h ↦ absurd h hne.symm,
      fun _ ↦ ⟨hunwritten.temperature, hunwritten.humidity⟩⟩

/-- A line on which all bits are zero. -/
def zeroLine (n : ℕ) : Bool := n == 1 || (2 ≤ n && (n - 2) % 3 == 0)

example : ((init dht11).read zeroLine).1 = 0 ∧ ((init dht11).read zeroLine).2.samples = 122 := by
  decide

end Dht

end Martink
