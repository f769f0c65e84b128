import Martink.Arch.Avr.Gpio

/-!
# Random numbers from a floating pin

`gpio_read_prng` turns a pin into an input, makes sure that it floats, and then takes 32 bits from
the times it needs to change. Each time is a sum of pseudorandom numbers.

The test for a floating pin counts down from 5000 and is failed if the counter is found to be zero.
But a pin that never changes leaves it at 65535. The bits are put into the byte behind the word that
is returned, so this is 0 and is returned as 1.

The pin is one of the ports B, C and D. What it reads is a stream of values of its port's input
register. On some parts a store to this register toggles bits of the output register, so what such a
store does there is a parameter.
-/

namespace Martink

/-- A pin of the ports that the part has. -/
structure PortPin where
  /-- The number that the callers use for the pin. -/
  pin : ℕ
  /-- It is not below that of the first pin. -/
  ge : gpioPb0 ≤ pin
  /-- It is not above that of the last pin. -/
  le : pin ≤ gpioPd7

/-- The port of a pin, and the number generator. -/
structure PinPort where
  /-- The output register of the port. -/
  oreg : BitVec 8
  /-- The direction register of the port. -/
  dreg : BitVec 8
  /-- What was last stored to the input register. -/
  ireg : BitVec 8
  /-- How often the input register was read. -/
  reads : ℕ
  /-- The static variable of the generator. -/
  lfsr : BitVec 16

/-- The word that is built up, and the memory behind it. -/
structure SeedWord where
  /-- The bytes at the address of the word and behind it. -/
  buf : ℕ → BitVec 8
  /-- The places of the bytes that were written. -/
  written : List ℕ
  /-- The bits taken so far, the first one first. -/
  bits : List (BitVec 1)

section Prng

/- What a store to the input register leaves in the output register, and the values read. -/
variable (onStore : BitVec 8 → BitVec 8 → BitVec 8) (input : ℕ → BitVec 8)

namespace PinPort

/-- Read `IREG`. -/
def read (s : PinPort) : BitVec 8 × PinPort := (input s.reads, { s with reads := s.reads + 1 })

/-- Store to `IREG`. -/
def storeIreg (v : BitVec 8) (s : PinPort) : PinPort :=
  { s with ireg := v, oreg := onStore s.oreg v }

/-- `_fx_rand`. -/
def fxRand (s : PinPort) : BitVec 16 × PinPort :=
  let bit := (s.lfsr >>> 0 ^^^ s.lfsr >>> 2 ^^^ s.lfsr >>> 3 ^^^ s.lfsr >>> 5) &&& 1
  let lfsr := s.lfsr >>> 1 ||| bit <<< 15
  (lfsr, { s with lfsr := lfsr })

/-- `body` is run while the pin reads `d` and `timeout`, which is counted down after the test, is
not zero. It returns `timeout`. -/
def whileSame {α : Type} (mask d : BitVec 8) (body : PinPort → α → PinPort × α) :
    ℕ → PinPort → α → ℕ × PinPort × α
  | 0, s, a =>
    let r := s.read input
    if d = r.1 &&& mask then (0xffff, r.2, a) else (0, r.2, a)
  | timeout + 1, s, a =>
    let r := s.read input
    if d = r.1 &&& mask then
      let next := body r.2 a
      whileSame mask d body timeout next.1 next.2
    else (timeout + 1, r.2, a)

/-- The pin becomes an input without pull-up. -/
def release (mask : BitVec 8) (s : PinPort) : PinPort :=
  let s := { s with dreg := s.dreg &&& ~~~mask }
  let r := s.read input
  let s := r.2.storeIreg onStore (r.1 &&& ~~~mask)
  { s with oreg := s.oreg &&& ~~~mask }

def restore (oreg ireg dreg : BitVec 8) (s : PinPort) : PinPort :=
  let s := { s with oreg := oreg }
  let s := s.storeIreg onStore ireg
  { s with dreg := dreg }

/-- The test for a floating pin. It returns what `timeout` is at its end. -/
def floatTest (mask : BitVec 8) (s : PinPort) : ℕ × PinPort :=
  let d := s.read input
  let w := d.2.whileSame input mask (d.1 &&& mask) (fun s (_ : Unit) ↦ (s, ())) 5000 ()
  (w.1, w.2.1)

end PinPort

namespace SeedWord

/-- Write one byte. -/
def store (w : SeedWord) (i : ℕ) (v : BitVec 8) : SeedWord :=
  { w with buf := Function.update w.buf i v, written := w.written ++ [i] }

/-- The word, low byte first. -/
def word (w : SeedWord) : BitVec 32 := w.buf 3 ++ w.buf 2 ++ w.buf 1 ++ w.buf 0

end SeedWord

/-- `sizeof(uint32_t)`. -/
def seedSize : ℕ := 4

/-- One bit of a byte. `timeout` is carried on to the next one. -/
def sampleBit (mask : BitVec 8) (c : ℕ) (st : ℕ × PinPort × SeedWord) : ℕ × PinPort × SeedWord :=
  let d := st.2.1.read input
  let w := d.2.whileSame input mask (d.1 &&& mask)
    (fun s x ↦ (s.fxRand.2, x + s.fxRand.1)) st.1 (0 : BitVec 16)
  let x := w.2.2
  let seed := st.2.2.store seedSize
    (st.2.2.buf seedSize ||| ((x &&& 1) <<< c).setWidth 8)
  ((x &&& 0xff).toNat, w.2.1, { seed with bits := seed.bits ++ [x.setWidth 1] })

/-- One byte. -/
def sampleByte (mask : BitVec 8) (byte : ℕ) (st : PinPort × SeedWord) : PinPort × SeedWord :=
  ((List.range 8).foldl (fun st c ↦ sampleBit input mask c st) (0xff, st.1, st.2.store byte 0)).2

/-- All the bytes. -/
def sampleBytes (mask : BitVec 8) (st : PinPort × SeedWord) : PinPort × SeedWord :=
  (List.range seedSize).foldl (fun st byte ↦ sampleByte input mask byte st) st

/-- The word before the first bit. `behind` is what is in memory from its end on. -/
def emptySeed (behind : ℕ → BitVec 8) : SeedWord :=
  ⟨fun i ↦ if i < seedSize then 0 else behind i, [], []⟩

/-- What comes out of a call. -/
structure PrngResult where
  /-- What the call returns. -/
  value : BitVec 32
  /-- The port afterwards. -/
  port : PinPort
  /-- The word afterwards. -/
  seed : SeedWord

def gpioReadPrng (behind : ℕ → BitVec 8) (pin : PortPin) (s : PinPort) : PrngResult :=
  let dreg := s.dreg
  let ireg := s.read input
  let oreg := ireg.2.oreg
  let mask := bv (pidx pin.pin)
  let test := (ireg.2.release onStore input mask).floatTest input mask
  if test.1 = 0 then ⟨0, test.2.restore onStore oreg ireg.1 dreg, emptySeed behind⟩
  else
    let st := sampleBytes input mask (test.2, emptySeed behind)
    ⟨if st.2.word = 0 then 1 else st.2.word, st.1.restore onStore oreg ireg.1 dreg, st.2⟩

/-! ## The test for a floating pin -/

variable {onStore : BitVec 8 → BitVec 8 → BitVec 8} {input : ℕ → BitVec 8}

/-- The counter is zero at the end if the pin changes just then. -/
theorem PinPort.whileSame_fst_eq_zero_iff {α : Type} (mask d : BitVec 8)
    (body : PinPort → α → PinPort × α) (hbody : ∀ s a, (body s a).1.reads = s.reads) (n : ℕ) :
    ∀ (s : PinPort) (a : α), (s.whileSame input mask d body n a).1 = 0 ↔
        (∀ i < n, input (s.reads + i) &&& mask = d) ∧ input (s.reads + n) &&& mask ≠ d := by
  induction n with
  | zero =>
    intro s a
    rw [whileSame, read]
    by_cases h : d = input s.reads &&& mask
    · simp [← h]
    · simp [h, Ne.symm h]
  | succ n ih =>
    intro s a
    rw [whileSame, read]
    by_cases h : d = input s.reads &&& mask
    · simp only [if_pos h]
      rw [ih, hbody, Nat.forall_lt_succ_left]
      simp only [Nat.add_zero, ← h, true_and, Nat.add_assoc, Nat.add_comm 1]
    · simp only [if_neg h]
      refine iff_of_false (Nat.succ_ne_zero n) fun hsame ↦ ?_
      exact h (hsame.1 0 (Nat.succ_pos n)).symm

theorem PinPort.floatTest_fst_eq_zero_iff (mask : BitVec 8) (s : PinPort) :
    (s.floatTest input mask).1 = 0 ↔
      (∀ i < 5000, input (s.reads + (i + 1)) &&& mask = input s.reads &&& mask) ∧
        input (s.reads + 5001) &&& mask ≠ input s.reads &&& mask := by
  rw [floatTest]
  refine (whileSame_fst_eq_zero_iff _ _ _ (fun _ _ ↦ rfl) 5000 _ ()).trans ?_
  simp only [read, Nat.add_assoc, Nat.add_comm 1]

/-- The `i`-th value that the test sees of the pin. Two values of its port are read before. -/
def level (input : ℕ → BitVec 8) (pin : PortPin) (s : PinPort) (i : ℕ) : BitVec 8 :=
  input (s.reads + 2 + i) &&& bv (pidx pin.pin)

/-- The pin does not change in the test. -/
def Steady (input : ℕ → BitVec 8) (pin : PortPin) (s : PinPort) : Prop :=
  ∀ i < 5000, level input pin s (i + 1) = level input pin s 0

/-- The test that a call makes. -/
def prngTest (onStore : BitVec 8 → BitVec 8 → BitVec 8) (input : ℕ → BitVec 8) (pin : PortPin)
    (s : PinPort) : ℕ × PinPort :=
  ((s.read input).2.release onStore input (bv (pidx pin.pin))).floatTest input (bv (pidx pin.pin))

/-- The test is failed by a pin that changes right after it. -/
theorem prngTest_fst_eq_zero_iff (onStore : BitVec 8 → BitVec 8 → BitVec 8) (pin : PortPin)
    (s : PinPort) :
    (prngTest onStore input pin s).1 = 0 ↔
      Steady input pin s ∧ level input pin s 5001 ≠ level input pin s 0 := by
  have hreads : ((s.read input).2.release onStore input (bv (pidx pin.pin))).reads
      = s.reads + 2 := rfl
  rw [prngTest, PinPort.floatTest_fst_eq_zero_iff, hreads]
  rfl

/-! ## Sampling -/

/-- What a loop over steps that each append to a log appends to it. -/
theorem log_foldl {σ α β : Type} {f : σ → α → σ} (log : σ → List β) (g : α → List β)
    (h : ∀ s a, log (f s a) = log s ++ g a) (as : List α) : ∀ s,
      log (as.foldl f s) = log s ++ as.flatMap g := by
  induction as with
  | nil => exact fun s ↦ (List.append_nil _).symm
  | cons a as ih =>
    intro s
    rw [List.foldl_cons, ih, h, List.flatMap_cons, List.append_assoc]

theorem written_sampleByte (mask : BitVec 8) (st : PinPort × SeedWord) (byte : ℕ) :
    (sampleByte input mask byte st).2.written
      = st.2.written ++ byte :: List.replicate 8 seedSize := by
  rw [sampleByte]
  refine (log_foldl (fun st : ℕ × PinPort × SeedWord ↦ st.2.2.written)
    (fun _ ↦ [seedSize]) (fun _ _ ↦ rfl) (List.range 8) _).trans ?_
  rw [SeedWord.store, List.append_assoc]
  rfl

/-- Every bit is written behind the word. -/
theorem written_sampleBytes (mask : BitVec 8) (st : PinPort × SeedWord) :
    (sampleBytes input mask st).2.written = st.2.written ++
      (List.range seedSize).flatMap fun byte ↦ byte :: List.replicate 8 seedSize :=
  log_foldl (fun st : PinPort × SeedWord ↦ st.2.written) _ (written_sampleByte mask) _ st

/-- The word itself stays zero. -/
theorem word_sampleBytes (mask : BitVec 8) (port : PinPort) (behind : ℕ → BitVec 8) :
    (sampleBytes input mask (port, emptySeed behind)).2.word = 0 := by
  have hbit (c : ℕ) (st : ℕ × PinPort × SeedWord) (h : ∀ i < seedSize, st.2.2.buf i = 0) :
      ∀ i < seedSize, (sampleBit input mask c st).2.2.buf i = 0 := by
    intro i hi
    exact (Function.update_of_ne hi.ne _ _).trans (h i hi)
  have hbyte (byte : ℕ) (st : PinPort × SeedWord) (h : ∀ i < seedSize, st.2.buf i = 0) :
      ∀ i < seedSize, (sampleByte input mask byte st).2.buf i = 0 := by
    refine List.foldlRecOn (List.range 8) _ (motive := fun st ↦ ∀ i < seedSize, st.2.2.buf i = 0) ?_
      fun st h c _ ↦ hbit c st h
    intro i hi
    simp only [SeedWord.store, Function.update_apply]
    split_ifs
    · rfl
    · exact h i hi
  have hzero : ∀ i < seedSize, (sampleBytes input mask (port, emptySeed behind)).2.buf i = 0 :=
    List.foldlRecOn (List.range seedSize) _ (motive := fun st ↦ ∀ i < seedSize, st.2.buf i = 0)
      (fun i hi ↦ if_pos hi) fun st h byte _ ↦ hbyte byte st h
  rw [SeedWord.word, hzero 0 (by decide), hzero 1 (by decide), hzero 2 (by decide),
    hzero 3 (by decide)]
  rfl

/-! ## The call -/

/-- The word `v` is made of the bits, the first one being the lowest. -/
def Collects (bits : List (BitVec 1)) (v : BitVec 32) : Prop :=
  bits.length = 32 ∧ ∀ b < 4, ∀ c < 8, v.getLsbD (8 * b + c) = (bits.getD (8 * b + c) 0).getLsbD 0

/-- The registers of the port are what they were, or were last given what they were. -/
structure Restored (input : ℕ → BitVec 8) (s s' : PinPort) : Prop where
  /-- The output register is what it was. -/
  oreg : s'.oreg = s.oreg
  /-- The direction register is what it was. -/
  dreg : s'.dreg = s.dreg
  /-- The input register was last stored what it was read as first. -/
  ireg : s'.ireg = input s.reads

/-- What is asked of a call. -/
structure RightPrng (onStore : BitVec 8 → BitVec 8 → BitVec 8) (input behind : ℕ → BitVec 8)
    (pin : PortPin) (s : PinPort) : Prop where
  /-- A pin that never changes gives 0. -/
  steady : Steady input pin s → (gpioReadPrng onStore input behind pin s).value = 0
  /-- Any other pin gives the word of the bits that were taken, with 1 in place of 0. -/
  bits : ¬Steady input pin s → ∃ v, Collects (gpioReadPrng onStore input behind pin s).seed.bits v ∧
    (gpioReadPrng onStore input behind pin s).value = if v = 0 then 1 else v
  /-- No byte is written outside the word. -/
  within : ∀ i ∈ (gpioReadPrng onStore input behind pin s).seed.written, i < seedSize
  /-- The registers are put back. -/
  restored : Restored input s (gpioReadPrng onStore input behind pin s).port

/-- The registers can be restored if the last store to the input register leaves the output register
alone. -/
theorem restored_restore_iff (s s' : PinPort) :
    Restored input s (s'.restore onStore s.oreg (input s.reads) s.dreg) ↔
      onStore s.oreg (input s.reads) = s.oreg :=
  ⟨fun h ↦ h.oreg, fun h ↦ ⟨h, rfl, rfl⟩⟩

theorem gpioReadPrng_of_failed (behind : ℕ → BitVec 8) {pin : PortPin} {s : PinPort}
    (h : (prngTest onStore input pin s).1 = 0) :
    gpioReadPrng onStore input behind pin s = ⟨0,
      (prngTest onStore input pin s).2.restore onStore s.oreg (input s.reads) s.dreg,
      emptySeed behind⟩ := if_pos h

/-- What is returned for a floating pin does not depend on the bits. -/
theorem gpioReadPrng_of_passed (behind : ℕ → BitVec 8) {pin : PortPin} {s : PinPort}
    (h : (prngTest onStore input pin s).1 ≠ 0) :
    gpioReadPrng onStore input behind pin s =
      let st := sampleBytes input (bv (pidx pin.pin))
        ((prngTest onStore input pin s).2, emptySeed behind)
      ⟨1, st.1.restore onStore s.oreg (input s.reads) s.dreg, st.2⟩ := by
  refine (if_neg h).trans ?_
  have hword : (sampleBytes input (bv (pidx pin.pin))
      ((prngTest onStore input pin s).2, emptySeed behind)).2.word = 0 := word_sampleBytes _ _ _
  rw [prngTest] at hword ⊢
  simp only [hword, if_pos]
  rfl

theorem restored_gpioReadPrng_iff (onStore : BitVec 8 → BitVec 8 → BitVec 8)
    (behind : ℕ → BitVec 8) (pin : PortPin) (s : PinPort) :
    Restored input s (gpioReadPrng onStore input behind pin s).port ↔
      onStore s.oreg (input s.reads) = s.oreg := by
  by_cases h : (prngTest onStore input pin s).1 = 0
  · rw [gpioReadPrng_of_failed behind h]
    exact restored_restore_iff _ _
  · rw [gpioReadPrng_of_passed behind h]
    exact restored_restore_iff _ _

/-- **The call.** It does what is asked of it for a pin that changes right after the test, if the
last store to the input register leaves the output register alone. -/
theorem rightPrng_iff (behind : ℕ → BitVec 8) (pin : PortPin) (s : PinPort) :
    RightPrng onStore input behind pin s ↔ Steady input pin s ∧
      level input pin s 5001 ≠ level input pin s 0 ∧ onStore s.oreg (input s.reads) = s.oreg := by
  rw [← and_assoc, ← prngTest_fst_eq_zero_iff onStore,
    ← restored_gpioReadPrng_iff onStore behind pin s]
  constructor
  · refine fun h ↦ ⟨?_, h.restored⟩
    by_contra hpassed
    have hbehind : seedSize ∈ (List.range seedSize).flatMap
        fun byte ↦ byte :: List.replicate 8 seedSize := by
      decide
    have hseed := h.within seedSize
    rw [gpioReadPrng_of_passed behind hpassed, written_sampleBytes] at hseed
    exact absurd (hseed (List.mem_append_right _ hbehind)) (lt_irrefl _)
  · rintro ⟨hfailed, hrestored⟩
    have hsteady := (prngTest_fst_eq_zero_iff onStore pin s).mp hfailed
    refine ⟨fun _ ↦ ?_, fun h ↦ absurd hsteady.1 h, ?_, hrestored⟩
    · rw [gpioReadPrng_of_failed behind hfailed]
    · rw [gpioReadPrng_of_failed behind hfailed]
      exact fun i hi ↦ absurd hi List.not_mem_nil

end Prng

/-- A pin with a pull-up: it always reads as one. -/
def pulledUp : ℕ → BitVec 8 := fun _ ↦ 0xff

def pinB0 : PortPin where
  pin := gpioPb0
  ge := le_rfl
  le := by decide

/-- A port before the first call. -/
def idlePort : PinPort := ⟨0, 0, 0, 0, 0xace1⟩

/-- A pin that never changes is taken for one that floats. -/
theorem not_rightPrng_pulledUp :
    ¬RightPrng (fun oreg _ ↦ oreg) pulledUp (fun _ ↦ 0) pinB0 idlePort := by
  intro h
  have hpassed : (prngTest (fun oreg _ ↦ oreg) pulledUp pinB0 idlePort).1 ≠ 0 :=
    fun hfailed ↦ ((prngTest_fst_eq_zero_iff _ _ _).mp hfailed).2 rfl
  have hvalue := h.steady fun _ _ ↦ rfl
  rw [gpioReadPrng_of_passed _ hpassed] at hvalue
  exact absurd hvalue (by decide)

end Martink
