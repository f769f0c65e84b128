import Martink.Base.Bits

/-!
# Setting up the USART on the AVR

`uart_init` of `avr/mega/uart.c`, which expands the macro `uart0_init_default` of `avr/mega/uart.h`.
The divisor for the baud rate is at most 4095 and goes into two registers of eight bits, the upper
four bits of it into `UBRR0H`. The macro shifts it to the left where it has to be shifted to the
right, so `UBRR0H` is always cleared.
-/

namespace Martink

/-- The registers of the USART that are set up, as stored. -/
structure UartRegs where
  /-- The high byte of the divisor. -/
  ubrr0h : BitVec 8
  /-- The low byte of the divisor. -/
  ubrr0l : BitVec 8
  /-- Control register B. -/
  ucsr0b : BitVec 8
  /-- Control register C. -/
  ucsr0c : BitVec 8
deriving DecidableEq

namespace UartRegs

/-! ## The bits of the control registers -/

def rxcie0 : ℕ := 7

def rxen0 : ℕ := 4

def txen0 : ℕ := 3

def ucsz02 : ℕ := 2

def umsel01 : ℕ := 7

def umsel00 : ℕ := 6

def upm01 : ℕ := 5

def upm00 : ℕ := 4

def usbs0 : ℕ := 3

def ucsz01 : ℕ := 2

def ucsz00 : ℕ := 1

/-- `SETBIT`. -/
def setBit (reg : BitVec 8) (bit : ℕ) : BitVec 8 := reg ||| bv bit

/-- `CLRBIT`. -/
def clrBit (reg : BitVec 8) (bit : ℕ) : BitVec 8 := reg &&& ~~~bv bit

/-! ## The macros -/

/-- `BAUD_PRESCALE_ASYNC`. The product is of the unsigned type with 32 bits; dividing by zero is
undefined. -/
def baudPrescaleAsync (fCpu : ℕ) (baudr : BitVec 32) : Option ℤ :=
  let divisor := (baudr * 16).toNat
  if divisor = 0 then none else some (((fCpu / divisor : ℕ) : ℤ) - 1)

/-- `uart0_set_baudrate_raw`. The conversions to `unsigned char` keep the low eight bits. -/
def uart0SetBaudrateRaw (ubrr : ℤ) (r : UartRegs) : UartRegs :=
  { r with ubrr0h := BitVec.ofInt 8 (ubrr * 2 ^ 8), ubrr0l := BitVec.ofInt 8 ubrr }

def uart0ModeAsync (r : UartRegs) : UartRegs :=
  { r with ucsr0c := clrBit (clrBit r.ucsr0c umsel01) umsel00 }

def uart0CharacterSize8 (r : UartRegs) : UartRegs :=
  { r with
    ucsr0b := clrBit r.ucsr0b ucsz02
    ucsr0c := setBit (setBit r.ucsr0c ucsz01) ucsz00 }

def uart0ParityOff (r : UartRegs) : UartRegs :=
  { r with ucsr0c := clrBit (clrBit r.ucsr0c upm01) upm00 }

def uart0Stop1bit (r : UartRegs) : UartRegs := { r with ucsr0c := clrBit r.ucsr0c usbs0 }

def uart0ReceiverEnable (r : UartRegs) : UartRegs := { r with ucsr0b := setBit r.ucsr0b rxen0 }

def uart0TransmitterEnable (r : UartRegs) : UartRegs := { r with ucsr0b := setBit r.ucsr0b txen0 }

def uart0InterruptRxOn (r : UartRegs) : UartRegs := { r with ucsr0b := setBit r.ucsr0b rxcie0 }

def uart0InitDefault (fCpu : ℕ) (baudrate : BitVec 32) (r : UartRegs) : Option UartRegs := do
  let ubrr ← baudPrescaleAsync fCpu baudrate
  let r := uart0CharacterSize8 (uart0ModeAsync (uart0SetBaudrateRaw ubrr r))
  let r := uart0ReceiverEnable (uart0Stop1bit (uart0ParityOff r))
  return uart0InterruptRxOn (uart0TransmitterEnable r)

/-- `uart_init`, with what it returns. -/
def uartInit (fCpu : ℕ) (devId : BitVec 8) (baud : BitVec 32) (r : UartRegs) :
    Option (UartRegs × ℤ) :=
  if devId = 0 then do
    let r ← uart0InitDefault fCpu baud r
    return (r, 0)
  else some (r, -1)

/-! ## The divisor -/

/-- The divisor in the two registers; the upper four bits of `UBRR0H` are not part of it. -/
def baudRegister (r : UartRegs) : ℕ := r.ubrr0h.toNat % 16 * 256 + r.ubrr0l.toNat

/-- Shifted to the left, nothing of the divisor is left in eight bits. -/
theorem ubrr0h_uart0SetBaudrateRaw (ubrr : ℤ) (r : UartRegs) :
    (uart0SetBaudrateRaw ubrr r).ubrr0h = 0 := by
  apply BitVec.eq_of_toNat_eq
  rw [uart0SetBaudrateRaw, BitVec.toNat_ofInt]
  simp

theorem baudRegister_uart0SetBaudrateRaw (n : ℕ) (r : UartRegs) :
    (uart0SetBaudrateRaw n r).baudRegister = n % 256 := by
  have hlow : (uart0SetBaudrateRaw n r).ubrr0l.toNat = n % 256 := by
    rw [uart0SetBaudrateRaw, BitVec.ofInt_natCast, BitVec.toNat_ofNat]
  rw [baudRegister, ubrr0h_uart0SetBaudrateRaw, hlow]
  simp

/-- Below `2^28` the product of the baud rate fits. -/
theorem baudPrescaleAsync_eq {fCpu n : ℕ} {baudr : BitVec 32} (hbaud : baudr.toNat < 2 ^ 28)
    (hn : fCpu / (16 * baudr.toNat) = n + 1) : baudPrescaleAsync fCpu baudr = some (n : ℤ) := by
  have hproduct : (baudr * 16).toNat = 16 * baudr.toNat := by
    have hmul : (baudr * 16).toNat = baudr.toNat * 16 % 4294967296 := by
      rw [BitVec.toNat_mul]
      rfl
    omega
  have hne : 16 * baudr.toNat ≠ 0 := by
    intro h
    rw [h, Nat.div_zero] at hn
    exact nomatch hn
  simp only [baudPrescaleAsync, hproduct, if_neg hne, hn]
  push_cast
  rw [add_sub_cancel_right]

/-- What `uart_init` leaves in the divisor: its low eight bits. -/
theorem uartInit_eq (fCpu n : ℕ) (baud : BitVec 32) (r : UartRegs) (hbaud : baud.toNat < 2 ^ 28)
    (hn : fCpu / (16 * baud.toNat) = n + 1) :
    ∃ r', uartInit fCpu 0 baud r = some (r', 0) ∧ r'.baudRegister = n % 256 := by
  rw [uartInit, if_pos rfl, uart0InitDefault, baudPrescaleAsync_eq hbaud hn]
  exact ⟨_, rfl, baudRegister_uart0SetBaudrateRaw n r⟩

/-- `uart_init` succeeds and the baud register holds the divisor. -/
def HoldsDivisor (fCpu : ℕ) (baud : BitVec 32) (r : UartRegs) : Prop :=
  ∃ r', uartInit fCpu 0 baud r = some (r', 0) ∧
    (r'.baudRegister : ℤ) = (fCpu / (16 * baud.toNat) : ℕ) - 1

/-- **The baud rate.** Only divisors of eight bits are stored. -/
theorem holdsDivisor_iff {fCpu : ℕ} {baud : BitVec 32} (r : UartRegs) (hbaud : baud.toNat < 2 ^ 28)
    (hpos : 1 ≤ fCpu / (16 * baud.toNat)) :
    HoldsDivisor fCpu baud r ↔ fCpu / (16 * baud.toNat) ≤ 256 := by
  obtain ⟨n, hn⟩ : ∃ n, fCpu / (16 * baud.toNat) = n + 1 := ⟨_, (Nat.sub_add_cancel hpos).symm⟩
  obtain ⟨r', hinit, hregister⟩ := uartInit_eq _ n _ r hbaud hn
  rw [HoldsDivisor, hn]
  constructor
  · rintro ⟨r'', hinit', hholds⟩
    obtain rfl : r'' = r' := by
      rw [hinit] at hinit'
      exact (congrArg Prod.fst (Option.some.inj hinit')).symm
    rw [hregister] at hholds
    omega
  · intro hlt
    refine ⟨r', hinit, ?_⟩
    rw [hregister]
    omega

/-- 115200 baud at 16 MHz. -/
theorem holdsDivisor_115200 :
    ((115200 : BitVec 32).toNat < 2 ^ 28 ∧ 1 ≤ 16000000 / (16 * (115200 : BitVec 32).toNat)) ∧
      HoldsDivisor 16000000 115200 ⟨0, 0, 0, 0⟩ :=
  ⟨by decide, (holdsDivisor_iff _ (by decide) (by decide)).mpr (by decide)⟩

/-- At 2400 baud the divisor is 415, and the register holds 159. -/
theorem not_holdsDivisor_2400 :
    ((2400 : BitVec 32).toNat < 2 ^ 28 ∧ 1 ≤ 16000000 / (16 * (2400 : BitVec 32).toNat) ∧
      16000000 / (16 * (2400 : BitVec 32).toNat) ≤ 4096) ∧
      ¬HoldsDivisor 16000000 2400 ⟨0, 0, 0, 0⟩ := by
  refine ⟨by decide, ?_⟩
  rintro ⟨r', hinit, hholds⟩
  obtain ⟨r'', hinit', hregister⟩ :=
    uartInit_eq 16000000 415 2400 ⟨0, 0, 0, 0⟩ (by decide) (by decide)
  rw [hinit] at hinit'
  obtain rfl : r' = r'' := congrArg Prod.fst (Option.some.inj hinit')
  rw [hregister] at hholds
  exact absurd hholds (by decide)

end UartRegs

end Martink
