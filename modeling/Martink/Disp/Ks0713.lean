import Mathlib.Data.BitVec
import Mathlib.Tactic

/-!
# The LCD driver

The controller is driven over a parallel bus of 16 lines. The driver sends *words*, the levels of
all lines at once, through a callback `putn` that the board supplies; every byte it sends takes two
words, one with the byte on the data lines and one that latches it. `port_state` is the word sent
last, and its bit 13 drives the backlight.

The state `bus` is what the callback has done to the board so far, so that nothing is assumed of the
board here. `ks0713_commit` exists twice: `commitSaveMemory` calls `putn` for each word, `commit`
fills a buffer of `cmdBufSize` words and calls it once. A store past the end of that buffer, and a
transfer that reads a slot nothing was stored in, are undefined and end in `none`.
-/

namespace Martink

/-! ## The bus lines -/

/-- `KS0713_WIDTH`. -/
abbrev ks0713Width : ℕ := 128

/-- `KS0713_HEIGHT`. -/
abbrev ks0713Height : ℕ := 64

namespace Ks0713

def pinMask : BitVec 16 := 0x1fff

/-- The lines of the data byte. -/
def dataLines : BitVec 16 := 0xff

def rd : BitVec 16 := 1 <<< 8

def wr : BitVec 16 := 1 <<< 9

/-- Low for a command, high for a byte of the display. -/
def a0 : BitVec 16 := 1 <<< 10

def res : BitVec 16 := 1 <<< 11

def cs1 : BitVec 16 := 1 <<< 12

def backlight : BitVec 16 := 1 <<< 13

/-- A command byte on the data lines, with the chip selected. -/
def selectCommand (word cmd : BitVec 16) : BitVec 16 :=
  (word &&& ~~~(cs1 ||| wr ||| dataLines ||| a0)) ||| (rd ||| cmd)

/-- Switch from commands to bytes of the display. -/
def selectData (word : BitVec 16) : BitVec 16 := (word &&& ~~~(wr ||| dataLines)) ||| a0

/-- A byte of the display on the data lines, with the chip selected. -/
def selectByte (word : BitVec 16) (data : BitVec 8) : BitVec 16 :=
  (word &&& ~~~(cs1 ||| dataLines)) ||| (rd ||| data.setWidth 16)

/-- The word that ends a byte. -/
def latch (word : BitVec 16) : BitVec 16 := (word ||| cs1) &&& ~~~rd

end Ks0713

/-! ## The driver -/

/-- `lcd_buffer`: eight rows of bytes, each byte a column of eight pixels. -/
abbrev LcdBuffer : Type := Vector (BitVec 8) (ks0713Width * ks0713Height / 8)

/-- `struct ks0713`, with the board behind its callback. -/
structure Ks0713 (σ : Type) where
  /-- The word of the port, without the data. -/
  portState : BitVec 16
  /-- The contrast. -/
  contrast : BitVec 8
  /-- The pixels, eight of a column in a byte. -/
  lcdBuffer : LcdBuffer
  /-- The column of the next character. -/
  cursorX : BitVec 16
  /-- The row of the next character. -/
  cursorY : BitVec 16
  /-- The board. -/
  bus : σ

namespace Ks0713

variable {σ : Type} (putn : σ → List (BitVec 16) → σ)

/-- Hand `port_state` to the board. -/
def sendPortState (d : Ks0713 σ) : Ks0713 σ := { d with bus := putn d.bus [d.portState] }

def sendCommand (d : Ks0713 σ) (cmd : BitVec 8) : Ks0713 σ :=
  let d := sendPortState putn { d with portState := selectCommand d.portState (cmd.setWidth 16) }
  sendPortState putn { d with portState := latch d.portState }

def setBacklight (d : Ks0713 σ) (on : BitVec 8) : Ks0713 σ :=
  sendPortState putn
    { d with portState := if on ≠ 0 then d.portState ||| backlight
                          else d.portState &&& ~~~backlight }

/-- The sums are of the value just stored with itself, and the second test never holds. -/
def setContrast (d : Ks0713 σ) (val : BitVec 8) : Ks0713 σ :=
  let contrast : BitVec 8 :=
    if val.toNat + val.toNat > 0xff then 0xff
    else if val.toNat + val.toNat < 0 then 0
    else val
  let d := sendCommand putn { d with contrast := contrast } 0x81
  sendCommand putn d d.contrast

/-! ## Sending a frame -/

theorem rowIndex_lt (row : Fin (ks0713Height / 8)) (i : Fin ks0713Width) :
    ks0713Width * row + (ks0713Width - 1) - i < ks0713Width * ks0713Height / 8 := by
  have hrow : (row : ℕ) < 8 := row.isLt
  simp only [ks0713Width, ks0713Height]
  omega

/-- The byte that the pointer into row `row` reaches after `i` steps back from the row's end. -/
def rowByte (lcd : LcdBuffer) (row : Fin (ks0713Height / 8)) (i : Fin ks0713Width) : BitVec 8 :=
  lcd.get ⟨ks0713Width * row + (ks0713Width - 1) - i, rowIndex_lt row i⟩

/-- A command in `commitSaveMemory`, from the control word and the board to those after it. -/
def commitCommandSaveMemory (t : BitVec 16 × σ) (cmd : BitVec 16) : BitVec 16 × σ :=
  let word := selectCommand t.1 cmd
  let bus := putn t.2 [word]
  let word := latch word
  (word, putn bus [word])

def commitByteSaveMemory (lcd : LcdBuffer) (row : Fin (ks0713Height / 8)) (t : BitVec 16 × σ)
    (i : Fin ks0713Width) : BitVec 16 × σ :=
  let word := selectByte t.1 (rowByte lcd row i)
  let bus := putn t.2 [word]
  let word := latch word
  (word, putn bus [word])

/-- Page address, column address in two halves, and the bytes of the row. -/
def commitRowSaveMemory (lcd : LcdBuffer) (t : BitVec 16 × σ) (row : Fin (ks0713Height / 8)) :
    BitVec 16 × σ :=
  let t := commitCommandSaveMemory putn t (0xb0 ||| BitVec.ofNat 16 row)
  let t := commitCommandSaveMemory putn t (0x00 ||| 0x04)
  let t := commitCommandSaveMemory putn t (0x10 ||| 0x00)
  (List.finRange ks0713Width).foldl (commitByteSaveMemory putn lcd row) (selectData t.1, t.2)

/-- `ks0713_commit` under `CONFIG_SAVE_MEMORY`. -/
def commitSaveMemory (d : Ks0713 σ) : Ks0713 σ :=
  { d with
    bus := ((List.finRange (ks0713Height / 8)).foldl (commitRowSaveMemory putn d.lcdBuffer)
      (d.portState, d.bus)).2 }

end Ks0713

/-- `cmd_buf_size`. -/
def cmdBufSize : ℕ := (ks0713Height / 8) * (ks0713Width * 2 + 6)

/-- The local command buffer, `none` in the slots not stored to, and the index of `cmd` in it. -/
structure CmdBuffer where
  /-- What was stored. -/
  slots : List (Option (BitVec 16))
  /-- The slot that `cmd` points to. -/
  next : ℕ

namespace CmdBuffer

def declare : CmdBuffer := ⟨List.replicate cmdBufSize none, 0⟩

/-- `*cmd++ = word`. -/
def store (b : CmdBuffer) (word : BitVec 16) : Option CmdBuffer :=
  if b.next < cmdBufSize then some ⟨b.slots.set b.next (some word), b.next + 1⟩ else none

/-- What a transfer of the whole buffer reads. -/
def read (b : CmdBuffer) : Option (List (BitVec 16)) := b.slots.mapM id

end CmdBuffer

namespace Ks0713

variable {σ : Type} (putn : σ → List (BitVec 16) → σ)

/-- A command in `commit`, from the control word and the buffer to those after it. -/
def fillCommand (t : BitVec 16 × CmdBuffer) (cmd : BitVec 16) : Option (BitVec 16 × CmdBuffer) := do
  let word := selectCommand t.1 cmd
  let buf ← t.2.store word
  let word := latch word
  let buf ← buf.store word
  return (word, buf)

def fillByte (lcd : LcdBuffer) (row : Fin (ks0713Height / 8)) (t : BitVec 16 × CmdBuffer)
    (i : Fin ks0713Width) : Option (BitVec 16 × CmdBuffer) := do
  let word := selectByte t.1 (rowByte lcd row i)
  let buf ← t.2.store word
  let word := latch word
  let buf ← buf.store word
  return (word, buf)

def fillRow (lcd : LcdBuffer) (t : BitVec 16 × CmdBuffer) (row : Fin (ks0713Height / 8)) :
    Option (BitVec 16 × CmdBuffer) := do
  let t ← fillCommand t (0xb0 ||| BitVec.ofNat 16 row)
  let t ← fillCommand t (0x00 ||| 0x04)
  let t ← fillCommand t (0x10 ||| 0x00)
  (List.finRange ks0713Width).foldlM (fillByte lcd row) (selectData t.1, t.2)

/-- The command buffer as the loops of `commit` leave it. -/
def fillCommands (d : Ks0713 σ) : Option CmdBuffer := do
  let t ← (List.finRange (ks0713Height / 8)).foldlM (fillRow d.lcdBuffer) (d.portState, .declare)
  return t.2

/-- `ks0713_commit` without `CONFIG_SAVE_MEMORY`. -/
def commit (d : Ks0713 σ) : Option (Ks0713 σ) := do
  let cmd ← fillCommands d
  let words ← cmd.read
  return { d with bus := putn d.bus words }

end Ks0713

/-! ## The command buffer as a list of words -/

namespace CmdBuffer

/-- The buffer after the words `ws` were stored. -/
def holding (ws : List (BitVec 16)) : CmdBuffer where
  slots := ws.map some ++ List.replicate (cmdBufSize - ws.length) none
  next := ws.length

theorem declare_eq_holding : declare = holding [] := rfl

theorem store_holding {ws : List (BitVec 16)} (h : ws.length < cmdBufSize) (word : BitVec 16) :
    (holding ws).store word = some (holding (ws ++ [word])) := by
  obtain ⟨n, hn⟩ : ∃ n, cmdBufSize - ws.length = n + 1 :=
    ⟨cmdBufSize - ws.length - 1, by omega⟩
  have hrest : cmdBufSize - (ws ++ [word]).length = n := by
    rw [List.length_append, List.length_singleton]
    omega
  simp only [store, holding, if_pos h, hrest, hn, List.replicate_succ]
  simp

theorem slots_holding {ws : List (BitVec 16)} (h : ws.length = cmdBufSize) :
    (holding ws).slots = ws.map some := by
  simp [holding, h]

theorem read_holding {ws : List (BitVec 16)} (h : ws.length = cmdBufSize) :
    (holding ws).read = some ws := by
  rw [read, slots_holding h]
  clear h
  induction ws with
  | nil => rfl
  | cons w ws ih => simp_all

variable {α : Type} {g : BitVec 16 × CmdBuffer → α → Option (BitVec 16 × CmdBuffer)}
  {f : BitVec 16 × List (BitVec 16) → α → BitVec 16 × List (BitVec 16)} {n : ℕ}

/-- A loop that stores `n` words in each round, against the same loop on lists. -/
theorem foldlM_holding (hlen : ∀ t a, (f t a).2.length = t.2.length + n)
    (hstep : ∀ t a, t.2.length + n ≤ cmdBufSize →
      g (t.map id holding) a = some ((f t a).map id holding)) (l : List α) :
    ∀ t, t.2.length + n * l.length ≤ cmdBufSize →
      l.foldlM g (t.map id holding) = some ((l.foldl f t).map id holding) ∧
        (l.foldl f t).2.length = t.2.length + n * l.length := by
  induction l with
  | nil => exact fun t _ ↦ ⟨rfl, rfl⟩
  | cons a l ih =>
    intro t ht
    rw [List.length_cons, Nat.mul_succ] at ht
    obtain ⟨hfold, hlength⟩ := ih (f t a) (by rw [hlen]; omega)
    refine ⟨?_, ?_⟩
    · rw [List.foldlM_cons, hstep t a (by omega)]
      exact hfold
    · rw [List.foldl_cons, hlength, hlen, List.length_cons, Nat.mul_succ]
      omega

end CmdBuffer

/-! ## The two versions -/

namespace Ks0713

/-- The words of a frame: what `commitSaveMemory` sends to a board that notes them down. -/
def frameWords (d : Ks0713 σ) : List (BitVec 16) :=
  ((List.finRange (ks0713Height / 8)).foldl (commitRowSaveMemory (· ++ ·) d.lcdBuffer)
    (d.portState, [])).2

variable {σ : Type} (putn : σ → List (BitVec 16) → σ) {lcd : LcdBuffer}
    {row : Fin (ks0713Height / 8)}

/-- A board that words are handed to one by one ends up as if it were handed what another board
noted down. -/
theorem commitSaveMemory_bus (d : Ks0713 σ) :
    (commitSaveMemory putn d).bus = (frameWords d).foldl (fun bus w ↦ putn bus [w]) d.bus := by
  -- `play` takes the list of one board to the state of the other; every loop commutes with it.
  let play (ws : List (BitVec 16)) : σ := ws.foldl (fun bus w ↦ putn bus [w]) d.bus
  have hplay (ws : List (BitVec 16)) (w : BitVec 16) : putn (play ws) [w] = play (ws ++ [w]) := by
    simp only [play, List.foldl_append, List.foldl_cons, List.foldl_nil]
  have hcommand (t : BitVec 16 × List (BitVec 16)) (cmd : BitVec 16) :
      commitCommandSaveMemory putn (t.map id play) cmd
        = (commitCommandSaveMemory (· ++ ·) t cmd).map id play := by
    simp only [commitCommandSaveMemory, Prod.map, hplay, id]
  have hbyte (row) (t : BitVec 16 × List (BitVec 16)) (i : Fin ks0713Width) :
      commitByteSaveMemory putn d.lcdBuffer row (t.map id play) i
        = (commitByteSaveMemory (· ++ ·) d.lcdBuffer row t i).map id play := by
    simp only [commitByteSaveMemory, Prod.map, hplay, id]
  have hbytes (row) (l : List (Fin ks0713Width)) (t : BitVec 16 × List (BitVec 16)) :
      l.foldl (commitByteSaveMemory putn d.lcdBuffer row) (t.map id play)
        = (l.foldl (commitByteSaveMemory (· ++ ·) d.lcdBuffer row) t).map id play :=
    List.foldl_hom _ (hbyte row)
  have hrow (t : BitVec 16 × List (BitVec 16)) (row) :
      commitRowSaveMemory putn d.lcdBuffer (t.map id play) row
        = (commitRowSaveMemory (· ++ ·) d.lcdBuffer t row).map id play := by
    simp only [commitRowSaveMemory, hcommand]
    exact hbytes row _ (selectData _, _)
  have hrows (l : List (Fin (ks0713Height / 8))) (t : BitVec 16 × List (BitVec 16)) :
      l.foldl (commitRowSaveMemory putn d.lcdBuffer) (t.map id play)
        = (l.foldl (commitRowSaveMemory (· ++ ·) d.lcdBuffer) t).map id play :=
    List.foldl_hom _ hrow
  have hstart : (d.portState, d.bus) = Prod.map id play (d.portState, []) := rfl
  simp only [commitSaveMemory, frameWords, hstart, hrows, Prod.map_snd]
  rfl

theorem length_commitCommand (t : BitVec 16 × List (BitVec 16)) (cmd : BitVec 16) :
    (commitCommandSaveMemory (· ++ ·) t cmd).2.length = t.2.length + 2 := by
  simp [commitCommandSaveMemory]

theorem length_commitByte (t : BitVec 16 × List (BitVec 16)) (i : Fin ks0713Width) :
    (commitByteSaveMemory (· ++ ·) lcd row t i).2.length = t.2.length + 2 := by
  simp [commitByteSaveMemory]

/-- Two stores, one after the other. -/
theorem store_store_holding {ws : List (BitVec 16)} (h : ws.length + 2 ≤ cmdBufSize)
    (w w' : BitVec 16) :
    ((CmdBuffer.holding ws).store w).bind (·.store w')
      = some (CmdBuffer.holding (ws ++ [w] ++ [w'])) := by
  rw [CmdBuffer.store_holding (by omega), Option.bind_some,
    CmdBuffer.store_holding (by rw [List.length_append, List.length_singleton]; omega)]

theorem fillCommand_holding (t : BitVec 16 × List (BitVec 16)) (cmd : BitVec 16)
    (h : t.2.length + 2 ≤ cmdBufSize) :
    fillCommand (t.map id CmdBuffer.holding) cmd
      = some ((commitCommandSaveMemory (· ++ ·) t cmd).map id CmdBuffer.holding) := by
  have hstore := store_store_holding h (selectCommand t.1 cmd) (latch (selectCommand t.1 cmd))
  simp only [fillCommand, Prod.map_fst, Prod.map_snd, id, Option.bind_eq_bind]
  rw [← Option.bind_assoc, hstore]
  rfl

theorem fillByte_holding (t : BitVec 16 × List (BitVec 16)) (i : Fin ks0713Width)
    (h : t.2.length + 2 ≤ cmdBufSize) :
    fillByte lcd row (t.map id CmdBuffer.holding) i
      = some ((commitByteSaveMemory (· ++ ·) lcd row t i).map id CmdBuffer.holding) := by
  have hstore := store_store_holding h (selectByte t.1 (rowByte lcd row i))
    (latch (selectByte t.1 (rowByte lcd row i)))
  simp only [fillByte, Prod.map_fst, Prod.map_snd, id, Option.bind_eq_bind]
  rw [← Option.bind_assoc, hstore]
  rfl

theorem length_commitRow (t : BitVec 16 × List (BitVec 16)) (row : Fin (ks0713Height / 8)) :
    (commitRowSaveMemory (· ++ ·) lcd t row).2.length = t.2.length + (ks0713Width * 2 + 6) := by
  have hbytes (l : List (Fin ks0713Width)) : ∀ t : BitVec 16 × List (BitVec 16),
      (l.foldl (commitByteSaveMemory (· ++ ·) lcd row) t).2.length = t.2.length + 2 * l.length := by
    induction l with
    | nil => exact fun t ↦ rfl
    | cons i l ih =>
      intro t
      rw [List.foldl_cons, ih, length_commitByte, List.length_cons]
      omega
  rw [commitRowSaveMemory, hbytes, length_commitCommand, length_commitCommand,
    length_commitCommand, List.length_finRange]
  omega

theorem fillRow_holding (t : BitVec 16 × List (BitVec 16)) (row : Fin (ks0713Height / 8))
    (h : t.2.length + (ks0713Width * 2 + 6) ≤ cmdBufSize) :
    fillRow lcd (t.map id CmdBuffer.holding) row
      = some ((commitRowSaveMemory (· ++ ·) lcd t row).map id CmdBuffer.holding) := by
  have hw : ks0713Width = 128 := rfl
  rw [fillRow]
  simp only [Option.bind_eq_bind]
  rw [fillCommand_holding _ _ (by omega), Option.bind_some,
    fillCommand_holding _ _ (by rw [length_commitCommand]; omega), Option.bind_some,
    fillCommand_holding _ _ (by rw [length_commitCommand, length_commitCommand]; omega),
    Option.bind_some]
  have hlength : (commitCommandSaveMemory (· ++ ·) (commitCommandSaveMemory (· ++ ·)
      (commitCommandSaveMemory (· ++ ·) t (0xb0 ||| BitVec.ofNat 16 row)) (0x00 ||| 0x04))
      (0x10 ||| 0x00)).2.length = t.2.length + 6 := by
    rw [length_commitCommand, length_commitCommand, length_commitCommand]
  rw [commitRowSaveMemory]
  generalize commitCommandSaveMemory (· ++ ·) (commitCommandSaveMemory (· ++ ·)
    (commitCommandSaveMemory (· ++ ·) t _) _) _ = u at hlength ⊢
  refine (CmdBuffer.foldlM_holding length_commitByte fillByte_holding _ (selectData u.1, u.2) ?_).1
  rw [hlength, List.length_finRange]
  omega

theorem fillCommands_eq (d : Ks0713 σ) :
    fillCommands d = some (CmdBuffer.holding (frameWords d)) ∧
      (frameWords d).length = cmdBufSize := by
  have hsize : cmdBufSize = (ks0713Width * 2 + 6) * (List.finRange (ks0713Height / 8)).length := rfl
  obtain ⟨hfold, hlength⟩ := CmdBuffer.foldlM_holding length_commitRow
    (fun t row h ↦ fillRow_holding t row h) (List.finRange (ks0713Height / 8))
    (d.portState, []) (by rw [List.length_nil, hsize, Nat.zero_add])
  refine ⟨?_, by rw [frameWords, hlength, List.length_nil, hsize, Nat.zero_add]⟩
  rw [fillCommands, Option.bind_eq_bind, CmdBuffer.declare_eq_holding]
  have hstart : (d.portState, CmdBuffer.holding [])
      = Prod.map id CmdBuffer.holding (d.portState, []) := rfl
  rw [hstart, hfold, Option.bind_some, frameWords]
  rfl

theorem commit_of_fill {d : Ks0713 σ} {ws : List (BitVec 16)}
    (hfill : fillCommands d = some (CmdBuffer.holding ws)) (h : ws.length = cmdBufSize) :
    commit putn d = some { d with bus := putn d.bus ws } := by
  simp [commit, hfill, CmdBuffer.read_holding h]

theorem commit_eq (d : Ks0713 σ) :
    commit putn d = some { d with bus := putn d.bus (frameWords d) } := by
  obtain ⟨hfill, hlength⟩ := fillCommands_eq d
  exact commit_of_fill putn hfill hlength

theorem commitSaveMemory_eq (d : Ks0713 σ) :
    commitSaveMemory putn d
      = { d with bus := (frameWords d).foldl (fun bus w ↦ putn bus [w]) d.bus } := by
  rw [← commitSaveMemory_bus]
  simp only [commitSaveMemory]

/-- **The two commits.** The default version stores exactly `cmdBufSize` words, one in each slot of
its buffer, and sends them in one transfer; the other sends the same words one by one. -/
theorem commit_words (d : Ks0713 σ) : ∃ (cmd : CmdBuffer) (words : List (BitVec 16)),
    fillCommands d = some cmd ∧ cmd.next = cmdBufSize ∧ cmd.slots = words.map some ∧
      words.length = cmdBufSize ∧ commit putn d = some { d with bus := putn d.bus words } ∧
      commitSaveMemory putn d
        = { d with bus := words.foldl (fun bus w ↦ putn bus [w]) d.bus } := by
  obtain ⟨hfill, hlength⟩ := fillCommands_eq d
  have hcommit := commit_eq putn d
  have hsave := commitSaveMemory_eq putn d
  generalize frameWords d = words at hfill hlength hcommit hsave
  exact ⟨CmdBuffer.holding words, words, hfill, hlength, CmdBuffer.slots_holding hlength, hlength,
    hcommit, hsave⟩

end Ks0713

end Martink
