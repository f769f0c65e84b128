import Martink.Tty.Vt100Action

/-!
# The rows that a byte aims at

Whether a byte scrolls, and how far, depends on the rows that the cursor is moved to. `targets`
lists them for the moves that a byte makes itself, in order and as `_vt100_move` computes them, by
following the cursor from the state before the byte; the moves inside of a scroll are not among
them. The cursor can be followed because scrolling leaves it where `rowMove` says, whatever it
prints.

`TrailRule` is what has to be shown of one move in order to use `trail_vt100Putc`, which carries a
property of the remaining targets through a whole byte.
-/

namespace Martink

namespace Vt100

/-! ## Following the cursor -/

/-- `_vt100_move` from the cursor `p`: the row aimed at, if there is one, and the cursor
afterwards. -/
def trailMove (t : Vt100) (rightLeft bottomTop : ℤ) (p : BitVec 16 × BitVec 16) :
    List (BitVec 16) × BitVec 16 × BitVec 16 :=
  match column t.screenWidth t.cursorWrap p.1 rightLeft bottomTop with
  | none => ([], p)
  | some (x, rows) =>
    if rows = 0 then ([], (x, p.2))
    else
      let y := u16 (p.2.toNat + rows)
      ([y], rowMove t.scrollStartRow t.scrollEndRow x y)

/-- The row alone. -/
def trailRow (t : Vt100) (rightLeft bottomTop : ℤ) (p : BitVec 16 × BitVec 16) : List (BitVec 16) :=
  (trailMove t rightLeft bottomTop p).1

def trailPuts (t : Vt100) : ℕ → BitVec 16 × BitVec 16 → List (BitVec 16) × BitVec 16 × BitVec 16
  | 0, p => ([], p)
  | n + 1, p =>
    let first := trailMove t 1 0 p
    let rest := trailPuts t n first.2
    (first.1 ++ rest.1, rest.2)

/-- Clearing `n` lines from row `c` on. -/
def trailLines (t : Vt100) : ℕ → ℕ → List (BitVec 16)
  | _, 0 => []
  | c, n + 1 => (trailPuts t t.screenWidth.toNat (0, u16 c)).1 ++ trailLines t (c + 1) n

def trailClear (t : Vt100) (startLine endLine : BitVec 16) : List (BitVec 16) :=
  trailLines t startLine.toNat (endLine.toNat + 1 - startLine.toNat)

def csiTargets (t : Vt100) : Csi → List (BitVec 16)
  | .clearScreen =>
    if t.eraseArg = some 0 then trailClear t t.cursorY t.screenHeight
    else if t.eraseArg = some 1 then trailClear t 0 t.cursorY
    else if t.eraseArg = some 2 then trailClear t 0 t.screenHeight
    else []
  | .clearLine =>
    if t.eraseArg = some 0 then
      (trailPuts t (t.screenWidth.toNat - t.cursorX.toNat) t.cursor).1
    else if t.eraseArg = some 1 then (trailPuts t t.cursorX.toNat (0, t.cursorY)).1
    else if t.eraseArg = some 2 then (trailPuts t t.screenWidth.toNat (0, t.cursorY)).1
    else []
  | .deleteChars =>
    let back := trailMove t (s16 (-t.count)) 0 t.cursor
    back.1 ++ (trailPuts t t.count back.2).1
  | _ => []

def escTargets (t : Vt100) : Esc → List (BitVec 16)
  | .down | .nextLine => trailRow t 0 1 t.cursor
  | .up => trailRow t 0 (-1) t.cursor
  | _ => []

def controlTargets (t : Vt100) : Control → List (BitVec 16)
  | .newLine => trailRow t 0 1 t.cursor
  | .backspace => trailRow t (-1) 0 t.cursor
  | .del =>
    let blank := trailMove t 1 0 t.cursor
    blank.1 ++ (trailMove t (-1) 0 blank.2).1
  | .tab => (trailPuts t (4 - t.cursorX.toNat % 4) t.cursor).1
  | .print => trailRow t 1 0 t.cursor
  | _ => []

/-- The rows that the moves of `vt100_putc` aim at. -/
def targets (t : Vt100) (c : BitVec 8) : List (BitVec 16) :=
  match action t c with
  | .control u k => controlTargets u k
  | .esc u k => escTargets u k
  | .csi u k => csiTargets u k
  | .parse => []

theorem trailMove_frame {t t' : Vt100} (h : Frame t t') (dx dy : ℤ) (p : BitVec 16 × BitVec 16) :
    trailMove t' dx dy p = trailMove t dx dy p := by
  rw [trailMove, trailMove, h.screenWidth, h.cursorWrap, h.scrollStartRow, h.scrollEndRow]

theorem trailPuts_frame {t t' : Vt100} (h : Frame t t') (n : ℕ) :
    ∀ p, trailPuts t' n p = trailPuts t n p := by
  induction n with
  | zero => exact fun p ↦ rfl
  | succ n ih =>
    intro p
    rw [trailPuts, trailPuts, trailMove_frame h, ih]

theorem trailLines_frame {t t' : Vt100} (h : Frame t t') (n : ℕ) :
    ∀ c, trailLines t' c n = trailLines t c n := by
  induction n with
  | zero => exact fun c ↦ rfl
  | succ n ih =>
    intro c
    rw [trailLines, trailLines, trailPuts_frame h, h.screenWidth, ih]

theorem column_eq_none {screenWidth cursorX : BitVec 16} {cursorWrap : Bool} {dx dy : ℤ}
    (h : column screenWidth cursorWrap cursorX dx dy = none) : screenWidth.toNat = 0 := by
  have hw := s16_toNat_u16 screenWidth.toNat
  have hzero : s16 screenWidth.toNat = 0 → screenWidth.toNat = 0 := by
    rw [s16]
    omega
  rw [column] at h
  split_ifs at h with h₁ h₂ h₃ h₄ h₅
  · exact hzero h₃
  · exact hzero h₅

theorem trailMove_of_column {t : Vt100} {dx dy rows : ℤ} {x : BitVec 16}
    (h : column t.screenWidth t.cursorWrap t.cursorX dx dy = some (x, rows)) :
    trailMove t dx dy t.cursor = if rows = 0 then ([], (x, t.cursorY)) else
      ([u16 (t.cursorY.toNat + rows)],
        rowMove t.scrollStartRow t.scrollEndRow x (u16 (t.cursorY.toNat + rows))) := by
  rw [trailMove, cursor, h]

/-! ## The rule -/

/-- The settings that decide about moves and scrolling. -/
def region (t : Vt100) : BitVec 16 × BitVec 16 × BitVec 16 × BitVec 16 :=
  (t.screenWidth, t.scrollStartRow, t.scrollEndRow, t.scrollValue)

/-- `K ys t` says something about the state `t` and the rows `ys` that are still to be aimed at. It
may depend on nothing but the region, and on line wrap while there are rows; a move to the next row
keeps it, and `X` allows the faults that the recursion can have. -/
structure TrailRule (fuel : ℕ) (K : List (BitVec 16) → Vt100 → Prop)
    (X : Vt100Fault → Vt100 → Prop) : Prop where
  /-- It depends on the region, and on line wrap while there are rows. -/
  congr : ∀ {ys t t'}, K ys t → t'.region = t.region →
    (ys = [] ∨ t'.cursorWrap = t.cursorWrap) → K ys t'
  /-- The move to the next row keeps it for the rows after that. -/
  row : ∀ {f bottomTop y ys t}, fuel ≤ f + 1 → bottomTop ≠ 0 →
    u16 (t.cursorY.toNat + bottomTop) = y → K (y :: ys) t →
      (moveRow (putc f) bottomTop t).Sat (K ys) X
  /-- The recursion may run out of fuel. -/
  noFuel : fuel = 0 → ∀ t, X .fuel t
  /-- On a screen without columns it may divide by zero. -/
  divZero : ∀ {ys t}, K ys t → t.screenWidth.toNat = 0 → X .divZero t

section Rule

variable {fuel : ℕ} {K : List (BitVec 16) → Vt100 → Prop} {X : Vt100Fault → Vt100 → Prop}
  {ys : List (BitVec 16)} {t : Vt100}

theorem TrailRule.frame (rule : TrailRule fuel K X) {t' : Vt100} (h : K ys t) (hframe : Frame t t')
    (hvalue : t'.scrollValue = t.scrollValue) : K ys t' := by
  refine rule.congr h ?_ (Or.inr hframe.cursorWrap)
  rw [region, region, hframe.screenWidth, hframe.scrollStartRow, hframe.scrollEndRow, hvalue]

/-- What a stretch of moves along a trail leaves: the remaining rows, the cursor, the settings. -/
def After (K : List (BitVec 16) → Vt100 → Prop) (ys : List (BitVec 16)) (t : Vt100)
    (p : BitVec 16 × BitVec 16) (t' : Vt100) : Prop :=
  K ys t' ∧ t'.cursor = p ∧ Frame t t'

theorem trail_move (rule : TrailRule fuel K X) {f : ℕ} (hf : fuel ≤ f + 1) (dx dy : ℤ)
    (h : K ((trailMove t dx dy t.cursor).1 ++ ys) t) :
    (move (putc f) dx dy t).Sat (After K ys t (trailMove t dx dy t.cursor).2) X := by
  rcases hcolumn : column t.screenWidth t.cursorWrap t.cursorX dx dy with _ | ⟨x, rows⟩
  · rw [move, hcolumn]
    exact Outcome.sat_stuck (rule.divZero h (column_eq_none hcolumn))
  have hmoved : Frame t { t with cursorX := x } := Frame.cursor t x t.cursorY
  rw [move_of_column hcolumn]
  rw [trailMove_of_column hcolumn] at h ⊢
  by_cases hrows : rows = 0
  · rw [if_pos hrows] at h ⊢
    rw [hrows, moveRow_zero]
    exact Outcome.sat_done ⟨rule.frame h hmoved rfl, rfl, hmoved⟩
  · rw [if_neg hrows] at h ⊢
    dsimp only
    have hrow : (moveRow (putc f) rows { t with cursorX := x }).Sat (K ys) X :=
      rule.row hf hrows rfl (rule.frame h hmoved rfl)
    have hcursor : (moveRow (putc f) rows { t with cursorX := x }).Sat (fun t' ↦ t'.cursor
        = rowMove t.scrollStartRow t.scrollEndRow x (u16 (t.cursorY.toNat + rows)))
        fun _ _ ↦ True := moveRow_cursor hrows _
    have hframe := frame_moveRow (frame_putc f) rows { t with cursorX := x }
    exact (hrow.and (hcursor.and hframe)).mono
      (fun t' h' ↦ ⟨h'.1, h'.2.1, hmoved.trans h'.2.2⟩) fun _ _ h' ↦ h'.1

theorem trail_putc (rule : TrailRule fuel K X) (ch : BitVec 8)
    (h : K ((trailMove t 1 0 t.cursor).1 ++ ys) t) :
    (putc fuel ch t).Sat (After K ys t (trailMove t 1 0 t.cursor).2) X := by
  rcases fuel with _ | f
  · exact Outcome.sat_stuck (rule.noFuel rfl t)
  · have hdraw : K ((trailMove t 1 0 t.cursor).1 ++ ys) (t.draw ch) := by
      refine rule.frame h (Frame.draw t ch) ?_
      rfl
    rw [← trailMove_frame (Frame.draw t ch)] at hdraw ⊢
    rw [putc]
    exact (trail_move rule le_rfl 1 0 hdraw).mono
      (fun t' h' ↦ ⟨h'.1, h'.2.1, (Frame.draw t ch).trans h'.2.2⟩) fun _ _ h' ↦ h'

/-- Printing `n` times. -/
theorem trail_puts (rule : TrailRule fuel K X) (ch : BitVec 8) (n : ℕ) : ∀ {lo t},
    K ((trailPuts t n t.cursor).1 ++ ys) t →
      (Outcome.forRange (fun _ ↦ putc fuel ch) lo n t).Sat
        (After K ys t (trailPuts t n t.cursor).2) X := by
  induction n with
  | zero =>
    intro lo t h
    exact Outcome.sat_done ⟨h, rfl, Frame.refl t⟩
  | succ n ih =>
    intro lo t h
    rw [trailPuts] at h ⊢
    rw [List.append_assoc] at h
    refine (trail_putc rule ch h).andThen fun t' h' ↦ ?_
    obtain ⟨hK, hcursor, hframe⟩ := h'
    rw [← trailPuts_frame hframe, ← hcursor] at hK
    refine (ih hK).mono (fun t'' h'' ↦ ⟨h''.1, ?_, hframe.trans h''.2.2⟩) fun _ _ hX ↦ hX
    rw [h''.2.1, trailPuts_frame hframe, hcursor]

/-- Clearing lines. -/
theorem trail_clearLines (rule : TrailRule fuel K X) {startLine endLine : BitVec 16}
    (h : K (trailClear t startLine endLine ++ ys) t) :
    (clearLines (putc fuel) startLine endLine t).Sat (After K ys t (0, startLine)) X := by
  have hloop : ∀ n c {u : Vt100}, K (trailLines u c n ++ ys) u →
      (Outcome.forRange (fun c self ↦ blanks (putc fuel) self.screenWidth.toNat
        { self with cursorY := u16 c, cursorX := 0 }) c n u).Sat
          (fun u' ↦ K ys u' ∧ Frame u u') X := by
    intro n
    induction n with
    | zero => exact fun c u h ↦ Outcome.sat_done ⟨h, Frame.refl u⟩
    | succ n ih =>
      intro c u h
      have hhome : Frame u { u with cursorY := u16 c, cursorX := 0 } := Frame.cursor u 0 (u16 c)
      rw [trailLines, List.append_assoc, ← trailPuts_frame hhome] at h
      refine Outcome.Sat.andThen (trail_puts rule _ _ (rule.frame h hhome rfl)) fun u' h' ↦ ?_
      have hframe := hhome.trans h'.2.2
      have hK := h'.1
      rw [← trailLines_frame hframe] at hK
      exact (ih _ hK).mono (fun u'' h'' ↦ ⟨h''.1, hframe.trans h''.2⟩) fun _ _ hX ↦ hX
  refine (hloop _ _ h).andThen fun t' h' ↦ Outcome.sat_done ⟨?_, rfl, ?_⟩
  · exact rule.frame h'.1 (Frame.cursor t' 0 startLine) rfl
  · exact h'.2.trans (Frame.cursor t' 0 startLine)

/-! ## Whole bytes -/

/-- The scroll region is the whole screen, and not scrolled. -/
def RegionReset (t : Vt100) : Prop :=
  t.scrollStartRow = 0 ∧ t.scrollEndRow = t.screenHeight ∧ t.scrollValue = 0

theorem trail_controlBody (rule : TrailRule fuel K X) {c : BitVec 8} {k : Control}
    (h : K (controlTargets t k) t) : (t.controlBody fuel c k).Sat (K []) X := by
  have hcolumn : ∀ {t : Vt100}, K [] t → K [] { t with cursorX := 0 } :=
    fun {t} h ↦ rule.frame h (Frame.cursor t 0 t.cursorY) rfl
  rw [← List.append_nil (controlTargets t k)] at h
  cases k with
  | ignore => exact Outcome.sat_done h
  | newLine =>
    rw [controlBody]
    rw [controlTargets, trailRow] at h
    exact (trail_move rule (Nat.le_succ _) 0 1 h).andThen
      fun t' h' ↦ Outcome.sat_done (hcolumn h'.1)
  | carriageReturn => exact Outcome.sat_done (hcolumn h)
  | backspace =>
    rw [controlBody]
    rw [controlTargets, trailRow] at h
    exact (trail_move rule (Nat.le_succ _) (-1) 0 h).mono (fun _ h' ↦ h'.1) fun _ _ hX ↦ hX
  | del =>
    rw [controlBody]
    rw [controlTargets, List.append_assoc] at h
    refine (trail_putc rule _ h).andThen fun t' h' ↦ ?_
    obtain ⟨hK, hcursor, hframe⟩ := h'
    rw [← trailMove_frame hframe, ← hcursor] at hK
    exact (trail_move rule (Nat.le_succ _) (-1) 0 hK).mono (fun _ h'' ↦ h''.1) fun _ _ hX ↦ hX
  | tab =>
    rw [controlBody]
    rw [controlTargets] at h
    exact (trail_puts rule _ _ h).mono (fun _ h' ↦ h'.1) fun _ _ hX ↦ hX
  | escape => exact Outcome.sat_done (rule.congr h rfl (Or.inl rfl))
  | print =>
    rw [controlBody]
    rw [controlTargets, trailRow] at h
    exact (trail_putc rule c h).mono (fun _ h' ↦ h'.1) fun _ _ hX ↦ hX

theorem trail_goto (rule : TrailRule fuel K X) (state : Vt100State)
    (h : K [] t ∨ RegionReset t) :
    (goto state t).Sat (fun t' ↦ K [] t' ∨ RegionReset t') X := by
  refine Outcome.sat_done ?_
  rcases h with h | h
  · exact Or.inl (rule.congr h rfl (Or.inl rfl))
  · exact Or.inr ⟨h.1, h.2.1, h.2.2⟩

theorem trail_escBody (rule : TrailRule fuel K X) {k : Esc} (h : K (escTargets t k) t) :
    (t.escBody fuel k).Sat (fun t' ↦ K [] t' ∨ RegionReset t') X := by
  rw [← List.append_nil (escTargets t k)] at h
  cases k with
  | down =>
    rw [escBody]
    rw [escTargets, trailRow] at h
    exact (trail_move rule (Nat.le_succ _) 0 1 h).andThen
      fun t' h' ↦ trail_goto rule _ (Or.inl h'.1)
  | up =>
    rw [escBody]
    rw [escTargets, trailRow] at h
    exact (trail_move rule (Nat.le_succ _) 0 (-1) h).andThen
      fun t' h' ↦ trail_goto rule _ (Or.inl h'.1)
  | nextLine =>
    rw [escBody]
    rw [escTargets, trailRow] at h
    exact (trail_move rule (Nat.le_succ _) 0 1 h).andThen fun t' h' ↦
      trail_goto rule _ (Or.inl (rule.frame h'.1 (Frame.cursor t' 0 t'.cursorY) rfl))
  | reset => exact Outcome.sat_done (Or.inr ⟨rfl, rfl, rfl⟩)
  | escape => exact Outcome.sat_done (Or.inl h)
  | sqBracket | leftBr | rightBr | hash | saveCursor | restoreCursor | other =>
    exact Outcome.sat_done (Or.inl (rule.congr h rfl (Or.inl rfl)))

theorem trail_csiBody (rule : TrailRule fuel K X) {k : Csi} (hk : k ≠ .setScrollRegion)
    (hargs : k = .setColors → 4 < t.narg.toNat → ∀ t', X .args t')
    (h : K (csiTargets t k) t) :
    (t.csiBody fuel k).Sat (fun t' ↦ K [] t' ∨ RegionReset t') X := by
  rw [← List.append_nil (csiTargets t k)] at h
  cases k with
  | clearScreen =>
    rw [csiBody, clearScreen]
    rw [csiTargets] at h
    split_ifs at h ⊢
    · exact (trail_clearLines rule h).mono (fun _ h' ↦ Or.inl h'.1) fun _ _ hX ↦ hX
    · exact (trail_clearLines rule h).mono (fun _ h' ↦ Or.inl h'.1) fun _ _ hX ↦ hX
    · exact (trail_clearLines rule h).andThen
        fun t' _ ↦ Outcome.sat_done (Or.inr ⟨rfl, rfl, rfl⟩)
    · exact Outcome.sat_done (Or.inl h)
  | clearLine =>
    rw [csiBody, clearLine]
    rw [csiTargets] at h
    have hhome : Frame t { t with cursorX := 0 } := Frame.cursor t 0 t.cursorY
    have hrow : ∀ {n}, K ((trailPuts t n (0, t.cursorY)).1 ++ []) t →
        (blanks (putc fuel) n { t with cursorX := 0 }).Sat (K []) X := by
      intro n h
      rw [← trailPuts_frame hhome] at h
      exact (trail_puts rule _ _ (rule.frame h hhome rfl)).mono (fun _ h' ↦ h'.1) fun _ _ hX ↦ hX
    refine Outcome.Sat.andThen (Q := K []) ?_ fun t' h' ↦
      Outcome.sat_done (Or.inl (rule.frame h' (Frame.cursor t' _ _) rfl))
    split_ifs at h ⊢
    · exact (trail_puts rule _ _ h).mono (fun _ h' ↦ h'.1) fun _ _ hX ↦ hX
    · exact hrow h
    · exact hrow h
    · exact Outcome.sat_done h
  | deleteChars =>
    rw [csiBody, deleteChars]
    rw [csiTargets, List.append_assoc] at h
    refine (trail_move rule (Nat.le_succ _) _ 0 h).andThen fun t' h' ↦ ?_
    obtain ⟨hK, hcursor, hframe⟩ := h'
    rw [← trailPuts_frame hframe, ← hcursor] at hK
    exact (trail_puts rule _ _ hK).mono (fun _ h'' ↦ Or.inl h''.1) fun _ _ hX ↦ hX
  | setColors =>
    refine (setColors_sat t).mono ?_ fun e t' hX ↦ ?_
    · rintro t' ⟨n, front, back, rfl⟩
      exact Or.inl (rule.congr h rfl (Or.inl rfl))
    · rw [hX.1]
      exact hargs rfl hX.2.1 t'
  | setScrollRegion => exact absurd rfl hk
  | question | other => exact Outcome.sat_done (Or.inl h)
  | cursorUp | cursorDown | cursorRight | cursorLeft | moveCursor | saveCursor | restoreCursor =>
    exact Outcome.sat_done (Or.inl (rule.congr h rfl (Or.inl rfl)))

theorem region_of_sameScreen {t' : Vt100} (h : SameScreen t t') : t'.region = t.region := by
  rw [region, region, h.screenWidth, h.scrollStartRow, h.scrollEndRow, h.scrollValue]

/-- **A byte along its trail.** -/
theorem trail_vt100Putc (rule : TrailRule fuel K X) {c : BitVec 8}
    (hargs : ¬ArgsFit t c → ∀ t', X .args t') (h : K (targets t c) t) :
    (vt100Putc fuel t c).Sat (fun t' ↦ (K [] t' ∨ RegionReset t') ∨
      ∃ u, action t c = .csi u .setScrollRegion ∧ SameScreen t u ∧
        t'.region = u.setScrollRegion.region) X := by
  have hperforms : Performs fuel t c (action t c) := performs_action
  rw [targets] at h
  rw [ArgsFit] at hargs
  rcases hact : action t c with ⟨u, k⟩ | ⟨u, k⟩ | ⟨u, k⟩ | _ <;> rw [hact] at hperforms h hargs
  · obtain ⟨hsame, hwrap, hputc⟩ := hperforms
    rw [hputc]
    exact (trail_controlBody rule (rule.congr h (region_of_sameScreen hsame) (Or.inr hwrap))).mono
      (fun _ h' ↦ Or.inl (Or.inl h')) fun _ _ hX ↦ hX
  · obtain ⟨hsame, hwrap, hputc⟩ := hperforms
    rw [hputc]
    exact (trail_escBody rule (rule.congr h (region_of_sameScreen hsame) (Or.inr hwrap))).mono
      (fun _ h' ↦ Or.inl h') fun _ _ hX ↦ hX
  · obtain ⟨hsame, hwrap, hputc⟩ := hperforms
    rw [hputc]
    by_cases hk : k = .setScrollRegion
    · rw [hk]
      exact Outcome.sat_done (Or.inr ⟨u, rfl, hsame, rfl⟩)
    · refine Outcome.Sat.mono (Outcome.Sat.andThen (trail_csiBody rule hk ?_
        (rule.congr h (region_of_sameScreen hsame) (Or.inr hwrap))) fun t' h' ↦
          trail_goto rule _ h') (fun _ h' ↦ Or.inl h') fun _ _ hX ↦ hX
      exact fun hcolors hmany ↦ hargs fun hfit ↦ absurd (hfit hcolors) (not_le.mpr hmany)
  · refine Outcome.Sat.mono hperforms
      (fun t' hsame ↦ Or.inl (Or.inl (rule.congr h (region_of_sameScreen hsame) (Or.inl rfl)))) ?_
    rintro e t' ⟨rfl, -, hdigit, hroom⟩
    exact hargs (fun hfit ↦ absurd (hfit hdigit) (not_lt.mpr hroom)) t'

end Rule

end Vt100

end Martink
