import Martink.Tty.Vt100Action

/-!
# Saving and restoring the cursor

Only the bytes that save the cursor and the one that resets the terminal write the saved position:
printing, moving and scrolling keep all settings (`Vt100.frame_putc`), and the other commands do not
touch it. A restore therefore goes back to the position of the last save, whatever has been
processed in between.
-/

namespace Martink

namespace Vt100

/-- The next byte that is no digit and no separator is the final one of a control sequence. -/
def InCsi (t : Vt100) : Prop :=
  t.state = .escSqBracket ∨ t.state = .commandArg ∧ t.retState = some .escSqBracket

/-- `ESC 7`, `ESC s` and `CSI s`. -/
def SavesCursor (t : Vt100) (c : BitVec 8) : Prop :=
  t.state = .escape ∧ (c = ascii '7' ∨ c = ascii 's') ∨ t.InCsi ∧ c = ascii 's'

/-- `ESC 8`, `ESC u` and `CSI u`. -/
def RestoresCursor (t : Vt100) (c : BitVec 8) : Prop :=
  t.state = .escape ∧ (c = ascii '8' ∨ c = ascii 'u') ∨ t.InCsi ∧ c = ascii 'u'

/-- `ESC c`. -/
def ResetsTerminal (t : Vt100) (c : BitVec 8) : Prop := t.state = .escape ∧ c = ascii 'c'

instance (t : Vt100) : Decidable t.InCsi := inferInstanceAs (Decidable (_ ∨ _))

instance (t : Vt100) (c : BitVec 8) : Decidable (SavesCursor t c) :=
  inferInstanceAs (Decidable (_ ∨ _))

instance (t : Vt100) (c : BitVec 8) : Decidable (RestoresCursor t c) :=
  inferInstanceAs (Decidable (_ ∨ _))

instance (t : Vt100) (c : BitVec 8) : Decidable (ResetsTerminal t c) :=
  inferInstanceAs (Decidable (_ ∧ _))

section Bytes

variable {t u : Vt100} {c : BitVec 8}

theorem esc_saveCursor_iff (c : BitVec 8) :
    Esc.ofChar c = .saveCursor ↔ c = ascii '7' ∨ c = ascii 's' := by
  revert c
  decide

theorem esc_restoreCursor_iff (c : BitVec 8) :
    Esc.ofChar c = .restoreCursor ↔ c = ascii '8' ∨ c = ascii 'u' := by
  revert c
  decide

theorem esc_reset_iff (c : BitVec 8) : Esc.ofChar c = .reset ↔ c = ascii 'c' := by
  revert c
  decide

theorem csi_saveCursor_iff (c : BitVec 8) : Csi.ofChar c = .saveCursor ↔ c = ascii 's' := by
  revert c
  decide

theorem csi_restoreCursor_iff (c : BitVec 8) : Csi.ofChar c = .restoreCursor ↔ c = ascii 'u' := by
  revert c
  decide

/-- A byte after an escape. -/
theorem action_of_escape (h : t.state = .escape) : action t c = .esc t (Esc.ofChar c) := by
  rw [action, h]

/-- The final byte of a control sequence. -/
theorem action_of_inCsi (h : t.InCsi) (hc : ¬(isdigit c ∨ c = ascii ';')) :
    ∃ u, SameScreen t u ∧ action t c = .csi u (Csi.ofChar c) := by
  rcases h with h | ⟨h, hret⟩
  · refine ⟨t, rfl, ?_⟩
    rw [action, h]
    exact if_neg hc
  · refine ⟨{ t with narg := t.narg + 1, state := .escSqBracket }, rfl, ?_⟩
    simp only [action, h, hret, if_neg hc]
    rfl

theorem inCsi_of_action {k : Csi} (h : action t c = .csi u k) : t.InCsi ∧ k = Csi.ofChar c := by
  rw [action] at h
  split at h
  · cases h
  · cases h
  · rename_i hstate
    split_ifs at h
    cases h
    exact ⟨Or.inl hstate, rfl⟩
  · rename_i hstate
    split_ifs at h
    dsimp only at h
    split at h
    · rename_i hret
      cases h
      exact ⟨Or.inr ⟨hstate, hret⟩, rfl⟩
    · cases h
    · cases h
  all_goals cases h

theorem escape_of_action {k : Esc} (h : action t c = .esc u k) :
    t.state = .escape ∧ k = Esc.ofChar c := by
  rw [action] at h
  split at h
  · cases h
  · rename_i hstate
    cases h
    exact ⟨hstate, rfl⟩
  · split_ifs at h
  · split_ifs at h
    dsimp only at h
    split at h <;> cases h
  all_goals cases h

end Bytes

/-! ## The saved position -/

/-- The position that a restore goes to. -/
def saved (t : Vt100) : BitVec 16 × BitVec 16 := (t.savedCursorX, t.savedCursorY)

section Saved

variable {t u : Vt100} {c : BitVec 8} {fuel : ℕ}

theorem saved_rule (p : BitVec 16 × BitVec 16) : SettingsRule fun t ↦ t.saved = p where
  frame h hframe := by rw [saved, hframe.savedCursorX, hframe.savedCursorY]; exact h
  sameScreen h hsame := by rw [saved, hsame.savedCursorX, hsame.savedCursorY]; exact h
  colors _ _ _ h := h
  resetScroll h := h
  setScrollRegion {t} h := by
    rw [Vt100.setScrollRegion]
    split_ifs
    · exact h
    · exact h

/-- Every other byte keeps the saved position. -/
theorem saved_vt100Putc (hsave : ¬SavesCursor t c) (hreset : ¬ResetsTerminal t c) :
    (vt100Putc fuel t c).Sat (fun t' ↦ t'.saved = t.saved) fun _ _ ↦ True := by
  refine (saved_rule t.saved).vt100Putc rfl ?_ fun u hact ↦ ?_
  · rintro u (hact | hact)
    · obtain ⟨hstate, hk⟩ := escape_of_action hact
      exact absurd (Or.inl ⟨hstate, (esc_saveCursor_iff c).mp hk.symm⟩) hsave
    · obtain ⟨hcsi, hk⟩ := inCsi_of_action hact
      exact absurd (Or.inr ⟨hcsi, (csi_saveCursor_iff c).mp hk.symm⟩) hsave
  · obtain ⟨hstate, hk⟩ := escape_of_action hact
    exact absurd ⟨hstate, (esc_reset_iff c).mp hk.symm⟩ hreset

/-- A save takes the position of the cursor. -/
theorem saved_of_saves (h : SavesCursor t c) :
    ∃ t', (∀ fuel, vt100Putc fuel t c = .done t') ∧ t'.saved = t.cursor := by
  rcases h with ⟨hstate, hc⟩ | ⟨hcsi, rfl⟩
  · have hact : action t c = .esc t .saveCursor := by
      rw [action_of_escape hstate, (esc_saveCursor_iff c).mpr hc]
    refine ⟨{ t.saveCursor with state := .idle }, fun fuel ↦ ?_, rfl⟩
    have hperforms : Performs fuel t c (action t c) := performs_action
    rw [hact] at hperforms
    exact hperforms.2.2
  · obtain ⟨u, hsame, hact⟩ := action_of_inCsi (c := ascii 's') hcsi (by decide)
    rw [(csi_saveCursor_iff _).mpr rfl] at hact
    refine ⟨{ u.saveCursor with state := .idle }, fun fuel ↦ ?_, ?_⟩
    · have hperforms : Performs fuel t (ascii 's') (action t (ascii 's')) := performs_action
      rw [hact] at hperforms
      exact hperforms.2.2
    · exact Prod.ext hsame.cursorX hsame.cursorY

/-- A restore puts the cursor where the saved position is. -/
theorem cursor_of_restores (h : RestoresCursor t c) :
    ∃ t', (∀ fuel, vt100Putc fuel t c = .done t') ∧ t'.cursor = t.saved := by
  -- `ESC 8` and `CSI u` do the same
  rcases h with ⟨hstate, hc⟩ | ⟨hcsi, rfl⟩
  · have hact : action t c = .esc t .restoreCursor := by
      rw [action_of_escape hstate, (esc_restoreCursor_iff c).mpr hc]
    refine ⟨{ t with cursorX := t.savedCursorX, cursorY := t.savedCursorY, state := .idle },
      fun fuel ↦ ?_, rfl⟩
    have hperforms : Performs fuel t c (action t c) := performs_action
    rw [hact] at hperforms
    exact hperforms.2.2
  · obtain ⟨u, hsame, hact⟩ := action_of_inCsi (c := ascii 'u') hcsi (by decide)
    rw [(csi_restoreCursor_iff _).mpr rfl] at hact
    refine ⟨{ u with cursorX := u.savedCursorX, cursorY := u.savedCursorY, state := .idle },
      fun fuel ↦ ?_, ?_⟩
    · have hperforms : Performs fuel t (ascii 'u') (action t (ascii 'u')) := performs_action
      rw [hact] at hperforms
      exact hperforms.2.2
    · exact Prod.ext hsame.savedCursorX hsame.savedCursorY

/-- Bytes that are processed without a save and without a reset. -/
def KeepsSaved (t : Vt100) (c : BitVec 8) (t' : Vt100) : Prop :=
  Returns t c t' ∧ ¬SavesCursor t c ∧ ¬ResetsTerminal t c

theorem saved_of_path {str : List (BitVec 8)} (h : Path KeepsSaved t str u) :
    u.saved = t.saved := by
  induction h with
  | nil t => rfl
  | cons hfirst _ ih =>
    obtain ⟨⟨fuel, hdone⟩, hsave, hreset⟩ := hfirst
    exact ih.trans ((saved_vt100Putc hsave hreset).of_done hdone)

/-- **Save and restore.** After a save, and any bytes but a save and a reset, a restore returns and
puts the cursor back where it was saved. -/
theorem cursor_restored {t t₁ t₂ : Vt100} {c c' : BitVec 8} {str : List (BitVec 8)}
    (hsave : SavesCursor t c) (hfirst : Returns t c t₁) (hpath : Path KeepsSaved t₁ str t₂)
    (hrestore : RestoresCursor t₂ c') :
    ∃ t₃, (∀ fuel, vt100Putc fuel t₂ c' = .done t₃) ∧ t₃.cursor = t.cursor := by
  obtain ⟨u, hdone, hsaved⟩ := saved_of_saves hsave
  obtain ⟨fuel, hfirst⟩ := hfirst
  obtain rfl : u = t₁ := Outcome.done.inj ((hdone fuel).symm.trans hfirst)
  obtain ⟨t₃, hlast, hcursor⟩ := cursor_of_restores hrestore
  exact ⟨t₃, hlast, hcursor.trans ((saved_of_path hpath).trans hsaved)⟩

/-- `ESC 7` at (5, 3), a line feed and an `ESC [` that is broken off by `ESC 8`. -/
theorem cursor_restored_line : ∃ t₁ t₂ t₃,
    Returns { freshTerminal 80 24 with cursorX := 5, cursorY := 3, state := .escape }
      (ascii '7') t₁ ∧
      Path KeepsSaved t₁ [0x0a, 0x1b, ascii '[', 0x1b, 0x1b] t₂ ∧ t₂.cursor = (0, 4) ∧
      (∀ fuel, vt100Putc fuel t₂ (ascii '8') = .done t₃) ∧ t₃.cursor = (5, 3) := by
  have hsave : SavesCursor
      { freshTerminal 80 24 with cursorX := 5, cursorY := 3, state := .escape } (ascii '7') := by
    decide
  let t₁ : Vt100 :=
    { freshTerminal 80 24 with cursorX := 5, cursorY := 3, savedCursorX := 5, savedCursorY := 3 }
  have hline : Returns t₁ 0x0a { t₁ with cursorX := 0, cursorY := 4 } := by
    have hcolumn : column t₁.screenWidth t₁.cursorWrap t₁.cursorX 0 1 = some (t₁.cursorX, 1) :=
      column_stay (by decide) (by decide) 1
    have hputc : vt100Putc 0 t₁ 0x0a = t₁.controlBody 0 0x0a .newLine :=
      vt100Putc_control 0 rfl rfl
    refine ⟨0, ?_⟩
    rw [hputc, controlBody, move_of_column hcolumn, moveRow_inside (by decide) (by decide)]
    rfl
  have hpath : Path KeepsSaved t₁ [0x0a, 0x1b, ascii '[', 0x1b, 0x1b]
      { t₁ with cursorX := 0, cursorY := 4, narg := 0, args := fun _ ↦ 0, state := .escape } :=
    .cons ⟨hline, by decide, by decide⟩ (.cons ⟨⟨0, rfl⟩, by decide, by decide⟩
      (.cons ⟨⟨0, rfl⟩, by decide, by decide⟩ (.cons ⟨⟨0, rfl⟩, by decide, by decide⟩
        (.cons ⟨⟨0, rfl⟩, by decide, by decide⟩ (.nil _)))))
  have hrestore : RestoresCursor
      { t₁ with cursorX := 0, cursorY := 4, narg := 0, args := fun _ ↦ 0, state := .escape }
      (ascii '8') := by
    decide
  obtain ⟨t₃, hlast, hcursor⟩ := cursor_restored hsave ⟨0, rfl⟩ hpath hrestore
  exact ⟨t₁, _, t₃, ⟨0, rfl⟩, hpath, rfl, hlast, hcursor⟩

end Saved

end Vt100

end Martink
