import Martink.Crypto.Aes

/-!
# The key schedule of AES

A word is four bytes, and the words of a context are those of its round keys, one after another. The
key schedule fills a context from the words before, the first of which are the key.

`Expanded` is the recurrence on its own, in which the number of a word decides what is done. The
loop of `aes_init` keeps two counters instead: `next_nk` is the next multiple of the length of the
key, and `rc` says which multiple it is.
-/

namespace Martink

namespace Aes

open Gf2

abbrev AesWord := Fin 4 → BitVec 8

/-- The words of a context. -/
abbrev Context := ℕ → AesWord

/-- `ctx->key[r]`. -/
def Context.key (ctx : Context) (r : ℕ) : CipherState := fun i ↦ ctx (4 * r + i)

def aesRotword (a : AesWord) : AesWord := ![a 1, a 2, a 3, a 0]

/-- The four lines that call `aes_sbox`. -/
def subWord (a : AesWord) : AesWord :=
  ![aesSbox (a 0), aesSbox (a 1), aesSbox (a 2), aesSbox (a 3)]

def xorWord (a b : AesWord) : AesWord := fun j ↦ a j ^^^ b j

/-- `tmp.v8[0] ^= c`. -/
def xorFirst (a : AesWord) (c : BitVec 8) : AesWord := ![a 0 ^^^ c, a 1, a 2, a 3]

def rcTab : List (BitVec 8) := [0x01, 0x02, 0x04, 0x08, 0x10, 0x20, 0x40, 0x80, 0x1b, 0x36]

/-- The variables of the loop of `aes_init`. With a key of at most eight words they stay below
256. -/
structure InitState where
  /-- The words of the context. -/
  ctx : Context
  /-- The next word that is scheduled with a constant. -/
  nextNk : ℕ
  /-- The index of that constant. -/
  rc : ℕ

/-- The body of the loop. There is no result if `rc_tab` is read past its end. -/
def InitState.step (nk i : ℕ) (s : InitState) : Option InitState :=
  let tmp := s.ctx (i - 1)
  if i ≠ s.nextNk then
    let tmp := if nk = 8 ∧ i % 8 = 4 then subWord tmp else tmp
    some { s with ctx := Function.update s.ctx i (xorWord (s.ctx (i - nk)) tmp) }
  else
    rcTab[s.rc]?.map fun c ↦
      let tmp := xorFirst (subWord (aesRotword tmp)) c
      ⟨Function.update s.ctx i (xorWord (s.ctx (i - nk)) tmp), s.nextNk + nk, s.rc + 1⟩

/-- The constant of the multiple `m`: one doubled in the field with 256 elements. -/
def rcon : ℕ → ℕ
  | 0 => 1
  | m + 1 => double 0x11b 8 (rcon m)

/-- The round constants are the powers of `x`. -/
theorem residue_rcon (m : ℕ) : residue 0x11b (rcon m) = residue 0x11b 2 ^ m := by
  induction m with
  | zero => rw [rcon, residue_one, pow_zero]
  | succ m ih => rw [rcon, residue_double, ih, pow_succ']

theorem getElem?_rcTab {m : ℕ} (h : m < 10) : rcTab[m]? = some (BitVec.ofNat 8 (rcon m)) := by
  revert h m
  decide

/-- What word `i` takes from the word before. -/
def scheduled (nk i : ℕ) (w : AesWord) : AesWord :=
  if i % nk = 0 then xorFirst (subWord (aesRotword w)) (BitVec.ofNat 8 (rcon (i / nk - 1)))
  else if nk = 8 ∧ i % 8 = 4 then subWord w
  else w

/-- The words before `hi` are expanded from a key of `nk` words. -/
structure Expanded (key : Context) (nk hi : ℕ) (w : Context) : Prop where
  /-- The first words are those of the key. -/
  first : ∀ i < nk, w i = key i
  /-- Each of the others is the sum of the word `nk` before it and of what is scheduled for it. -/
  next : ∀ i < hi, nk ≤ i → w i = xorWord (w (i - nk)) (scheduled nk i (w (i - 1)))

/-- The recurrence leaves no choice. -/
theorem Expanded.unique {key w w' : Context} {nk hi : ℕ} (hpos : 0 < nk) (h : Expanded key nk hi w)
    (h' : Expanded key nk hi w') : ∀ i < hi, w i = w' i := by
  intro i
  induction i using Nat.strong_induction_on with
  | _ i ih =>
    intro hi
    rcases lt_or_ge i nk with hlt | hge
    · rw [h.first i hlt, h'.first i hlt]
    · rw [h.next i hi hge, h'.next i hi hge, ih (i - nk) (by omega) (by omega),
        ih (i - 1) (by omega) (by omega)]

/-- What holds before word `i` is written. -/
structure InitState.At (ctx key : Context) (nk i : ℕ) (s : InitState) : Prop where
  /-- The words before are expanded. -/
  expanded : Expanded key nk i s.ctx
  /-- The words from there on are as they were. -/
  frame : ∀ k, i ≤ k → nk ≤ k → s.ctx k = ctx k
  /-- `next_nk` goes up with the constants. -/
  multiple : s.nextNk = nk * (s.rc + 1)
  /-- It is not behind the word. -/
  ahead : i ≤ s.nextNk
  /-- It is less than a key ahead of it. -/
  close : s.nextNk < i + nk

namespace InitState.At

variable {ctx key : Context} {nk i : ℕ} {s : InitState}

/-- `next_nk` tells whether the number of a word is a multiple. -/
theorem mod_eq_zero_iff (h : s.At ctx key nk i) : i % nk = 0 ↔ i = s.nextNk := by
  constructor
  · intro hmod
    obtain ⟨m, rfl⟩ := Nat.dvd_of_mod_eq_zero hmod
    have hahead := h.ahead
    have hclose := h.close
    rw [h.multiple] at hahead hclose ⊢
    have hpos : 0 < nk := Nat.pos_of_ne_zero fun hzero ↦ by simp [hzero] at hclose
    have hle : m ≤ s.rc + 1 := Nat.le_of_mul_le_mul_left hahead hpos
    have hlt : s.rc + 1 < m + 1 := by
      refine Nat.lt_of_mul_lt_mul_left (a := nk) ?_
      rwa [Nat.mul_succ nk m]
    rw [show m = s.rc + 1 by omega]
  · intro heq
    rw [heq, h.multiple, Nat.mul_mod_right]

/-- A word that follows the recurrence. -/
theorem expanded_update (h : s.At ctx key nk i) (hpos : 0 < nk) (hle : nk ≤ i) {t : AesWord}
    (ht : t = scheduled nk i (s.ctx (i - 1))) :
    Expanded key nk (i + 1) (Function.update s.ctx i (xorWord (s.ctx (i - nk)) t)) where
  first k hk := by rw [Function.update_of_ne (by omega), h.expanded.first k hk]
  next k hk hnk := by
    rw [Function.update_of_ne (show k - nk ≠ i by omega),
      Function.update_of_ne (show k - 1 ≠ i by omega)]
    rcases eq_or_lt_of_le (Nat.lt_succ_iff.mp hk) with rfl | hlt
    · rw [Function.update_self, ht]
    · rw [Function.update_of_ne hlt.ne, h.expanded.next k hlt hnk]

theorem step (h : s.At ctx key nk i) (hfour : 4 ≤ nk) (hle : nk ≤ i) (hhi : i < 4 * (nk + 6 + 1)) :
    ∃ s', s.step nk i = some s' ∧ s'.At ctx key nk (i + 1) := by
  have hmod := h.mod_eq_zero_iff
  have hahead := h.ahead
  have hclose := h.close
  have hmultiple := h.multiple
  rcases eq_or_ne i s.nextNk with heq | hne
  · have hrc : s.rc < 10 := by
      by_contra hge
      have : nk * 11 ≤ nk * (s.rc + 1) := Nat.mul_le_mul_left nk (by omega)
      omega
    have hdiv : i / nk - 1 = s.rc := by
      rw [heq, hmultiple, Nat.mul_div_cancel_left _ (by omega), Nat.add_sub_cancel]
    refine ⟨_, by rw [InitState.step, if_neg (not_not.mpr heq), getElem?_rcTab hrc]; rfl, ?_, ?_,
      ?_, ?_, ?_⟩
    · refine h.expanded_update (by omega) hle ?_
      rw [scheduled, if_pos (hmod.mpr heq), hdiv]
    · intro k hk hnk
      exact (Function.update_of_ne (by omega) _ _).trans (h.frame k (by omega) hnk)
    · simp only [hmultiple]
      ring
    · simp only
      omega
    · simp only
      omega
  · refine ⟨_, if_pos hne, ?_, ?_, ?_, ?_, ?_⟩
    · refine h.expanded_update (by omega) hle ?_
      rw [scheduled, if_neg (mt hmod.mp hne)]
    · intro k hk hnk
      exact (Function.update_of_ne (by omega) _ _).trans (h.frame k (by omega) hnk)
    · exact hmultiple
    · simp only
      omega
    · simp only
      omega

end InitState.At

end Aes

end Martink
