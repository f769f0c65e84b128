import Martink.Util.JsonText

/-!
# What the JSON parser accepts

The parser checks little, but what it accepts is well formed in one respect: two tokens lie apart or
one lies inside the other, and every token is spelled as its type demands. This is `Nested`, and
every step keeps it.

`step_count` compares a step with one that only counts. Hence a caller may count first, and a caller
that ran out of tokens may go on with more of them.
-/

namespace Martink

namespace Json

/-! ## Steps, with tokens and without -/

namespace JsonParser

variable {s s' : JsonParser} {n m k : ℕ} {c : Char} {cs : List Char}

theorem alloc_eq_ok {t : Jsontok} : s.alloc n t = .ok s' ↔
    s.tokens.length < n ∧ s' = { s with tokens := bumpAt s.toksuper s.tokens ++ [t] } := by
  rw [alloc]
  split_ifs with h
  · simp [not_lt.mpr h]
  · simp [not_le.mp h, eq_comm]

theorem openToken_eq_ok {type : Jsontype} : s.openToken n type = .ok s' ↔
    s.tokens.length < n ∧ s' = ⟨s.pos, some s.tokens.length,
      bumpAt s.toksuper s.tokens ++ [⟨type, s.pos, none, 0⟩]⟩ := by
  rw [openToken, alloc]
  split_ifs with h
  · simp [not_lt.mpr h, Except.map]
  · simp [not_le.mp h, Except.map, eq_comm]

/-- What a step can do to the parser: a token is allocated, the innermost container is closed, or
only the superior token changes. -/
inductive Change (s : JsonParser) (n : ℕ) (c : Char) (cs : List Char) : JsonParser → ℕ → ℕ → Prop
  | opened (object : Bool) (hc : c = opening object) (hroom : s.tokens.length < n) :
      Change s n c cs ⟨s.pos, some s.tokens.length,
        bumpAt s.toksuper s.tokens ++ [⟨containerType object, s.pos, none, 0⟩]⟩ 1 0
  | closed (object : Bool) (hc : c = closing object) (i : ℕ) (t : Jsontok)
      (hget : s.tokens[i]? = some t)
      (htype : t.type = containerType object) (hopen : t.isOpen)
      (hlast : ∀ j, i < j → ∀ u, s.tokens[j]? = some u → u.isOpen = false) (o : Option ℕ) :
      Change s n c cs ⟨s.pos, o, s.tokens.modify i fun t ↦ { t with stop := some (s.pos + 1) }⟩ 0 0
  | string (hc : c = '"') (k : ℕ) (hk : stringLength cs = .ok k) (hroom : s.tokens.length < n) :
      Change s n c cs { s with tokens := bumpAt s.toksuper s.tokens
        ++ [⟨.string, s.pos + 1, some (s.pos + 1 + k), 0⟩] } 1 (k + 1)
  | primitive (k : ℕ) (hc : c ≠ '{' ∧ c ≠ '[' ∧ c ≠ '"') (hdelimiter : ¬delimiter c)
      (hk : primitiveLength (c :: cs) = .ok k) (hroom : s.tokens.length < n) :
      Change s n c cs { s with tokens := bumpAt s.toksuper s.tokens
        ++ [⟨.primitive, s.pos, some (s.pos + k), 0⟩] } 1 (k - 1)
  | super (hc : blank c ∨ c = ':' ∨ c = ',') (o : Option ℕ) :
      Change s n c cs { s with toksuper := o } 0 0

end JsonParser

section LastBelow

variable {p : Jsontok → Bool} {tokens : List Jsontok}

theorem lastBelow_eq_none : ∀ {n : ℕ}, lastBelow p tokens n = none →
    ∀ j < n, ∀ t, tokens[j]? = some t → p t = false
  | 0, _ => fun j hj ↦ absurd hj (Nat.not_lt_zero j)
  | n + 1, h => by
    rw [lastBelow] at h
    split_ifs at h with hn
    intro j hj t ht
    rcases eq_or_lt_of_le (Nat.lt_succ_iff.mp hj) with rfl | hlt
    · rw [ht, Option.any_some, Bool.not_eq_true] at hn
      exact hn
    · exact lastBelow_eq_none h j hlt t ht

theorem lastBelow_eq_some : ∀ {n i : ℕ}, lastBelow p tokens n = some i →
    (∃ t, tokens[i]? = some t ∧ p t) ∧ ∀ j, i < j → j < n → ∀ t, tokens[j]? = some t → p t = false
  | 0, i, h => by simp [lastBelow] at h
  | n + 1, i, h => by
    rw [lastBelow] at h
    split_ifs at h with hn
    · obtain rfl := Option.some.inj h
      refine ⟨?_, fun j hj hj' ↦ absurd hj (by omega)⟩
      cases ht : tokens[n]? with
      | none => simp [ht] at hn
      | some t => exact ⟨t, rfl, by simpa [ht] using hn⟩
    · obtain ⟨hget, hlast⟩ := lastBelow_eq_some h
      refine ⟨hget, fun j hij hj t ht ↦ ?_⟩
      rcases eq_or_lt_of_le (Nat.lt_succ_iff.mp hj) with rfl | hlt
      · rw [ht, Option.any_some, Bool.not_eq_true] at hn
        exact hn
      · exact hlast j hij hlt t ht

end LastBelow

namespace JsonParser

variable {s s' : JsonParser} {n m k : ℕ} {c : Char} {cs : List Char}

theorem change_of_close {object : Bool} (h : s.close (containerType object) = .ok s') :
    Change s n (closing object) cs s' 0 0 := by
  rw [close] at h
  cases hi : lastBelow Jsontok.isOpen s.tokens s.tokens.length with
  | none => simp [hi] at h
  | some i =>
    obtain ⟨⟨t, hget, hopen⟩, hlast⟩ := lastBelow_eq_some hi
    simp only [hi, hget, Option.any_some, decide_eq_true_eq] at h
    split_ifs at h with htype
    obtain rfl := Except.ok.inj h
    refine Change.closed object rfl i t hget (not_not.mp htype) hopen (fun j hij u hu ↦ ?_) _
    exact hlast j hij (List.getElem?_eq_some_iff.mp hu).1 u hu

theorem bind_pure_eq_ok {e : Except Jsonerr JsonParser} {a b : ℕ} :
    (do let x ← e; pure (x, a, b)) = (.ok (s', m, k) : Except Jsonerr (JsonParser × ℕ × ℕ)) ↔
      e = .ok s' ∧ a = m ∧ b = k := by
  cases e <;> simp [bind, Except.bind, pure, Except.pure]

/-- **Inversion of a step.** -/
theorem change_of_step (h : s.step (some n) c cs = .ok (s', m, k)) : Change s n c cs s' m k := by
  rw [step] at h
  by_cases hopening : c = '{' ∨ c = '['
  · rw [if_pos hopening] at h
    obtain ⟨hresult, rfl, rfl⟩ := bind_pure_eq_ok.mp h
    have htype : (if c = '{' then Jsontype.object else .array) = containerType (c = '{') := by
      rcases hopening with rfl | rfl <;> rfl
    obtain ⟨hroom, rfl⟩ := openToken_eq_ok.mp hresult
    rw [htype]
    refine Change.opened _ ?_ hroom
    rcases hopening with rfl | rfl <;> rfl
  rw [if_neg hopening] at h
  by_cases hclosing : c = '}' ∨ c = ']'
  · rw [if_pos hclosing] at h
    obtain ⟨hresult, rfl, rfl⟩ := bind_pure_eq_ok.mp h
    have hobject : c = closing (c = '}') := by
      rcases hclosing with rfl | rfl <;> rfl
    have htype : (if c = '}' then Jsontype.object else .array) = containerType (c = '}') := by
      rcases hclosing with rfl | rfl <;> rfl
    simp only [htype] at hresult
    rw [hobject]
    exact change_of_close hresult
  rw [if_neg hclosing] at h
  by_cases hquote : c = '"'
  · rw [if_pos hquote] at h
    cases hk : stringLength cs with
    | error e => simp [hk, bind, Except.bind] at h
    | ok k =>
      rw [hk] at h
      obtain ⟨hresult, rfl, rfl⟩ := bind_pure_eq_ok.mp h
      obtain ⟨hroom, rfl⟩ := alloc_eq_ok.mp hresult
      exact Change.string hquote k hk hroom
  rw [if_neg hquote] at h
  by_cases hblank : blank c
  · rw [if_pos hblank] at h
    obtain ⟨rfl, rfl, rfl⟩ : s = s' ∧ 0 = m ∧ 0 = k := by simpa [pure, Except.pure] using h
    exact Change.super (Or.inl hblank) s.toksuper
  rw [if_neg hblank] at h
  by_cases hcolon : c = ':'
  · rw [if_pos hcolon] at h
    obtain ⟨rfl, rfl, rfl⟩ : s.colon = s' ∧ 0 = m ∧ 0 = k := by simpa [pure, Except.pure] using h
    exact Change.super (Or.inr (Or.inl hcolon)) _
  rw [if_neg hcolon] at h
  by_cases hcomma : c = ','
  · rw [if_pos hcomma] at h
    obtain ⟨hresult, rfl, rfl⟩ := bind_pure_eq_ok.mp h
    simp only [comma] at hresult
    split at hresult
    · cases hresult
    · split_ifs at hresult
      · obtain rfl := Except.ok.inj hresult
        exact Change.super (Or.inr (Or.inr hcomma)) s.toksuper
      · obtain rfl := Except.ok.inj hresult
        exact Change.super (Or.inr (Or.inr hcomma)) _
  rw [if_neg hcomma] at h
  cases hk : primitiveLength (c :: cs) with
  | error e => simp [hk, bind, Except.bind] at h
  | ok k =>
    rw [hk] at h
    obtain ⟨hresult, rfl, rfl⟩ := bind_pure_eq_ok.mp h
    obtain ⟨hroom, rfl⟩ := alloc_eq_ok.mp hresult
    refine Change.primitive k (by simp_all) ?_ hk hroom
    simp only [delimiter, decide_eq_true_eq, not_or]
    exact ⟨hcolon, hblank, hcomma, fun h ↦ hclosing (Or.inr h), fun h ↦ hclosing (Or.inl h)⟩

end JsonParser

/-! ## Where the tokens lie -/

/-- What stands in the text where a token says. -/
structure Spelled (js : List Char) (t : Jsontok) : Prop where
  /-- A container is in its brackets. -/
  container : ∀ object, t.type = containerType object →
    js[t.start]? = some (opening object) ∧ ∀ e, t.stop = some e → js[e - 1]? = some (closing object)
  /-- A string is in its quotes. -/
  string : t.type = .string →
    js[t.start - 1]? = some '"' ∧ ∃ e, t.stop = some e ∧ js[e]? = some '"'
  /-- A primitive is not empty, and has none of the characters that end one. -/
  primitive : t.type = .primitive → ∃ e, t.stop = some e ∧ t.start < e ∧
    ∀ i, t.start ≤ i → i < e → ∃ c, js[i]? = some c ∧ primitiveChar c

/-- The tokens of the first `pos` characters: they are in the order of their starts, and a later
token lies behind an earlier one or inside it. -/
structure Nested (js : List Char) (pos : ℕ) (tokens : List Jsontok) : Prop where
  /-- They begin in the text that was read. -/
  start_lt : ∀ {i : ℕ} {t : Jsontok}, tokens[i]? = some t → t.start < pos
  /-- They end in it too. -/
  stop_le : ∀ {i e : ℕ} {t : Jsontok}, tokens[i]? = some t → t.stop = some e → t.start ≤ e ∧ e ≤ pos
  /-- They say what is there. -/
  spelled : ∀ {i : ℕ} {t : Jsontok}, tokens[i]? = some t → Spelled js t
  /-- Two of them are apart, or the later one is inside the other. -/
  apart : ∀ {i j : ℕ} {t u : Jsontok}, i < j → tokens[i]? = some t → tokens[j]? = some u →
    t.start < u.start ∧ ∀ e, t.stop = some e → e ≤ u.start ∨ ∃ e', u.stop = some e' ∧ e' < e

theorem exists_getElem?_bumpAt {o : Option ℕ} {tokens : List Jsontok} {i : ℕ} {t : Jsontok}
    (h : (bumpAt o tokens)[i]? = some t) :
    ∃ u, tokens[i]? = some u ∧ t.type = u.type ∧ t.start = u.start ∧ t.stop = u.stop := by
  cases o with
  | none => exact ⟨t, h, rfl, rfl, rfl⟩
  | some k =>
    rw [bumpAt, List.getElem?_modify] at h
    cases hu : tokens[i]? with
    | none => simp [hu] at h
    | some u =>
      simp only [hu, Option.map_eq_map, Option.map_some, Option.some.injEq] at h
      split_ifs at h <;> exact ⟨u, rfl, by rw [← h]; exact ⟨rfl, rfl, rfl⟩⟩

namespace Nested

variable {js : List Char} {pos : ℕ} {tokens : List Jsontok}

/-- Sizes do not matter. -/
theorem bumpAt (h : Nested js pos tokens) (o : Option ℕ) : Nested js pos (bumpAt o tokens) where
  start_lt ht := by
    obtain ⟨u, hu, -, hstart, -⟩ := exists_getElem?_bumpAt ht
    exact hstart ▸ h.start_lt hu
  stop_le ht he := by
    obtain ⟨u, hu, -, hstart, hstop⟩ := exists_getElem?_bumpAt ht
    exact hstart ▸ h.stop_le hu (hstop ▸ he)
  spelled ht := by
    obtain ⟨u, hu, htype, hstart, hstop⟩ := exists_getElem?_bumpAt ht
    obtain ⟨hcontainer, hstring, hprimitive⟩ := h.spelled hu
    rw [← htype, ← hstart, ← hstop] at hcontainer hstring hprimitive
    exact ⟨hcontainer, hstring, hprimitive⟩
  apart hij ht hv := by
    obtain ⟨u, hu, -, hstart, hstop⟩ := exists_getElem?_bumpAt ht
    obtain ⟨v, hv, -, hstart', hstop'⟩ := exists_getElem?_bumpAt hv
    rw [hstart, hstop, hstart', hstop']
    exact h.apart hij hu hv

/-- A token is added behind the others. -/
theorem concat (h : Nested js pos tokens) {pos' : ℕ} (hpos : pos ≤ pos') {t : Jsontok}
    (hstart : pos ≤ t.start) (hlt : t.start < pos')
    (hstop : ∀ e, t.stop = some e → t.start ≤ e ∧ e ≤ pos')
    (hspelled : Spelled js t) : Nested js pos' (tokens ++ [t]) := by
  have hcases : ∀ {i u}, (tokens ++ [t])[i]? = some u →
      tokens[i]? = some u ∨ i = tokens.length ∧ u = t := by
    intro i u hu
    rcases lt_or_ge i tokens.length with hi | hi
    · exact Or.inl (by rwa [List.getElem?_append_left hi] at hu)
    · rw [List.getElem?_append_right hi, List.getElem?_singleton] at hu
      split_ifs at hu with hzero
      exact Or.inr ⟨by omega, (Option.some.inj hu).symm⟩
  refine ⟨fun hu ↦ ?_, fun hu he ↦ ?_, fun hu ↦ ?_, fun hij hu hv ↦ ?_⟩
  · rcases hcases hu with hu | ⟨-, rfl⟩
    · exact (h.start_lt hu).trans_le hpos
    · exact hlt
  · rcases hcases hu with hu' | ⟨-, rfl⟩
    · exact ⟨(h.stop_le hu' he).1, (h.stop_le hu' he).2.trans hpos⟩
    · exact hstop _ he
  · rcases hcases hu with hu | ⟨-, rfl⟩
    · exact h.spelled hu
    · exact hspelled
  · rcases hcases hu with hu' | ⟨rfl, -⟩
    · rcases hcases hv with hv' | ⟨-, rfl⟩
      · exact h.apart hij hu' hv'
      · exact ⟨(h.start_lt hu').trans_le hstart, fun e he ↦
          Or.inl ((h.stop_le hu' he).2.trans hstart)⟩
    · rcases hcases hv with hv | ⟨rfl, -⟩
      · exact absurd (List.getElem?_eq_some_iff.mp hv).1 (by omega)
      · exact absurd hij (lt_irrefl _)

/-- The innermost open token is closed. -/
theorem close (h : Nested js pos tokens) {i : ℕ} {t : Jsontok} (hget : tokens[i]? = some t)
    (hopen : t.isOpen) (hlast : ∀ j, i < j → ∀ u, tokens[j]? = some u → u.isOpen = false)
    {object : Bool} (htype : t.type = containerType object)
    (hjs : js[pos]? = some (closing object)) :
    Nested js (pos + 1) (tokens.modify i fun t ↦ { t with stop := some (pos + 1) }) := by
  have hcases : ∀ {k u}, (tokens.modify i fun t ↦ { t with stop := some (pos + 1) })[k]? = some u →
      k ≠ i ∧ tokens[k]? = some u ∨ k = i ∧ u = { t with stop := some (pos + 1) } := by
    intro k u hu
    rw [List.getElem?_modify] at hu
    rcases eq_or_ne i k with rfl | hne
    · exact Or.inr ⟨rfl, by simpa [hget, eq_comm] using hu⟩
    · exact Or.inl ⟨hne.symm, by simpa [hne] using hu⟩
  have hstop : t.stop = none := by simpa [Jsontok.isOpen] using hopen
  have hstart := h.start_lt hget
  refine ⟨fun hu ↦ ?_, fun hu he ↦ ?_, fun hu ↦ ?_, fun hij hu hv ↦ ?_⟩
  · rcases hcases hu with ⟨-, hu⟩ | ⟨-, rfl⟩
    · exact (h.start_lt hu).trans (Nat.lt_succ_self pos)
    · exact hstart.trans (Nat.lt_succ_self pos)
  · rcases hcases hu with ⟨-, hu⟩ | ⟨-, rfl⟩
    · exact ⟨(h.stop_le hu he).1, (h.stop_le hu he).2.trans (Nat.le_succ pos)⟩
    · obtain rfl := Option.some.inj he
      exact ⟨(hstart.trans (Nat.lt_succ_self pos)).le, le_rfl⟩
  · rcases hcases hu with ⟨-, hu⟩ | ⟨-, rfl⟩
    · exact h.spelled hu
    · have hspelled := h.spelled hget
      refine ⟨fun object' htype' ↦ ⟨(hspelled.container object' htype').1, fun e he ↦ ?_⟩,
        fun hstring ↦ ?_, fun hprimitive ↦ ?_⟩
      · obtain rfl := Option.some.inj he
        have hsame : object' = object := by
          have heq := htype'.symm.trans htype
          revert heq
          cases object <;> cases object' <;> simp [containerType]
        rw [hsame]
        exact hjs
      · rw [htype] at hstring
        cases object <;> simp [containerType] at hstring
      · rw [htype] at hprimitive
        cases object <;> simp [containerType] at hprimitive
  · rcases hcases hu with ⟨-, hu'⟩ | ⟨rfl, rfl⟩
    · rcases hcases hv with ⟨-, hv'⟩ | ⟨rfl, rfl⟩
      · exact h.apart hij hu' hv'
      · obtain ⟨hlt, hbehind⟩ := h.apart hij hu' hget
        refine ⟨hlt, fun e he ↦ Or.inl ?_⟩
        rcases hbehind e he with hle | ⟨e', he', -⟩
        · exact hle
        · rw [hstop] at he'
          cases he'
    · rcases hcases hv with ⟨-, hv⟩ | ⟨rfl, -⟩
      · refine ⟨(h.apart hij hget hv).1, fun e he ↦ Or.inr ?_⟩
        obtain rfl := Option.some.inj he
        obtain ⟨e', he'⟩ : ∃ e', _ = some e' := Option.ne_none_iff_exists'.mp
          (show _ ≠ none by simpa [Jsontok.isOpen] using hlast _ hij _ hv)
        exact ⟨e', he', Nat.lt_succ_iff.mpr (h.stop_le hv he').2⟩
      · exact absurd hij (lt_irrefl _)

theorem mono (h : Nested js pos tokens) {pos' : ℕ} (hpos : pos ≤ pos') : Nested js pos' tokens :=
  ⟨fun ht ↦ (h.start_lt ht).trans_le hpos,
    fun ht he ↦ ⟨(h.stop_le ht he).1, (h.stop_le ht he).2.trans hpos⟩, h.spelled, h.apart⟩

end Nested

theorem exists_of_map_eq_ok {e : Except Jsonerr ℕ} {f : ℕ → ℕ} {k : ℕ} (h : e.map f = .ok k) :
    ∃ a, e = .ok a ∧ f a = k := by
  cases e with
  | error e => cases h
  | ok a => exact ⟨a, rfl, Except.ok.inj h⟩

/-- A string ends at a quote. -/
theorem getElem?_stringLength {cs : List Char} {k : ℕ} (h : stringLength cs = .ok k) :
    cs[k]? = some '"' := by
  fun_induction stringLength cs generalizing k with
  | case1 => cases h
  | case2 => cases h
  | case3 =>
    obtain rfl := Except.ok.inj h
    rfl
  | case4 => cases h
  | case5 e cs he _ _ ih =>
    obtain ⟨a, ha, rfl⟩ := exists_of_map_eq_ok h
    exact ih ha
  | case6 cs _ _ _ ih =>
    cases hj : hexLength 4 cs with
    | error e => simp [hj, bind, Except.bind] at h
    | ok j =>
      rw [hj] at h
      obtain ⟨a, ha, rfl⟩ := exists_of_map_eq_ok h
      have hget := ih j ha
      rw [List.getElem?_drop] at hget
      rw [show a + (j + 2) = j + a + 1 + 1 by omega]
      exact hget
  | case7 => cases h
  | case8 c cs _ _ _ ih =>
    obtain ⟨a, ha, rfl⟩ := exists_of_map_eq_ok h
    exact ih ha

theorem getElem?_primitiveLength {cs : List Char} {k : ℕ} (h : primitiveLength cs = .ok k) :
    ∀ i < k, ∃ c, cs[i]? = some c ∧ primitiveChar c := by
  fun_induction primitiveLength cs generalizing k with
  | case1 =>
    obtain rfl := Except.ok.inj h
    exact fun i hi ↦ absurd hi (Nat.not_lt_zero i)
  | case2 =>
    obtain rfl := Except.ok.inj h
    exact fun i hi ↦ absurd hi (Nat.not_lt_zero i)
  | case3 => cases h
  | case4 c cs hend hchar ih =>
    obtain ⟨a, ha, rfl⟩ := exists_of_map_eq_ok h
    intro i hi
    cases i with
    | zero => exact ⟨c, rfl, fun hdelimiter ↦ hend (Or.inr hdelimiter), by omega, by omega⟩
    | succ i => exact ih ha i (by omega)

theorem primitiveLength_pos {c : Char} {cs : List Char} {k : ℕ} (hzero : c ≠ '\x00')
    (hdelimiter : ¬delimiter c) (h : primitiveLength (c :: cs) = .ok k) : 0 < k := by
  rw [primitiveLength, if_neg (by simp [hzero, hdelimiter])] at h
  split_ifs at h
  obtain ⟨a, -, rfl⟩ := exists_of_map_eq_ok h
  exact Nat.succ_pos a

/-! ## Runs -/

open JsonParser

variable {js : List Char} {s s' : JsonParser} {n m k : ℕ} {c : Char} {cs : List Char}

/-- **A step keeps the tokens nested**, and counts those that it allocates. -/
theorem Nested.step (h : Nested js s.pos s.tokens) (hrest : js.drop s.pos = c :: cs)
    (hzero : c ≠ '\x00')
    (hstep : s.step (some n) c cs = .ok (s', m, k)) :
    s'.pos = s.pos ∧ Nested js (s.pos + k + 1) s'.tokens ∧
      s'.tokens.length = s.tokens.length + m := by
  have hget : ∀ i, js[s.pos + i]? = (c :: cs)[i]? := fun i ↦ by rw [← List.getElem?_drop, hrest]
  have hhead : js[s.pos]? = some c := hget 0
  cases change_of_step hstep with
  | opened object hc hroom =>
    refine ⟨rfl, ?_, by simp⟩
    refine (h.bumpAt _).concat (by omega) le_rfl (Nat.lt_succ_self _) (fun e he ↦ by cases he) ?_
    refine ⟨fun object' htype ↦ ⟨?_, fun e he ↦ by cases he⟩, fun hstring ↦ ?_, fun hprimitive ↦ ?_⟩
    · rw [hhead, hc]
      revert htype
      cases object <;> cases object' <;> simp [containerType]
    · cases object <;> cases hstring
    · cases object <;> cases hprimitive
  | closed object hc i t hgett htype hopen hlast o =>
    exact ⟨rfl, h.close hgett hopen hlast htype (hc ▸ hhead), by simp⟩
  | string hc k hk hroom =>
    have hquote : js[s.pos + 1 + k]? = some '"' := by
      rw [Nat.add_assoc, hget, Nat.add_comm 1 k, List.getElem?_cons_succ]
      exact getElem?_stringLength hk
    refine ⟨rfl, ?_, by simp⟩
    refine (h.bumpAt _).concat (by omega) (Nat.le_succ _) (by simp only; omega) (fun e he ↦ ?_) ?_
    · obtain rfl := Option.some.inj he
      exact ⟨Nat.le_add_right _ _, by omega⟩
    · refine ⟨fun object htype ↦ ?_, fun _ ↦ ⟨?_, _, rfl, hquote⟩,
        fun hprimitive ↦ by cases hprimitive⟩
      · cases object <;> cases htype
      · exact hc ▸ hhead
  | primitive k hc hdelimiter hk hroom =>
    have hpos := primitiveLength_pos hzero hdelimiter hk
    refine ⟨rfl, ?_, by simp⟩
    refine (h.bumpAt _).concat (by omega) le_rfl (by simp only; omega) (fun e he ↦ ?_) ?_
    · obtain rfl := Option.some.inj he
      exact ⟨Nat.le_add_right _ _, by omega⟩
    · refine ⟨fun object htype ↦ ?_, fun hstring ↦ (by cases hstring),
        fun _ ↦ ⟨_, rfl, by simp only; omega, fun i hi hlt ↦ ?_⟩⟩
      · cases object <;> cases htype
      · simp only at hi
        have hchar := getElem?_primitiveLength hk (i - s.pos) (by omega)
        rwa [← hget, Nat.add_sub_cancel' hi] at hchar
  | super hc o => exact ⟨rfl, h.mono (by omega), rfl⟩

theorem closed_of_finish {count r : ℕ} (h : s.finish count = .ok r) :
    r = count ∧ ∀ (i : ℕ) (t : Jsontok), s.tokens[i]? = some t → t.isOpen = false := by
  rw [finish] at h
  split_ifs at h with hopen
  refine ⟨(Except.ok.inj h).symm, fun i t ht ↦ ?_⟩
  rw [Option.not_isSome_iff_eq_none] at hopen
  exact lastBelow_eq_none hopen i (List.getElem?_eq_some_iff.mp ht).1 t ht

/-- What a run that succeeds leaves. -/
theorem run_nested {count r : ℕ} (hrest : js.drop s.pos = cs) (h : Nested js s.pos s.tokens)
    (hcount : count = s.tokens.length) (hrun : run (some n) cs count s = (.ok r, s')) :
    Nested js s'.pos s'.tokens ∧ r = s'.tokens.length ∧
      ∀ (i : ℕ) (t : Jsontok), s'.tokens[i]? = some t → t.isOpen = false := by
  fun_induction run (some n) cs count s with
  | case1 count s =>
    obtain ⟨hfinish, rfl⟩ := Prod.mk.inj hrun
    obtain ⟨rfl, hclosed⟩ := closed_of_finish hfinish
    exact ⟨h, hcount, hclosed⟩
  | case2 cs count s =>
    obtain ⟨hfinish, rfl⟩ := Prod.mk.inj hrun
    obtain ⟨rfl, hclosed⟩ := closed_of_finish hfinish
    exact ⟨h, hcount, hclosed⟩
  | case3 => cases (Prod.mk.inj hrun).1
  | case4 c cs count s hzero t m k hstep ih =>
    obtain ⟨-, hnested, hlength⟩ := h.step hrest hzero hstep
    refine ih ?_ hnested (by rw [hlength, hcount]) hrun
    rw [Nat.add_assoc, ← List.drop_drop, hrest, List.drop_succ_cons]

/-- **What is accepted is well formed.** The tokens are all closed, they are as many as the parser
returns, any two are apart or nested, and each is spelled in the text. -/
theorem jsonParse_nested {r : ℕ} (h : jsonParse jsonInit js (some n) = (.ok r, s)) :
    Nested js s.pos s.tokens ∧ r = s.tokens.length ∧
      ∀ (i : ℕ) (t : Jsontok), s.tokens[i]? = some t → t.isOpen = false := by
  refine run_nested rfl ?_ rfl h
  constructor <;> simp [jsonInit]

theorem jsonParse_nested_two :
    Nested ['[', '1', ']'] 3 [⟨.array, 0, some 3, 1⟩, ⟨.primitive, 1, some 2, 0⟩] := by
  have hfirst : jsonParse jsonInit ['[', '1', ']'] (some 2)
      = run (some 2) ['1', ']'] 1 ⟨1, some 0, [⟨.array, 0, none, 0⟩]⟩ := by
    rw [jsonParse, jsonInit, List.drop_zero, run]
    rfl
  have hparse : jsonParse jsonInit ['[', '1', ']'] (some 2)
      = (.ok 2, ⟨3, none, [⟨.array, 0, some 3, 1⟩, ⟨.primitive, 1, some 2, 0⟩]⟩) := by
    rw [hfirst, run]
    change run (some 2) [']'] 2 ⟨2, some 0, [⟨.array, 0, none, 1⟩, ⟨.primitive, 1, some 2, 0⟩]⟩ = _
    rw [run]
    change run (some 2) [] 2 ⟨3, none, [⟨.array, 0, some 3, 1⟩, ⟨.primitive, 1, some 2, 0⟩]⟩ = _
    rw [run]
    rfl
  exact (jsonParse_nested hparse).1

/-! ## Counting first -/

theorem length_of_change (h : Change s n c cs s' m k) : s'.tokens.length = s.tokens.length + m := by
  cases h <;> simp

/-- More tokens make a difference only where there are none left. -/
theorem step_mono (h : n ≤ m) : s.step (some n) c cs = s.step (some m) c cs ∨
    s.step (some n) c cs = .error .nomem := by
  rcases lt_or_ge s.tokens.length n with hlt | hge
  · have halloc : ∀ t, s.alloc n t = s.alloc m t := fun t ↦ by
      rw [alloc_eq hlt, alloc_eq (hlt.trans_le h)]
    exact Or.inl (by simp only [step, openToken, halloc])
  · have halloc : ∀ t, s.alloc n t = .error .nomem := fun t ↦ if_pos hge
    simp only [step, openToken, halloc]
    by_cases hopening : c = '{' ∨ c = '['
    · exact Or.inr (by rw [if_pos hopening]; rfl)
    rw [if_neg hopening, if_neg hopening]
    by_cases hquote : c = '"'
    · subst hquote
      cases stringLength cs with
      | error e => exact Or.inl rfl
      | ok k => exact Or.inr rfl
    rw [if_neg hquote, if_neg hquote]
    by_cases hclosing : c = '}' ∨ c = ']'
    · exact Or.inl (by rw [if_pos hclosing, if_pos hclosing])
    rw [if_neg hclosing, if_neg hclosing]
    by_cases hblank : blank c
    · exact Or.inl (by rw [if_pos hblank, if_pos hblank])
    rw [if_neg hblank, if_neg hblank]
    by_cases hcolon : c = ':'
    · exact Or.inl (by rw [if_pos hcolon, if_pos hcolon])
    rw [if_neg hcolon, if_neg hcolon]
    by_cases hcomma : c = ','
    · exact Or.inl (by rw [if_pos hcomma, if_pos hcomma])
    rw [if_neg hcomma, if_neg hcomma]
    cases primitiveLength (c :: cs) with
    | error e => exact Or.inl rfl
    | ok k => exact Or.inr rfl

theorem finish_add (a b : ℕ) : s.finish (a + b) = (s.finish a).map (· + b) := by
  rw [finish, finish]
  split_ifs <;> rfl

/-- The count is only added to. -/
theorem run_add {num : Option ℕ} (a b : ℕ) : run num cs (a + b) s
    = ((run num cs a s).1.map (· + b), (run num cs a s).2) := by
  fun_induction run num cs a s with
  | case1 count s => rw [run, finish_add]
  | case2 cs count s => rw [run, if_pos rfl, finish_add]
  | case3 c cs count s hzero e hstep =>
    rw [run, if_neg hzero, hstep]
    rfl
  | case4 c cs count s hzero t m k hstep ih =>
    rw [run_cons hzero hstep, Nat.add_right_comm, ih]

theorem run_resume {count : ℕ} (hnm : n ≤ m) (hrest : js.drop s.pos = cs)
    (hcount : count = s.tokens.length)
    (h : run (some n) cs count s = (.error .nomem, s')) :
    run (some m) cs count s = ((run (some m) (js.drop s'.pos) 0 s').1.map (· + s'.tokens.length),
      (run (some m) (js.drop s'.pos) 0 s').2) := by
  fun_induction run (some n) cs count s with
  | case1 count s =>
    have hfinish := (Prod.mk.inj h).1
    rw [finish] at hfinish
    split_ifs at hfinish
    cases hfinish
  | case2 cs count s =>
    have hfinish := (Prod.mk.inj h).1
    rw [finish] at hfinish
    split_ifs at hfinish
    cases hfinish
  | case3 c cs count s hzero e hstep =>
    obtain rfl := (Prod.mk.inj h).2
    rw [hrest, ← run_add, Nat.zero_add, hcount]
  | case4 c cs count s hzero t j k hstep ih =>
    have hchange := change_of_step hstep
    have hsame : s.step (some m) c cs = .ok (t, j, k) := by
      rcases @step_mono s _ _ c cs hnm with heq | herror
      · rw [← heq, hstep]
      · rw [hstep] at herror
        cases herror
    rw [run_cons hzero hsame]
    refine ih ?_ (by rw [length_of_change hchange, hcount]) h
    rw [Nat.add_assoc, ← List.drop_drop, hrest, List.drop_succ_cons]

/-- **Going on.** A parser that ran out of tokens can go on with more: in the end it is where it
would be if it had had them from the start, and what it returns is short by the tokens it had
before. -/
theorem jsonParse_resume (hnm : n ≤ m) (h : jsonParse jsonInit js (some n) = (.error .nomem, s)) :
    jsonParse jsonInit js (some m)
      = ((jsonParse s js (some m)).1.map (· + s.tokens.length), (jsonParse s js (some m)).2) :=
  run_resume hnm rfl rfl h

theorem jsonParse_resume_two : (jsonParse jsonInit ['[', '1', ']'] (some 2)).1
    = (jsonParse ⟨1, some 0, [⟨.array, 0, none, 0⟩]⟩ ['[', '1', ']'] (some 2)).1.map (· + 1) := by
  have hfirst : jsonParse jsonInit ['[', '1', ']'] (some 1)
      = run (some 1) ['1', ']'] 1 ⟨1, some 0, [⟨.array, 0, none, 0⟩]⟩ := by
    rw [jsonParse, jsonInit, List.drop_zero, run]
    rfl
  have hnomem : jsonParse jsonInit ['[', '1', ']'] (some 1)
      = (.error .nomem, ⟨1, some 0, [⟨.array, 0, none, 0⟩]⟩) := by
    rw [hfirst, run]
    rfl
  exact congrArg Prod.fst (jsonParse_resume (by decide) hnomem)

end Json

end Martink
