import Martink.Util.Json

/-!
# JSON texts and their tokens

A `Doc` is a JSON text with its blanks. Like the parser it does not care whether what stands between
the brackets are values or members, so the texts of JSON are among them. `Doc.toks` are the tokens
that belong to a text: its values from left to right, each before its parts, with the number of its
parts.

At the end it is said that these are the tokens that the parser leaves. The parser is followed
through the text: behind a value the superior token is the container around it, or a key that the
next comma leads back from.
-/

namespace Martink

namespace Json

/-! ## Texts -/

mutual

/-- A value: `none` where a container is empty. -/
inductive Doc
  | primitive (cs : List Char)
  | string (cs : List Char)
  | empty (object : Bool) (ws : List Char)
  | container (object : Bool) (es : Entries)

/-- What stands between two commas, with the blanks around it. -/
inductive Entry
  | item (pre : List Char) (d : Doc) (post : List Char)
  | member (pre key mid pre' : List Char) (d : Doc) (post : List Char)

inductive Entries
  | one (e : Entry)
  | cons (e : Entry) (es : Entries)

end

def opening (object : Bool) : Char := if object then '{' else '['

def closing (object : Bool) : Char := if object then '}' else ']'

def containerType (object : Bool) : Jsontype := if object then .object else .array

mutual

def Doc.text : Doc → List Char
  | .primitive cs => cs
  | .string cs => '"' :: cs ++ ['"']
  | .empty object ws => opening object :: ws ++ [closing object]
  | .container object es => opening object :: es.text ++ [closing object]

def Entry.text : Entry → List Char
  | .item pre d post => pre ++ d.text ++ post
  | .member pre key mid pre' d post =>
      pre ++ '"' :: key ++ '"' :: mid ++ ':' :: pre' ++ d.text ++ post

def Entries.text : Entries → List Char
  | .one e => e.text
  | .cons e es => e.text ++ ',' :: es.text

end

def Entries.count : Entries → ℕ
  | .one _ => 1
  | .cons _ es => es.count + 1

mutual

/-- The tokens of a value at a position. -/
def Doc.toks (pos : ℕ) : Doc → List Jsontok
  | .primitive cs => [⟨.primitive, pos, some (pos + cs.length), 0⟩]
  | .string cs => [⟨.string, pos + 1, some (pos + 1 + cs.length), 0⟩]
  | .empty object ws => [⟨containerType object, pos, some (pos + 1 + ws.length + 1), 0⟩]
  | .container object es =>
    ⟨containerType object, pos, some (pos + 1 + es.text.length + 1), es.count⟩ :: es.toks (pos + 1)

def Entry.toks (pos : ℕ) : Entry → List Jsontok
  | .item pre d _ => d.toks (pos + pre.length)
  | .member pre key mid pre' d _ =>
    ⟨.string, pos + pre.length + 1, some (pos + pre.length + 1 + key.length), 1⟩
      :: d.toks (pos + pre.length + 1 + key.length + 1 + mid.length + 1 + pre'.length)

def Entries.toks (pos : ℕ) : Entries → List Jsontok
  | .one e => e.toks pos
  | .cons e es => e.toks pos ++ es.toks (pos + e.text.length + 1)

end

/-- What may stand between quotes. -/
inductive StringBody : List Char → Prop
  | nil : StringBody []
  | plain {c : Char} {cs : List Char} (hc : c ≠ '\x00' ∧ c ≠ '"' ∧ c ≠ '\\') (h : StringBody cs) :
      StringBody (c :: cs)
  | escape {e : Char} {cs : List Char} (he : escaped e) (h : StringBody cs) :
      StringBody ('\\' :: e :: cs)
  | unicode {a b c d : Char} {cs : List Char} (hx : hex a ∧ hex b ∧ hex c ∧ hex d)
      (h : StringBody cs) : StringBody ('\\' :: 'u' :: a :: b :: c :: d :: cs)

def primitiveChar (c : Char) : Prop := ¬delimiter c ∧ 32 ≤ c.toNat ∧ c.toNat < 127

/-- What may stand bare: it must not begin like another value. -/
def PrimitiveBody (cs : List Char) : Prop :=
  (∃ c, cs.head? = some c ∧ c ≠ '{' ∧ c ≠ '[' ∧ c ≠ '"') ∧ ∀ c ∈ cs, primitiveChar c

def Blank (ws : List Char) : Prop := ∀ c ∈ ws, blank c

mutual

def Doc.Valid : Doc → Prop
  | .primitive cs => PrimitiveBody cs
  | .string cs => StringBody cs
  | .empty _ ws => Blank ws
  | .container _ es => es.Valid

def Entry.Valid : Entry → Prop
  | .item pre d post => Blank pre ∧ d.Valid ∧ Blank post
  | .member pre key mid pre' d post =>
    Blank pre ∧ StringBody key ∧ Blank mid ∧ Blank pre' ∧ d.Valid ∧ Blank post

def Entries.Valid : Entries → Prop
  | .one e => e.Valid
  | .cons e es => e.Valid ∧ es.Valid

end

/-! ## Characters -/

theorem hexLength_four {a b c d : Char} (h : hex a ∧ hex b ∧ hex c ∧ hex d) (rest : List Char) :
    hexLength 4 (a :: b :: c :: d :: rest) = .ok 4 := by
  have hzero : ∀ x, hex x = true → x ≠ '\x00' := by
    rintro _ hx rfl
    exact absurd hx (by decide)
  obtain ⟨ha, hb, hc, hd⟩ := h
  simp [hexLength, ha, hb, hc, hd, hzero, Except.map]

theorem stringLength_body {cs : List Char} (h : StringBody cs) (rest : List Char) :
    stringLength (cs ++ '"' :: rest) = .ok cs.length := by
  induction h with
  | nil =>
    rw [List.nil_append, stringLength.eq_def]
    simp
  | plain hc h ih =>
    rw [List.cons_append, stringLength.eq_def]
    simp [hc, ih, Except.map]
  | escape he h ih =>
    rw [List.cons_append, List.cons_append, stringLength.eq_def]
    simp [he, ih, Except.map]
  | unicode hx h ih =>
    have hu : escaped 'u' = false := by decide
    simp only [List.cons_append]
    rw [stringLength.eq_def]
    simp [hu, hexLength_four hx, ih, Except.map, bind, Except.bind]

/-- The rest of a text does not go on with a primitive. -/
def Ended (rest : List Char) : Prop := ∀ c ∈ rest.head?, c = '\x00' ∨ delimiter c

theorem primitiveLength_body {cs rest : List Char} (h : ∀ c ∈ cs, primitiveChar c)
    (hrest : Ended rest) : primitiveLength (cs ++ rest) = .ok cs.length := by
  induction cs with
  | nil =>
    cases rest with
    | nil => rfl
    | cons c rest =>
      rw [List.nil_append, primitiveLength, if_pos (hrest c rfl)]
      rfl
  | cons c cs ih =>
    obtain ⟨hdelimiter, hlow, hhigh⟩ := h c List.mem_cons_self
    have hzero : c ≠ '\x00' := by
      rintro rfl
      exact absurd hlow (by decide)
    rw [List.cons_append, primitiveLength, if_neg (by simp [hzero, hdelimiter]), if_neg (by omega),
      ih fun d hd ↦ h d (List.mem_cons_of_mem c hd)]
    rfl

/-! ## Searching the tokens -/

section LastBelow

variable {p : Jsontok → Bool} {front back : List Jsontok}

/-- Tokens from the start of the search on do not matter. -/
theorem lastBelow_append (n : ℕ) (h : n ≤ front.length) :
    lastBelow p (front ++ back) n = lastBelow p front n := by
  induction n with
  | zero => rfl
  | succ n ih =>
    rw [lastBelow, lastBelow, List.getElem?_append_left (by omega), ih (by omega)]

theorem lastBelow_append_of_none (h : ∀ t ∈ back, p t = false) (n : ℕ) (hn : n ≤ back.length) :
    lastBelow p (front ++ back) (front.length + n) = lastBelow p front front.length := by
  induction n with
  | zero => exact lastBelow_append _ le_rfl
  | succ n ih =>
    have hlt : n < back.length := by omega
    have hget : (front ++ back)[front.length + n]? = some back[n] := by
      rw [List.getElem?_append_right (by omega), Nat.add_sub_cancel_left, List.getElem?_eq_getElem]
    rw [← Nat.add_assoc, lastBelow, hget, Option.any_some, h _ (List.getElem_mem _),
      if_neg (by decide), ih (by omega)]

theorem lastBelow_concat {t : Jsontok} (h : p t = true) (hback : ∀ t ∈ back, p t = false) :
    lastBelow p (front ++ t :: back) (front ++ t :: back).length = some front.length := by
  have hget : (front ++ [t])[front.length]? = some t := by simp
  have hsplit : front ++ t :: back = (front ++ [t]) ++ back := by simp
  have hfront : (front ++ [t]).length = front.length + 1 := by simp
  rw [hsplit, List.length_append, lastBelow_append_of_none hback _ le_rfl, hfront, lastBelow, hget,
    Option.any_some, h, if_pos rfl]

end LastBelow

/-- The innermost open container. -/
def lastOpen (tokens : List Jsontok) : Option ℕ := lastBelow Jsontok.isOpen tokens tokens.length

@[simp] theorem length_bumpAt (o : Option ℕ) (tokens : List Jsontok) :
    (bumpAt o tokens).length = tokens.length := by
  cases o with
  | none => rfl
  | some i => exact List.length_modify ..

theorem bumpAt_middle (front back : List Jsontok) (t : Jsontok) :
    bumpAt (some front.length) (front ++ t :: back) = front ++ t.bump :: back := by
  simp [bumpAt, List.modify_eq_set_getElem?]

theorem lastBelow_bumpAt (o : Option ℕ) (tokens : List Jsontok) (n : ℕ) :
    lastBelow Jsontok.isOpen (bumpAt o tokens) n = lastBelow Jsontok.isOpen tokens n := by
  induction n with
  | zero => rfl
  | succ n ih =>
    have hget : (bumpAt o tokens)[n]?.any Jsontok.isOpen = tokens[n]?.any Jsontok.isOpen := by
      cases o with
      | none => rfl
      | some i =>
        rw [bumpAt, List.getElem?_modify]
        cases tokens[n]? with
        | none => rfl
        | some t =>
          simp only [Option.any_some]
          split_ifs <;> rfl
    rw [lastBelow, lastBelow, hget, ih]

theorem lastOpen_bumpAt (o : Option ℕ) (tokens : List Jsontok) :
    lastOpen (bumpAt o tokens) = lastOpen tokens := by
  rw [lastOpen, length_bumpAt, lastBelow_bumpAt, lastOpen]

namespace JsonParser

variable {s : JsonParser} {n count : ℕ} {rest : List Char}

/-- The innermost container is closed, and the one around it is superior. -/
theorem close_eq {front back : List Jsontok} {t : Jsontok} {type : Jsontype}
    (htokens : s.tokens = front ++ t :: back) (ht : t.isOpen) (hback : ∀ t ∈ back, t.isOpen = false)
    (htype : t.type = type) : s.close type
      = .ok { s with tokens := front ++ { t with stop := some (s.pos + 1) } :: back,
                     toksuper := lastOpen front } := by
  set closed : Jsontok := { t with stop := some (s.pos + 1) } with hdef
  have hclosed : ∀ t' ∈ [closed], Jsontok.isOpen t' = false := by simp [hdef, Jsontok.isOpen]
  have hmodify : (front ++ t :: back).modify front.length
      (fun t ↦ { t with stop := some (s.pos + 1) })
      = front ++ closed :: back := by
    simp [List.modify_eq_set_getElem?, hdef]
  have hbelow : lastBelow Jsontok.isOpen (front ++ closed :: back) (front.length + 1)
      = lastOpen front := by
    rw [List.append_cons, lastBelow_append _ (by simp), lastBelow_append_of_none hclosed 1 le_rfl]
    rfl
  rw [close, htokens, lastBelow_concat ht hback]
  simp only [hmodify]
  rw [if_neg (by simp [htype]), hbelow]

/-! ## One character -/

theorem step_blank {c : Char} (h : blank c) (num : Option ℕ) :
    s.step num c rest = .ok (s, 0, 0) := by
  simp only [blank, decide_eq_true_eq] at h
  rcases h with rfl | rfl | rfl | rfl <;> rfl

theorem alloc_eq (hroom : s.tokens.length < n) (t : Jsontok) :
    s.alloc n t = .ok { s with tokens := bumpAt s.toksuper s.tokens ++ [t] } :=
  if_neg (not_le.mpr hroom)

theorem step_opening (hroom : s.tokens.length < n) (object : Bool) :
    s.step (some n) (opening object) rest
      = .ok ({ s with
          tokens := bumpAt s.toksuper s.tokens ++ [⟨containerType object, s.pos, none, 0⟩],
          toksuper := some s.tokens.length }, 1, 0) := by
  cases object <;> simp [step, opening, openToken, alloc_eq hroom, containerType] <;> rfl

theorem step_closing {object : Bool} {s' : JsonParser}
    (h : s.close (containerType object) = .ok s') :
    s.step (some n) (closing object) rest = .ok (s', 0, 0) := by
  cases object <;> simp [step, closing] <;> simp_all [containerType]

theorem step_string (hroom : s.tokens.length < n) {k : ℕ} (h : stringLength rest = .ok k) :
    s.step (some n) '"' rest = .ok ({ s with tokens := bumpAt s.toksuper s.tokens
      ++ [⟨.string, s.pos + 1, some (s.pos + 1 + k), 0⟩] }, 1, k + 1) := by
  simp [step, h, alloc_eq hroom]
  rfl

theorem step_primitive (hroom : s.tokens.length < n) {c : Char} {k : ℕ}
    (hc : c ≠ '{' ∧ c ≠ '[' ∧ c ≠ '"') (hdelimiter : ¬delimiter c)
    (h : primitiveLength (c :: rest) = .ok k) :
    s.step (some n) c rest = .ok ({ s with tokens := bumpAt s.toksuper s.tokens
      ++ [⟨.primitive, s.pos, some (s.pos + k), 0⟩] }, 1, k - 1) := by
  simp only [delimiter, decide_eq_true_eq, not_or] at hdelimiter
  simp [step, hc, hdelimiter, h, alloc_eq hroom]
  rfl

theorem step_comma {s' : JsonParser} (h : s.comma = .ok s') :
    s.step (some n) ',' rest = .ok (s', 0, 0) := by
  simp [step, h, blank]

theorem run_cons {num : Option ℕ} {c : Char} {s' : JsonParser} {m k : ℕ} (hzero : c ≠ '\x00')
    (h : s.step num c rest = .ok (s', m, k)) : run num (c :: rest) count s
      = run num (rest.drop k) (count + m) { s' with pos := s.pos + k + 1 } := by
  rw [run, if_neg hzero, h]

theorem run_blank {ws : List Char} (h : Blank ws) (num : Option ℕ) : ∀ s : JsonParser,
    run num (ws ++ rest) count s = run num rest count { s with pos := s.pos + ws.length } := by
  induction ws with
  | nil => exact fun s ↦ rfl
  | cons c ws ih =>
    intro s
    have hc := h c List.mem_cons_self
    have hzero : c ≠ '\x00' := by
      rintro rfl
      exact absurd hc (by decide)
    rw [List.cons_append, run_cons hzero (step_blank hc num), List.drop_zero, Nat.add_zero,
      ih (fun d hd ↦ h d (List.mem_cons_of_mem c hd)), List.length_cons, Nat.add_zero,
        Nat.add_assoc, Nat.add_comm 1]

end JsonParser

/-! ## Whole texts -/

mutual

theorem Doc.isOpen_toks : ∀ (d : Doc) (pos : ℕ), ∀ t ∈ d.toks pos, t.isOpen = false
  | .primitive cs, pos => by simp [Doc.toks, Jsontok.isOpen]
  | .string cs, pos => by simp [Doc.toks, Jsontok.isOpen]
  | .empty object ws, pos => by simp [Doc.toks, Jsontok.isOpen]
  | .container object es, pos => by
    have h := Entries.isOpen_toks es (pos + 1)
    simpa [Doc.toks, Jsontok.isOpen] using h

theorem Entry.isOpen_toks : ∀ (e : Entry) (pos : ℕ), ∀ t ∈ e.toks pos, t.isOpen = false
  | .item pre d post, pos => Doc.isOpen_toks d _
  | .member pre key mid pre' d post, pos => by
    have h := Doc.isOpen_toks d
    simpa [Entry.toks, Jsontok.isOpen] using h _

theorem Entries.isOpen_toks : ∀ (es : Entries) (pos : ℕ), ∀ t ∈ es.toks pos, t.isOpen = false
  | .one e, pos => Entry.isOpen_toks e pos
  | .cons e es, pos => fun t ht ↦ by
    rcases List.mem_append.mp ht with h | h
    · exact Entry.isOpen_toks e pos t h
    · exact Entries.isOpen_toks es _ t h

end

def Doc.isContainer : Doc → Bool
  | .primitive _ => false
  | .string _ => false
  | .empty _ _ => true
  | .container _ _ => true

theorem ended_append {ws rest : List Char} (hws : Blank ws) (hrest : Ended rest) :
    Ended (ws ++ rest) := by
  cases ws with
  | nil => exact hrest
  | cons c ws =>
    rintro d hd
    cases hd
    exact Or.inr (by simp [delimiter, hws c List.mem_cons_self])

namespace JsonParser

variable {s : JsonParser} {n count : ℕ} {rest : List Char}

/-- The next comma leads back to the token `m`. -/
def Returns (s : JsonParser) (m : ℕ) : Prop := s.comma = .ok { s with toksuper := some m }

/-- Inside a container: the tokens before it, its own, and the closed ones behind. -/
structure Inside (s : JsonParser) (front : List Jsontok) (c : Jsontok) (back : List Jsontok) :
    Prop where
  /-- Where its token is. -/
  tokens : s.tokens = front ++ c :: back
  /-- It is the one that contains the next token. -/
  super : s.toksuper = some front.length
  /-- It has no end yet. -/
  isOpen : c.isOpen
  /-- It is an object or an array. -/
  container : c.container
  /-- The tokens behind it have their ends. -/
  closed : ∀ t ∈ back, t.isOpen = false

theorem returns_of_container {front back : List Jsontok} {c : Jsontok}
    (htokens : s.tokens = front ++ c :: back)
    (hsuper : s.toksuper = some front.length) (hc : c.container) : s.Returns front.length := by
  obtain ⟨pos, toksuper, tokens⟩ := s
  subst htokens hsuper
  simp [Returns, comma, hc]

theorem returns_of_key {front back : List Jsontok} {c : Jsontok} {j : ℕ}
    (htokens : s.tokens = front ++ c :: back) (hsuper : s.toksuper = some j)
    (hkey : s.tokens[j]?.any Jsontok.container = false) (hopen : c.isOpen) (hc : c.container)
    (hback : ∀ t ∈ back, t.isOpen = false) : s.Returns front.length := by
  have hfound : lastBelow (fun t ↦ t.container && t.isOpen) s.tokens s.tokens.length
      = some front.length := by
    rw [htokens]
    exact lastBelow_concat (by simp [hopen, hc]) fun t ht ↦ by simp [hback t ht]
  rw [Returns, comma, hsuper]
  simp [hkey, hfound]

end JsonParser

open JsonParser

mutual

/-- A value is passed with its tokens, and its superior token counts it. -/
theorem Doc.run_text : ∀ (d : Doc), d.Valid → ∀ (n count : ℕ) {rest : List Char} {s : JsonParser},
    s.tokens.length + (d.toks s.pos).length ≤ n → Ended rest →
      run (some n) (d.text ++ rest) count s = run (some n) rest (count + (d.toks s.pos).length)
        ⟨s.pos + d.text.length, if d.isContainer then lastOpen s.tokens else s.toksuper,
          bumpAt s.toksuper s.tokens ++ d.toks s.pos⟩
  | .primitive cs, hvalid, n, count, rest, s, hroom, hrest => by
    obtain ⟨⟨c, hhead, hc⟩, hall⟩ := hvalid
    obtain ⟨cs, rfl⟩ : ∃ cs', cs = c :: cs' := by
      cases cs with
      | nil => exact absurd hhead (by simp)
      | cons d cs => exact ⟨cs, by rw [Option.some.inj hhead]⟩
    have hlength : primitiveLength (c :: (cs ++ rest)) = .ok (cs.length + 1) :=
      primitiveLength_body hall hrest
    have hdelimiter := (hall c List.mem_cons_self).1
    have hzero : c ≠ '\x00' := by
      rintro rfl
      exact absurd (hall _ List.mem_cons_self).2.1 (by decide)
    rw [Doc.toks, List.length_singleton] at hroom
    rw [Doc.text, List.cons_append,
      run_cons hzero (step_primitive (by omega) hc hdelimiter hlength),
      Nat.add_sub_cancel, List.drop_left]
    simp [Doc.toks, Doc.isContainer, Nat.add_assoc]
  | .string cs, hvalid, n, count, rest, s, hroom, hrest => by
    have hlength := stringLength_body hvalid rest
    rw [Doc.toks, List.length_singleton] at hroom
    have htext : (Doc.string cs).text ++ rest = '"' :: (cs ++ '"' :: rest) := by simp [Doc.text]
    have hdrop : (cs ++ '"' :: rest).drop (cs.length + 1) = rest := by simp
    rw [htext, run_cons (by decide) (step_string (by omega) hlength), hdrop]
    simp [Doc.toks, Doc.isContainer, Doc.text, Nat.add_assoc]
  | .empty object ws, hvalid, n, count, rest, s, hroom, hrest => by
    rw [Doc.toks, List.length_singleton] at hroom
    have htext : (Doc.empty object ws).text ++ rest
      = opening object :: (ws ++ closing object :: rest) := by
      simp [Doc.text]
    have hopening : opening object ≠ '\x00' := by cases object <;> decide
    have hclosing : closing object ≠ '\x00' := by cases object <;> decide
    rw [htext, run_cons hopening (step_opening (by omega) object), List.drop_zero,
      run_blank hvalid, run_cons hclosing (step_closing (close_eq rfl rfl (by simp) rfl)),
        List.drop_zero]
    simp [Doc.toks, Doc.isContainer, Doc.text, lastOpen_bumpAt, Nat.add_comm, Nat.add_left_comm]
  | .container object es, hvalid, n, count, rest, s, hroom, hrest => by
    rw [Doc.toks, List.length_cons] at hroom
    have htext : (Doc.container object es).text ++ rest
        = opening object :: (es.text ++ closing object :: rest) := by
      simp [Doc.text]
    have hopening : opening object ≠ '\x00' := by cases object <;> decide
    have hclosing : closing object ≠ '\x00' := by cases object <;> decide
    have hended : Ended (closing object :: rest) := by
      rintro d hd
      cases hd
      cases object <;> exact Or.inr (by decide)
    have hinside : Inside ⟨s.pos + 0 + 1, some s.tokens.length,
        bumpAt s.toksuper s.tokens ++ [⟨containerType object, s.pos, none, 0⟩]⟩
        (bumpAt s.toksuper s.tokens) ⟨containerType object, s.pos, none, 0⟩ [] :=
      ⟨rfl, by rw [length_bumpAt], rfl, by cases object <;> rfl, by simp⟩
    obtain ⟨super', hes⟩ := Entries.run_text es hvalid n (count + 1) hinside
      (by simp; omega) hended
    rw [htext, run_cons hopening (step_opening (by omega) object), List.drop_zero, hes,
      run_cons hclosing (step_closing (close_eq rfl rfl ?_ rfl)), List.drop_zero]
    · simp [Doc.toks, Doc.isContainer, Doc.text, lastOpen_bumpAt, Nat.add_assoc, Nat.add_comm,
        Nat.add_left_comm]
    · simpa using Entries.isOpen_toks es _

theorem Entry.run_text : ∀ (e : Entry), e.Valid →
    ∀ (n count : ℕ) {rest : List Char} {s : JsonParser}
    {front back : List Jsontok} {c : Jsontok}, s.Inside front c back →
    s.tokens.length + (e.toks s.pos).length ≤ n → Ended rest → ∃ super',
      run (some n) (e.text ++ rest) count s = run (some n) rest (count + (e.toks s.pos).length)
        ⟨s.pos + e.text.length, super', front ++ c.bump :: (back ++ e.toks s.pos)⟩ ∧
      JsonParser.Returns ⟨s.pos + e.text.length, super', front ++ c.bump :: (back ++ e.toks s.pos)⟩
      front.length
  | .item pre d post, hvalid, n, count, rest, s, front, back, c, hs, hroom, hrest => by
    obtain ⟨hpre, hd, hpost⟩ := hvalid
    have hsuper : (if d.isContainer then lastOpen s.tokens else s.toksuper)
        = some front.length := by
      rw [hs.tokens, hs.super, lastOpen, lastBelow_concat hs.isOpen hs.closed, ite_self]
    refine ⟨some front.length, ?_, returns_of_container rfl rfl hs.container⟩
    have htext : (Entry.item pre d post).text ++ rest = pre ++ (d.text ++ (post ++ rest)) := by
      simp [Entry.text]
    rw [htext, run_blank hpre, Doc.run_text d hd n count hroom (ended_append hpost hrest),
      run_blank hpost]
    simp only
    rw [hsuper, hs.tokens, hs.super, bumpAt_middle]
    simp [Entry.toks, Entry.text, Nat.add_assoc]
  | .member pre key mid pre' d post, hvalid, n, count, rest, s, front, back, c, hs,
      hroom, hrest => by
    obtain ⟨hpre, hkey, hmid, hpre', hd, hpost⟩ := hvalid
    have hlength := stringLength_body hkey (mid ++ ':' :: (pre' ++ (d.text ++ (post ++ rest))))
    have hdrop : (key ++ '"' :: (mid ++ ':' :: (pre' ++ (d.text ++ (post ++ rest))))).drop
      (key.length + 1)
        = mid ++ ':' :: (pre' ++ (d.text ++ (post ++ rest))) := by simp
    have htext : (Entry.member pre key mid pre' d post).text ++ rest
        = pre ++ '"' :: (key ++ '"' :: (mid ++ ':' :: (pre' ++ (d.text ++ (post ++ rest))))) := by
      simp [Entry.text]
    rw [Entry.toks, List.length_cons] at hroom
    rw [htext, run_blank hpre,
      run_cons (by decide) (step_string (by simp only; omega) hlength), hdrop,
      run_blank hmid, run_cons (by decide) (rfl : step _ (some n) ':' _ = .ok (colon _, 0, 0)),
      List.drop_zero, run_blank hpre']
    simp only [colon, hs.tokens, hs.super, bumpAt_middle]
    -- The key is the last token, and the colon makes it superior.
    obtain ⟨k, hk⟩ : ∃ k : Jsontok, k = ⟨.string, s.pos + pre.length + 1,
      some (s.pos + pre.length + 1 + key.length), 0⟩ := ⟨_, rfl⟩
    have hclosed : ∀ t ∈ back ++ [k], t.isOpen = false := by
      intro t ht
      rcases List.mem_append.mp ht with h | h
      · exact hs.closed t h
      · rw [List.mem_singleton.mp h, hk]
        rfl
    have hfront : front ++ c.bump :: back ++ [k] = front ++ c.bump :: (back ++ [k]) := by simp
    have hcolon : (if (front ++ c.bump :: back ++ [k]).length = 0 then none
        else some ((front ++ c.bump :: back ++ [k]).length - 1))
          = some (front ++ c.bump :: back).length := by simp
    have hlast : lastOpen (front ++ c.bump :: back ++ [k]) = some front.length := by
      rw [hfront]
      exact lastBelow_concat hs.isOpen hclosed
    have hpos : s.pos + pre.length + (key.length + 1) + 1 + mid.length + 0 + 1 + pre'.length
        = s.pos + pre.length + 1 + key.length + 1 + mid.length + 1 + pre'.length := by omega
    have hend : s.pos + pre.length + 1 + key.length + 1 + mid.length + 1 + pre'.length +
        d.text.length + post.length =
          s.pos + (Entry.member pre key mid pre' d post).text.length := by
      simp [Entry.text]
      omega
    have hlength := congrArg List.length hs.tokens
    rw [← hk, hcolon, hpos, Doc.run_text d hd n _ (by simp at hlength ⊢; omega)
      (ended_append hpost hrest), run_blank hpost]
    simp only
    rw [bumpAt_middle, hlast, hend]
    refine ⟨if d.isContainer then some front.length
      else some (front ++ c.bump :: back).length, ?_, ?_⟩
    · simp [Entry.toks, hk, Jsontok.bump, Nat.add_comm 1, Nat.add_assoc]
    · cases d.isContainer with
      | true => exact returns_of_container rfl rfl hs.container
      | false =>
        refine returns_of_key rfl rfl ?_ hs.isOpen hs.container fun t ht ↦ ?_
        · simp [Entry.toks, Jsontok.container]
        · rcases List.mem_append.mp ht with h | h
          · exact hs.closed t h
          · exact Entry.isOpen_toks _ _ t h

theorem Entries.run_text : ∀ (es : Entries), es.Valid → ∀ (n count : ℕ) {rest : List Char}
    {s : JsonParser} {front back : List Jsontok} {c : Jsontok}, s.Inside front c back →
    s.tokens.length + (es.toks s.pos).length ≤ n → Ended rest → ∃ super',
      run (some n) (es.text ++ rest) count s = run (some n) rest (count + (es.toks s.pos).length)
        ⟨s.pos + es.text.length, super',
          front ++ { c with size := c.size + es.count } :: (back ++ es.toks s.pos)⟩
  | .one e, hvalid, n, count, rest, s, front, back, c, hs, hroom, hrest => by
    obtain ⟨super', hrun, -⟩ := Entry.run_text e hvalid n count hs hroom hrest
    exact ⟨super', hrun⟩
  | .cons e es, hvalid, n, count, rest, s, front, back, c, hs, hroom, hrest => by
    obtain ⟨he, hes⟩ := hvalid
    rw [Entries.toks, List.length_append] at hroom
    have htext : (Entries.cons e es).text ++ rest = e.text ++ ',' :: (es.text ++ rest) := by
      simp [Entries.text]
    have hended : Ended (',' :: (es.text ++ rest)) := by
      rintro d hd
      cases hd
      exact Or.inr (by decide)
    obtain ⟨super', hrun, hreturns⟩ := Entry.run_text e he n count hs (by omega) hended
    have hinside : Inside ⟨s.pos + e.text.length + 0 + 1, some front.length,
        front ++ c.bump :: (back ++ e.toks s.pos)⟩ front c.bump (back ++ e.toks s.pos) := by
      refine ⟨rfl, rfl, hs.isOpen, hs.container, fun t ht ↦ ?_⟩
      rcases List.mem_append.mp ht with h | h
      · exact hs.closed t h
      · exact Entry.isOpen_toks e _ t h
    obtain ⟨super'', hrest'⟩ := Entries.run_text es hes n
      (count + (e.toks s.pos).length + 0) hinside (by
        have hlength := congrArg List.length hs.tokens
        simp at hlength ⊢
        omega) hrest
    refine ⟨super'', ?_⟩
    rw [htext, hrun, run_cons (by decide) (step_comma hreturns), List.drop_zero, hrest']
    simp [Entries.toks, Entries.text, Entries.count, Jsontok.bump, Nat.add_assoc, Nat.add_comm,
      Nat.add_left_comm]

end

/-- **The tokens of a text.** With room for them the parser leaves the tokens of the text, all
closed, and returns their number. -/
theorem jsonParse_doc (d : Doc) (hd : d.Valid) {pre post : List Char} (hpre : Blank pre)
    (hpost : Blank post) {n : ℕ} (hroom : (d.toks pre.length).length ≤ n) :
    jsonParse jsonInit (pre ++ d.text ++ post) (some n)
      = (.ok (d.toks pre.length).length,
          ⟨pre.length + d.text.length + post.length, none, d.toks pre.length⟩) := by
  have hended : Ended (post ++ []) := ended_append hpost (by simp [Ended])
  have hclosed : lastBelow Jsontok.isOpen (d.toks pre.length)
      (d.toks pre.length).length = none := by
    have h := @lastBelow_append_of_none Jsontok.isOpen [] (d.toks pre.length)
      (Doc.isOpen_toks d pre.length) _ le_rfl
    simpa [lastBelow] using h
  have htext : pre ++ d.text ++ post = pre ++ (d.text ++ (post ++ [])) := by simp
  have hsuper : (if d.isContainer then lastOpen [] else none) = none := ite_self _
  rw [jsonParse, htext, jsonInit, List.drop_zero, run_blank hpre,
    Doc.run_text d hd n 0 (by simpa using hroom) hended, run_blank hpost, run]
  simp only [bumpAt, List.nil_append, Nat.zero_add, finish, hclosed, hsuper]
  rfl

theorem jsonParse_doc_nested : jsonParse jsonInit [' ', '[', '{', '}', ']', ' '] (some 2)
    = (.ok 2, ⟨6, none, (Doc.container false (.one (.item [] (.empty true []) []))).toks 1⟩) := by
  have hblank : Blank [' '] := fun c hc ↦ by
    rw [List.mem_singleton.mp hc]
    decide
  have hvalid : (Doc.container false (.one (.item [] (.empty true []) []))).Valid := by
    simp [Doc.Valid, Entries.Valid, Entry.Valid, Blank]
  have hroom : ((Doc.container false (.one (.item [] (.empty true []) []))).toks 1).length
    ≤ 2 := by decide
  exact jsonParse_doc _ hvalid hblank hblank hroom

end Json

end Martink
