import Mathlib.Tactic

/-!
# The JSON parser

`json_parse` walks once over a text and fills an array of tokens. A container is open while its
token has no end. The parser knows no stack: what a bracket closes, and where the next member
belongs, it finds by searching the tokens from the last one back.

Only the tokens that are allocated are modelled, so `toknext` is their number. The parser may be
called without tokens, to count how many are needed.
-/

namespace Martink

namespace Json

inductive Jsontype
  | primitive
  | object
  | array
  | string
  deriving DecidableEq

/-- A token, without an end as long as the source has -1 there. -/
structure Jsontok where
  /-- What it is. -/
  type : Jsontype
  /-- Its first character. -/
  start : ℕ
  /-- The character behind it. -/
  stop : Option ℕ
  /-- How many tokens it contains. -/
  size : ℕ
  deriving DecidableEq

namespace Jsontok

def container (t : Jsontok) : Bool := t.type = .array ∨ t.type = .object

/-- `token->start != -1 && token->end == -1`. An allocated token has a start. -/
def isOpen (t : Jsontok) : Bool := t.stop = none

def bump (t : Jsontok) : Jsontok := { t with size := t.size + 1 }

end Jsontok

/-- The errors, and `wild` where `tokens[-1]` is read. -/
inductive Jsonerr
  | nomem
  | inval
  | part
  | wild
  deriving DecidableEq

/-- The parser with the tokens that are allocated. Where the source has -1 there is no
`toksuper`. -/
structure JsonParser where
  /-- The next character. -/
  pos : ℕ
  /-- The token that contains the next one. -/
  toksuper : Option ℕ
  /-- The tokens. -/
  tokens : List Jsontok

def jsonInit : JsonParser := ⟨0, none, []⟩

/-! ## Characters -/

def blank (c : Char) : Bool := c = '\t' ∨ c = '\r' ∨ c = '\n' ∨ c = ' '

/-- What ends a primitive. -/
def delimiter (c : Char) : Bool := c = ':' ∨ blank c ∨ c = ',' ∨ c = ']' ∨ c = '}'

def hex (c : Char) : Bool :=
  48 ≤ c.toNat ∧ c.toNat ≤ 57 ∨ 65 ≤ c.toNat ∧ c.toNat ≤ 70 ∨ 97 ≤ c.toNat ∧ c.toNat ≤ 102

def escaped (c : Char) : Bool :=
  c = '"' ∨ c = '/' ∨ c = '\\' ∨ c = 'b' ∨ c = 'f' ∨ c = 'r' ∨ c = 'n' ∨ c = 't'

/-- The loop of `json_parse_primitive`: how many characters the primitive has. -/
def primitiveLength : List Char → Except Jsonerr ℕ
  | [] => .ok 0
  | c :: cs =>
    if c = '\x00' ∨ delimiter c then .ok 0
    else if c.toNat < 32 ∨ 127 ≤ c.toNat then .error .inval
    else (primitiveLength cs).map (· + 1)

/-- The loop behind `\u`: how many of the next `n` characters are passed. -/
def hexLength : ℕ → List Char → Except Jsonerr ℕ
  | n + 1, c :: cs =>
    if c = '\x00' then .ok 0
    else if hex c then (hexLength n cs).map (· + 1)
    else .error .inval
  | _, _ => .ok 0

/-- The loop of `json_parse_string`: how many characters there are before the quote. -/
def stringLength : List Char → Except Jsonerr ℕ
  | [] => .error .part
  | c :: cs =>
    if c = '\x00' then .error .part
    else if c = '"' then .ok 0
    else if c = '\\' then
      match cs with
      | [] => .error .part
      | e :: ds =>
        if escaped e then (stringLength ds).map (· + 2)
        else if e = 'u' then do
          let k ← hexLength 4 ds
          (stringLength (ds.drop k)).map (· + (k + 2))
        else .error .inval
    else (stringLength cs).map (· + 1)
termination_by cs => cs.length
decreasing_by
  all_goals simp only [List.length_cons, List.length_drop]; omega

/-! ## Tokens -/

/-- `tokens[toksuper].size++`, if there is a superior token. -/
def bumpAt (toksuper : Option ℕ) (tokens : List Jsontok) : List Jsontok :=
  match toksuper with
  | none => tokens
  | some i => tokens.modify i Jsontok.bump

/-- The loops `for (i = n - 1; i >= 0; i--)` that stop at a token. -/
def lastBelow (p : Jsontok → Bool) (tokens : List Jsontok) : ℕ → Option ℕ
  | 0 => none
  | i + 1 => if tokens[i]?.any p then some i else lastBelow p tokens i

namespace JsonParser

variable (s : JsonParser)

/-- `json_alloc_token`, filled and counted in the superior token. -/
def alloc (num : ℕ) (t : Jsontok) : Except Jsonerr JsonParser :=
  if num ≤ s.tokens.length then .error .nomem
  else .ok { s with tokens := bumpAt s.toksuper s.tokens ++ [t] }

/-- An opening bracket. -/
def openToken (num : ℕ) (type : Jsontype) : Except Jsonerr JsonParser :=
  (s.alloc num ⟨type, s.pos, none, 0⟩).map fun s' ↦ { s' with toksuper := some s.tokens.length }

/-- A closing bracket. -/
def close (type : Jsontype) : Except Jsonerr JsonParser :=
  match lastBelow Jsontok.isOpen s.tokens s.tokens.length with
  | none => .error .inval
  | some i =>
    if s.tokens[i]?.any fun t ↦ t.type ≠ type then .error .inval
    else
      let tokens := s.tokens.modify i fun t ↦ { t with stop := some (s.pos + 1) }
      .ok { s with tokens := tokens, toksuper := lastBelow Jsontok.isOpen tokens (i + 1) }

def colon : JsonParser :=
  { s with toksuper := if s.tokens.length = 0 then none else some (s.tokens.length - 1) }

def comma : Except Jsonerr JsonParser :=
  match s.toksuper with
  | none => .error .wild
  | some j =>
    if s.tokens[j]?.any Jsontok.container then .ok s
    else .ok { s with
      toksuper := (lastBelow (fun t ↦ t.container && t.isOpen) s.tokens s.tokens.length).or
        s.toksuper }

/-- What the loop of `json_parse` does at a character, with the next ones: the parser, how many
tokens it counts, and how many of the next characters it passes. Without tokens `num` is `none`. -/
def step (num : Option ℕ) (c : Char) (cs : List Char) : Except Jsonerr (JsonParser × ℕ × ℕ) :=
  if c = '{' ∨ c = '[' then do
    let s' ← match num with
      | none => .ok s
      | some n => s.openToken n (if c = '{' then .object else .array)
    return (s', 1, 0)
  else if c = '}' ∨ c = ']' then do
    let s' ← match num with
      | none => .ok s
      | some _ => s.close (if c = '}' then .object else .array)
    return (s', 0, 0)
  else if c = '"' then do
    let k ← stringLength cs
    let s' ← match num with
      | none => .ok s
      | some n => s.alloc n ⟨.string, s.pos + 1, some (s.pos + 1 + k), 0⟩
    return (s', 1, k + 1)
  else if blank c then return (s, 0, 0)
  else if c = ':' then return (s.colon, 0, 0)
  else if c = ',' then do
    let s' ← match num with
      | none => .ok s
      | some _ => s.comma
    return (s', 0, 0)
  else do
    let k ← primitiveLength (c :: cs)
    let s' ← match num with
      | none => .ok s
      | some n => s.alloc n ⟨.primitive, s.pos, some (s.pos + k), 0⟩
    return (s', 1, k - 1)

/-- The end of `json_parse`. -/
def finish (count : ℕ) : Except Jsonerr ℕ :=
  if (lastBelow Jsontok.isOpen s.tokens s.tokens.length).isSome then .error .part else .ok count

/-- The loop of `json_parse` over the characters from `pos` on: what is returned, and the parser.
After an error the parser is where the error was found. -/
def run (num : Option ℕ) : List Char → ℕ → JsonParser → Except Jsonerr ℕ × JsonParser
  | [], count, s => (s.finish count, s)
  | c :: cs, count, s =>
    if c = '\x00' then (s.finish count, s)
    else
      match s.step num c cs with
      | .error e => (.error e, s)
      | .ok (s', n, k) => run num (cs.drop k) (count + n) { s' with pos := s.pos + k + 1 }
termination_by cs => cs.length
decreasing_by
  simp only [List.length_cons, List.length_drop]
  omega

end JsonParser

/-- `json_parse` of a text by a parser that has passed the first characters of it. -/
def jsonParse (s : JsonParser) (js : List Char) (num : Option ℕ) : Except Jsonerr ℕ × JsonParser :=
  s.run num (js.drop s.pos) 0

end Json

end Martink
