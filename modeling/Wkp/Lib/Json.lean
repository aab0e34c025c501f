import Wkp.Lib.Brackets
import Wkp.Lib.Hex

/-!
# JSON

The texts of RFC 8259 as trees that keep every character: a tree is a sequence of tokens, and its
text is theirs.

* `Piece` : what stands for one character in a string, with what it means by itself.
* `decode` : what a string means; two escapes that are the halves of a surrogate pair mean one
  character together.
* `Value`, `Members`, `Items` : the values, with the blanks in them.
* `Token`, `render` : the tokens, and the text of a sequence of them.
* `render_injective` : a text is the text of one sequence only.
-/

open Rust

namespace Json

/-! ### Strings -/

/-- What stands for one character in a string, or for half of one. -/
inductive Piece
  /-- A character that is written as it is. -/
  | plain (c : Char)
  /-- A backslash and a character. -/
  | escape (c : Char)
  /-- `\u` and the digits of a UTF-16 unit. -/
  | unicode (hex : Str)
deriving DecidableEq

/-- The character that a backslash and another one mean. -/
def escapeValue : Char → Option Char
  | '"' => some '"'
  | '\\' => some '\\'
  | '/' => some '/'
  | 'n' => some '\n'
  | 'r' => some '\r'
  | 't' => some '\t'
  | 'b' => some '\x08'
  | 'f' => some '\x0c'
  | _ => none

/-- The character with a number; the replacement character for a number that has none. -/
def scalar (n : ℕ) : Char := if n.isValidChar then Char.ofNat n else '\uFFFD'

/-- The digits of a UTF-16 unit. -/
def IsQuad (hex : Str) : Prop := hex.length = 4 ∧ ∀ c ∈ hex, isHexDigit c = true

namespace Piece

/-- The characters of the piece. -/
def text : Piece → Str
  | plain c => [c]
  | escape c => ['\\', c]
  | unicode hex => '\\' :: 'u' :: hex

/-- What the piece means by itself: half a surrogate pair is no character. -/
def char : Piece → Char
  | plain c => c
  | escape c => (escapeValue c).getD c
  | unicode hex => scalar (hexNumber hex)

/-- A piece that does not end the string, with an escape that means something; `quad` says which
texts may follow `\u`. -/
def Ok (quad : Str → Prop) : Piece → Prop
  | plain c => c ≠ '"' ∧ c ≠ '\\'
  | escape c => (escapeValue c).isSome = true
  | unicode hex => quad hex

theorem Ok.mono {quad quad' : Str → Prop} (h : ∀ hex, quad hex → quad' hex) {p : Piece}
    (hp : p.Ok quad) : p.Ok quad' := by
  cases p with
  | plain c => exact hp
  | escape c => exact hp
  | unicode hex => exact h hex hp

/-- A control character must be escaped. -/
def Allowed : Piece → Prop
  | plain c => 0x20 ≤ c.toNat
  | _ => True

/-- The two pieces are the halves of a surrogate pair. -/
def Pairs : Piece → Piece → Prop
  | unicode hi, unicode lo =>
    0xD800 ≤ hexNumber hi ∧ hexNumber hi ≤ 0xDBFF ∧ 0xDC00 ≤ hexNumber lo ∧ hexNumber lo ≤ 0xDFFF
  | _, _ => False

/-- The character of a surrogate pair. -/
def pairChar : Piece → Piece → Char
  | unicode hi, unicode lo =>
    scalar (0x10000 + (hexNumber hi - 0xD800) * 0x400 + (hexNumber lo - 0xDC00))
  | p, _ => p.char

theorem text_ne_nil (p : Piece) : p.text ≠ [] := by
  cases p <;> exact List.cons_ne_nil _ _

instance : DecidableRel Pairs := fun p q => by
  cases p <;> cases q <;> simp only [Pairs] <;> infer_instance

end Piece

/-- What a string means when every piece is read by itself. -/
def readEach (s : List Piece) : Str := s.map Piece.char

/-- What a string means. -/
def decode : List Piece → Str
  | [] => []
  | [p] => [p.char]
  | p :: q :: s => if p.Pairs q then p.pairChar q :: decode s else p.char :: decode (q :: s)

/-- No two escapes are the halves of a surrogate pair. -/
def Unpaired (s : List Piece) : Prop := s.IsChain fun p q => ¬ p.Pairs q

theorem length_decode_le (s : List Piece) : (decode s).length ≤ s.length := by
  induction s using decode.induct with
  | case1 => exact le_rfl
  | case2 p => exact le_rfl
  | case3 p q s hpair ih =>
    rw [decode, if_pos hpair, List.length_cons, List.length_cons, List.length_cons]
    omega
  | case4 p q s hpair ih =>
    rw [decode, if_neg hpair, List.length_cons, List.length_cons]
    omega

/-- Pieces mean what each means by itself exactly when there is no surrogate pair: a pair means one
character, not two. -/
theorem readEach_eq_decode_iff (s : List Piece) : readEach s = decode s ↔ Unpaired s := by
  induction s using decode.induct with
  | case1 => exact iff_of_true rfl .nil
  | case2 p => exact iff_of_true rfl (.singleton p)
  | case3 p q s hpair ih =>
    refine iff_of_false (fun heq => ?_) fun h => (List.isChain_cons_cons.1 h).1 hpair
    have hlen := congrArg List.length heq
    have hle := length_decode_le s
    rw [decode, if_pos hpair, readEach, List.length_map] at hlen
    simp only [List.length_cons] at hlen
    omega
  | case4 p q s hpair ih =>
    rw [Unpaired, List.isChain_cons_cons, and_iff_right hpair, ← Unpaired, ← ih, decode,
      if_neg hpair]
    exact List.cons_inj_right _

/-- A string: its pieces are the ones of the standard. -/
structure Literal where
  pieces : List Piece
  ok : ∀ p ∈ pieces, p.Ok IsQuad ∧ p.Allowed

/-! ### Numbers, words and blanks -/

/-- At least one decimal digit. -/
def IsDigits (s : Str) : Prop := s ≠ [] ∧ ∀ c ∈ s, c.isDigit = true

/-- An integer has no leading zeros. -/
def IsInt (s : Str) : Prop := IsDigits s ∧ (s.head? = some '0' → s = ['0'])

/-- A fraction, or nothing. -/
def IsFrac (s : Str) : Prop := s = [] ∨ ∃ ds, IsDigits ds ∧ s = '.' :: ds

/-- An exponent, or nothing. -/
def IsExp (s : Str) : Prop :=
  s = [] ∨ ∃ e ∈ ['e', 'E'], ∃ sign ∈ [[], ['+'], ['-']], ∃ ds, IsDigits ds ∧ s = e :: (sign ++ ds)

/-- A number. -/
def IsNumber (s : Str) : Prop :=
  ∃ minus ∈ [[], ['-']], ∃ int frac exp, IsInt int ∧ IsFrac frac ∧ IsExp exp ∧
    s = minus ++ int ++ frac ++ exp

/-- A number or one of the three names. -/
structure Word where
  text : Str
  ok : text ∈ ["true".toList, "false".toList, "null".toList] ∨ IsNumber text

/-- The characters of numbers and names. -/
def isWordChar (c : Char) : Bool := c.isAlphanum || c = '+' || c = '-' || c = '.'

theorem isWordChar_of_isDigit {c : Char} (h : c.isDigit = true) : isWordChar c = true := by
  simp [isWordChar, Char.isAlphanum, h]

theorem IsNumber.chars {s : Str} (h : IsNumber s) : s ≠ [] ∧ ∀ c ∈ s, isWordChar c = true := by
  obtain ⟨minus, hminus, int, frac, exp, ⟨⟨hne, hint⟩, -⟩, hfrac, hexp, rfl⟩ := h
  refine ⟨by simp [hne], ?_⟩
  simp only [List.forall_mem_append]
  refine ⟨⟨⟨?_, fun c hc => isWordChar_of_isDigit (hint c hc)⟩, ?_⟩, ?_⟩
  · rcases List.mem_pair.1 hminus with rfl | rfl
    · exact nofun
    · exact List.forall_mem_singleton.2 rfl
  · rcases hfrac with rfl | ⟨ds, ⟨-, hds⟩, rfl⟩
    · exact nofun
    · exact List.forall_mem_cons.2 ⟨rfl, fun c hc => isWordChar_of_isDigit (hds c hc)⟩
  · rcases hexp with rfl | ⟨e, he, sign, hsign, ds, ⟨-, hds⟩, rfl⟩
    · exact nofun
    · refine List.forall_mem_cons.2 ⟨?_, List.forall_mem_append.2 ⟨?_, fun c hc =>
        isWordChar_of_isDigit (hds c hc)⟩⟩
      · rcases List.mem_pair.1 he with rfl | rfl <;> rfl
      · simp only [List.mem_cons, List.not_mem_nil, or_false] at hsign
        rcases hsign with rfl | rfl | rfl
        · exact nofun
        · exact List.forall_mem_singleton.2 rfl
        · exact List.forall_mem_singleton.2 rfl

theorem Word.chars (w : Word) : w.text ≠ [] ∧ ∀ c ∈ w.text, isWordChar c = true := by
  rcases w.ok with hname | hnumber
  · have hall : (["true".toList, "false".toList, "null".toList].all fun s =>
        s ≠ [] && s.all isWordChar) = true := by decide
    have htext := List.all_eq_true.1 hall w.text hname
    rw [Bool.and_eq_true, decide_eq_true_eq] at htext
    exact ⟨htext.1, List.all_eq_true.1 htext.2⟩
  · exact hnumber.chars

/-- The blanks of the standard. -/
def isBlank (c : Char) : Bool := c = ' ' || c = '\t' || c = '\n' || c = '\r'

/-- What may stand around a token. -/
structure Gap where
  text : Str
  blank : ∀ c ∈ text, isBlank c = true

/-! ### Tokens -/

/-- The two kinds of brackets. -/
inductive Bracket
  | brace
  | square
deriving DecidableEq

/-- The character that opens a bracket. -/
def Bracket.opening : Bracket → Char
  | brace => '{'
  | square => '['

/-- The character that closes a bracket. -/
def Bracket.closing : Bracket → Char
  | brace => '}'
  | square => ']'

/-- A token; the characters of the words, the commas, the colons and the blanks are each one. -/
inductive Token
  | opens (b : Bracket)
  | closes (b : Bracket)
  | literal (s : List Piece)
  | other (c : Char)
deriving DecidableEq

/-- The characters of a string with its quotes. -/
def quoted (s : List Piece) : Str := '"' :: (s.flatMap Piece.text ++ ['"'])

/-- The characters of a token. -/
def Token.text : Token → Str
  | opens b => [b.opening]
  | closes b => [b.closing]
  | literal s => quoted s
  | other c => [c]

/-- The text of the tokens. -/
def render (tokens : List Token) : Str := tokens.flatMap Token.text

@[simp] theorem render_nil : render [] = [] := rfl

@[simp] theorem render_cons (t : Token) (ts : List Token) : render (t :: ts) = t.text ++ render ts :=
  List.flatMap_cons

theorem render_append (ts us : List Token) : render (ts ++ us) = render ts ++ render us :=
  List.flatMap_append

theorem Token.text_ne_nil (t : Token) : t.text ≠ [] := by
  cases t <;> exact List.cons_ne_nil _ _

theorem render_map_other (w : Str) : render (w.map Token.other) = w := by
  induction w with
  | nil => rfl
  | cons c w ih => rw [List.map_cons, render_cons, ih]; rfl

/-- The characters that stand outside of brackets and strings. -/
def isOther (c : Char) : Bool := c ≠ '"' && c ≠ '{' && c ≠ '}' && c ≠ '[' && c ≠ ']'

theorem isOther_of_isWordChar {c : Char} (h : isWordChar c = true) : isOther c = true := by
  rw [isOther]
  simp only [Bool.and_eq_true, decide_eq_true_eq, ne_eq]
  refine ⟨⟨⟨⟨?_, ?_⟩, ?_⟩, ?_⟩, ?_⟩ <;>
  · rintro rfl
    exact absurd h (by decide)

/-- A token that is read as one. -/
def Token.Ok (quad : Str → Prop) : Token → Prop
  | literal s => ∀ p ∈ s, p.Ok quad
  | other c => isOther c = true
  | _ => True

theorem Token.Ok.mono {quad quad' : Str → Prop} (h : ∀ hex, quad hex → quad' hex) {t : Token}
    (ht : t.Ok quad) : t.Ok quad' := by
  cases t with
  | opens b => trivial
  | closes b => trivial
  | literal s => exact fun p hp => (ht p hp).mono h
  | other c => exact ht

/-- What a token does to the brackets. -/
def Token.mark : Token → Brackets.Mark Bracket
  | opens b => .opens b
  | closes b => .closes b
  | _ => .other

@[simp] theorem Token.mark_opens (b : Bracket) : (opens b).mark = .opens b := rfl

@[simp] theorem Token.mark_closes (b : Bracket) : (closes b).mark = .closes b := rfl

@[simp] theorem Token.mark_literal (s : List Piece) : (literal s).mark = .other := rfl

@[simp] theorem Token.mark_other (c : Char) : (other c).mark = .other := rfl

theorem Token.eq_closes_of_mark {t : Token} {b : Bracket} (h : t.mark = .closes b) :
    t = closes b := by
  cases t with
  | closes b' =>
    cases h
    rfl
  | opens b' => cases h
  | literal s => cases h
  | other c => cases h

/-! ### One text, one sequence of tokens -/

section Injective

variable {quad : Str → Prop} (hquad : ∀ hex, quad hex → hex.length = 4)

include hquad in
theorem Piece.text_append_inj {p q : Piece} (hp : p.Ok quad) (hq : q.Ok quad) {s t : Str}
    (h : p.text ++ s = q.text ++ t) : p = q ∧ s = t := by
  cases p with
  | plain c =>
    cases q with
    | plain d => exact ⟨congrArg plain (List.cons.inj h).1, (List.cons.inj h).2⟩
    | escape d => exact absurd (List.cons.inj h).1 hp.2
    | unicode hex => exact absurd (List.cons.inj h).1 hp.2
  | escape c =>
    cases q with
    | plain d => exact absurd (List.cons.inj h).1.symm hq.2
    | escape d =>
      have htail := List.cons.inj (List.cons.inj h).2
      exact ⟨congrArg escape htail.1, htail.2⟩
    | unicode hex =>
      have hu : c = 'u' := (List.cons.inj (List.cons.inj h).2).1
      subst hu
      cases hp
  | unicode hex =>
    cases q with
    | plain d => exact absurd (List.cons.inj h).1.symm hq.2
    | escape d =>
      have hu : 'u' = d := (List.cons.inj (List.cons.inj h).2).1
      subst hu
      cases hq
    | unicode hex' =>
      have hlen : hex.length = hex'.length := (hquad hex hp).trans (hquad hex' hq).symm
      have htail := List.append_inj (List.cons.inj (List.cons.inj h).2).2 hlen
      exact ⟨congrArg unicode htail.1, htail.2⟩

theorem Piece.text_append_ne_quote {p : Piece} (hp : p.Ok quad) (s t : Str) :
    p.text ++ s ≠ '"' :: t := by
  intro h
  cases p with
  | plain c => exact hp.1 (List.cons.inj h).1
  | escape c => exact absurd (List.cons.inj h).1 (by decide)
  | unicode hex => exact absurd (List.cons.inj h).1 (by decide)

include hquad in
theorem quoted_append_inj {s s' : List Piece} (hs : ∀ p ∈ s, p.Ok quad) (hs' : ∀ p ∈ s', p.Ok quad)
    {t t' : Str} (h : quoted s ++ t = quoted s' ++ t') : s = s' ∧ t = t' := by
  have hbody := (List.cons.inj h).2
  simp only [List.append_eq, List.append_assoc, List.singleton_append] at hbody
  clear h
  induction s generalizing s' with
  | nil =>
    rcases s' with _ | ⟨q, s'⟩
    · exact ⟨rfl, (List.cons.inj hbody).2⟩
    · rw [List.flatMap_cons, List.append_assoc] at hbody
      exact absurd hbody.symm (Piece.text_append_ne_quote (hs' q List.mem_cons_self) _ _)
  | cons p s ih =>
    rw [List.forall_mem_cons] at hs
    rw [List.flatMap_cons, List.append_assoc] at hbody
    rcases s' with _ | ⟨q, s'⟩
    · exact absurd hbody (Piece.text_append_ne_quote hs.1 _ _)
    · rw [List.forall_mem_cons] at hs'
      rw [List.flatMap_cons, List.append_assoc] at hbody
      obtain ⟨rfl, htail⟩ := Piece.text_append_inj hquad hs.1 hs'.1 hbody
      obtain ⟨rfl, rfl⟩ := ih hs.2 hs'.2 htail
      exact ⟨rfl, rfl⟩

/-- What a token begins with. -/
def Token.first : Token → Char
  | opens b => b.opening
  | closes b => b.closing
  | literal _ => '"'
  | other c => c

theorem Token.exists_text_eq (t : Token) : ∃ s, t.text = t.first :: s := by
  cases t <;> exact ⟨_, rfl⟩

theorem isOther_opening (b : Bracket) : isOther b.opening = false := by
  cases b <;> rfl

theorem isOther_closing (b : Bracket) : isOther b.closing = false := by
  cases b <;> rfl

/-- A token that is no string is known by what it begins with. -/
theorem Token.eq_of_first {t u : Token} (ht : t.Ok quad) (hu : u.Ok quad) (h : t.first = u.first) :
    t = u ∨ ∃ s s', t = literal s ∧ u = literal s' := by
  have hclash : ∀ {c d : Char}, isOther c = true → isOther d = false → c ≠ d := by
    rintro c d hc hd rfl
    exact absurd (hc.symm.trans hd) (by decide)
  cases t with
  | opens b =>
    cases u with
    | opens b' => cases b <;> cases b' <;> first | exact .inl rfl | cases h
    | closes b' => cases b <;> cases b' <;> cases h
    | literal s => cases b <;> cases h
    | other d => exact absurd h.symm (hclash hu (isOther_opening b))
  | closes b =>
    cases u with
    | opens b' => cases b <;> cases b' <;> cases h
    | closes b' => cases b <;> cases b' <;> first | exact .inl rfl | cases h
    | literal s => cases b <;> cases h
    | other d => exact absurd h.symm (hclash hu (isOther_closing b))
  | literal s =>
    cases u with
    | opens b => cases b <;> cases h
    | closes b => cases b <;> cases h
    | literal s' => exact .inr ⟨s, s', rfl, rfl⟩
    | other d => exact absurd h.symm (hclash hu rfl)
  | other c =>
    cases u with
    | opens b => exact absurd h (hclash ht (isOther_opening b))
    | closes b => exact absurd h (hclash ht (isOther_closing b))
    | literal s => exact absurd h (hclash ht rfl)
    | other d => exact .inl (congrArg other h)

include hquad in
theorem Token.text_append_inj {t u : Token} (ht : t.Ok quad) (hu : u.Ok quad) {r s : Str}
    (h : t.text ++ r = u.text ++ s) : t = u ∧ r = s := by
  obtain ⟨x, hx⟩ := t.exists_text_eq
  obtain ⟨y, hy⟩ := u.exists_text_eq
  have hfirst : t.first = u.first := by
    rw [hx, hy] at h
    exact (List.cons.inj h).1
  rcases Token.eq_of_first ht hu hfirst with rfl | ⟨p, q, rfl, rfl⟩
  · exact ⟨rfl, List.append_cancel_left h⟩
  · obtain ⟨rfl, rfl⟩ := quoted_append_inj hquad ht hu h
    exact ⟨rfl, rfl⟩

include hquad in
theorem render_injective {ts us : List Token} (hts : ∀ t ∈ ts, t.Ok quad)
    (hus : ∀ u ∈ us, u.Ok quad) (h : render ts = render us) : ts = us := by
  induction ts generalizing us with
  | nil =>
    rcases us with _ | ⟨u, us⟩
    · rfl
    · exact absurd (List.append_eq_nil_iff.1 h.symm).1 u.text_ne_nil
  | cons t ts ih =>
    rcases us with _ | ⟨u, us⟩
    · exact absurd (List.append_eq_nil_iff.1 h).1 t.text_ne_nil
    · rw [List.forall_mem_cons] at hts hus
      rw [render_cons, render_cons] at h
      obtain ⟨rfl, htail⟩ := Token.text_append_inj hquad hts.1 hus.1 h
      rw [ih hts.2 hus.2 htail]

end Injective

/-! ### Values -/

/-- The name of a member, with the blanks up to the colon. -/
structure Key where
  before : Gap
  name : Literal
  after : Gap

mutual

/-- A value. -/
inductive Value
  | word (w : Word)
  | string (s : Literal)
  | array (items : Items)
  | emptyArray (gap : Gap)
  | object (members : Members)
  | emptyObject (gap : Gap)

/-- The values of an array. -/
inductive Items
  | last (before : Gap) (v : Value) (after : Gap)
  | cons (before : Gap) (v : Value) (after : Gap) (items : Items)

/-- The members of an object. -/
inductive Members
  | last (key : Key) (before : Gap) (v : Value) (after : Gap)
  | cons (key : Key) (before : Gap) (v : Value) (after : Gap) (members : Members)

end

/-- The pieces of a value that is a string. -/
def Value.string? : Value → Option (List Piece)
  | .string s => some s.pieces
  | _ => none

/-- The tokens of blanks. -/
def Gap.tokens (gap : Gap) : List Token := gap.text.map .other

/-- The tokens of the name of a member. -/
def Key.tokens (key : Key) : List Token :=
  key.before.tokens ++ .literal key.name.pieces :: key.after.tokens

mutual

/-- The tokens of a value. -/
def Value.tokens : Value → List Token
  | .word w => w.text.map .other
  | .string s => [.literal s.pieces]
  | .array items => .opens .square :: (items.tokens ++ [.closes .square])
  | .emptyArray gap => .opens .square :: (gap.tokens ++ [.closes .square])
  | .object members => .opens .brace :: (members.tokens ++ [.closes .brace])
  | .emptyObject gap => .opens .brace :: (gap.tokens ++ [.closes .brace])

/-- The tokens of the values of an array. -/
def Items.tokens : Items → List Token
  | .last before v after => before.tokens ++ (v.tokens ++ after.tokens)
  | .cons before v after items =>
    before.tokens ++ (v.tokens ++ (after.tokens ++ .other ',' :: items.tokens))

/-- The tokens of the members of an object. -/
def Members.tokens : Members → List Token
  | .last key before v after =>
    key.tokens ++ .other ':' :: (before.tokens ++ (v.tokens ++ after.tokens))
  | .cons key before v after members =>
    key.tokens ++ .other ':' :: (before.tokens ++ (v.tokens ++ (after.tokens ++
      .other ',' :: members.tokens)))

end

/-- The names of the members and their values, in order. -/
def Members.entries : Members → List (Literal × Value)
  | .last key _ v _ => [(key.name, v)]
  | .cons key _ v _ members => (key.name, v) :: members.entries

/-- What stands between the braces of an object. -/
inductive Content
  | empty (gap : Gap)
  | members (ms : Members)

/-- The tokens between the braces. -/
def Content.tokens : Content → List Token
  | empty gap => gap.tokens
  | members ms => ms.tokens

/-- The members of an object. -/
def Content.entries : Content → List (Literal × Value)
  | empty _ => []
  | members ms => ms.entries

/-- A text that is an object. -/
structure ObjectText where
  before : Gap
  content : Content
  after : Gap

/-- The tokens of the object and of what stands around it. -/
def ObjectText.tokens (t : ObjectText) : List Token :=
  t.before.tokens ++ .opens .brace :: (t.content.tokens ++ .closes .brace :: t.after.tokens)

/-- The text of an object. -/
def ObjectText.text (t : ObjectText) : Str := render t.tokens

/-! ### Nesting -/

theorem mark_gap (gap : Gap) : ∀ t ∈ gap.tokens, t.mark = .other := by
  intro t ht
  obtain ⟨c, -, rfl⟩ := List.mem_map.1 ht
  rfl

theorem nested_gap (gap : Gap) : Brackets.Nested Token.mark gap.tokens :=
  Brackets.nested_of_others (mark_gap gap)

theorem nested_key (key : Key) : Brackets.Nested Token.mark key.tokens :=
  (nested_gap key.before).append (.other rfl (nested_gap key.after))

mutual

theorem nested_value : ∀ v : Value, Brackets.Nested Token.mark v.tokens
  | .word w => Brackets.nested_of_others fun t ht => by
    obtain ⟨c, -, rfl⟩ := List.mem_map.1 ht
    rfl
  | .string _ => .other rfl .nil
  | .array items => .group (Token.mark_opens .square) (Token.mark_closes .square)
      (nested_items items) .nil
  | .emptyArray gap => .group (Token.mark_opens .square) (Token.mark_closes .square)
      (nested_gap gap) .nil
  | .object members => .group (Token.mark_opens .brace) (Token.mark_closes .brace)
      (nested_members members) .nil
  | .emptyObject gap => .group (Token.mark_opens .brace) (Token.mark_closes .brace)
      (nested_gap gap) .nil

theorem nested_items : ∀ items : Items, Brackets.Nested Token.mark items.tokens
  | .last before v after => (nested_gap before).append ((nested_value v).append (nested_gap after))
  | .cons before v after items => (nested_gap before).append ((nested_value v).append
      ((nested_gap after).append (.other rfl (nested_items items))))

theorem nested_members : ∀ ms : Members, Brackets.Nested Token.mark ms.tokens
  | .last key before v after => (nested_key key).append (.other rfl
      ((nested_gap before).append ((nested_value v).append (nested_gap after))))
  | .cons key before v after ms => (nested_key key).append (.other rfl
      ((nested_gap before).append ((nested_value v).append
        ((nested_gap after).append (.other rfl (nested_members ms))))))

end

theorem nested_content : ∀ content : Content, Brackets.Nested Token.mark content.tokens
  | .empty gap => nested_gap gap
  | .members ms => nested_members ms

/-- How deep the brackets of the text are nested. -/
def ObjectText.nesting (t : ObjectText) : ℕ := Brackets.peak Token.mark 0 t.tokens

theorem ObjectText.nesting_eq (t : ObjectText) : t.nesting =
    Brackets.peak Token.mark 1 (t.content.tokens ++ .closes .brace :: t.after.tokens) := by
  rw [nesting, tokens, Brackets.peak_others_append (mark_gap t.before),
    Brackets.peak_opens _ 0 (Token.mark_opens .brace)]

theorem ObjectText.depth_content (t : ObjectText) :
    Brackets.depth Token.mark 1 (t.content.tokens ++ .closes .brace :: t.after.tokens) = some 0 := by
  rw [Brackets.depth_append, (nested_content t.content).depth, Option.bind_some,
    Brackets.depth_closes _ 0 (Token.mark_closes .brace), (nested_gap t.after).depth]

end Json
