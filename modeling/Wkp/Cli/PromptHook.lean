import Wkp.Lib.Checked
import Wkp.Lib.Json

/-!
# The prompt hook's reader

Model of `extract_json_string_field` and `read_json_string` of `src/crates/wkp-cli/src/prompt_hook.rs`:
a scanner that counts brackets stands in for a parser.  Offsets are in bytes, as in the source; the
bytes of a character outside ASCII, which the source passes one by one in the last branch of a loop,
are passed together.  The depth is an `i32`, as in a release build.

* `readJsonString`, `extractJsonStringField` : the two functions.
* `readJsonString_eq_some` : the strings that the first one reads, as pieces.
-/

namespace Wkp.Cli

open Rust Json

/-! ### The code -/

/-- `u8::is_ascii_whitespace`. -/
def isAsciiWhitespace (c : Char) : Bool :=
  c = ' ' || c = '\t' || c = '\n' || c = '\x0c' || c = '\r'

/-- The character that begins at a byte. -/
def charAt (s : Str) (i : ℕ) : Option Char := (dropBytes i s).bind List.head?

/-- The text from a byte on. -/
def textFrom (s : Str) (i : ℕ) : Str := (dropBytes i s).getD []

/-- `while j < bytes.len() && bytes[j].is_ascii_whitespace() { j += 1 }`. -/
def skipWhitespace (s : Str) (j : ℕ) : ℕ :=
  j + ((textFrom s j).takeWhile isAsciiWhitespace).length

/-- The escapes of one character. -/
def unescape : Char → Option Char
  | '"' => some '"'
  | '\\' => some '\\'
  | '/' => some '/'
  | 'n' => some '\n'
  | 'r' => some '\r'
  | 't' => some '\t'
  | 'b' => some '\x08'
  | 'f' => some '\x0c'
  | _ => none

/-- `char::from_u32`. -/
def fromU32 (n : ℕ) : Option Char := if n.isValidChar then some (Char.ofNat n) else none

/-- The loop of `read_json_string`: the text from the byte `i` on, `out`, and the run of ordinary
characters that ends at `i`. -/
def readLoop : Str → ℕ → Str → Str → Option (Str × ℕ)
  | [], _, _, _ => none
  | c :: rest, i, out, run =>
    if c = '"' then some (out ++ run, i + 1)
    else if c = '\\' then
      match rest with
      | [] => none
      | e :: rest =>
        match unescape e with
        | some c => readLoop rest (i + 2) (out ++ run ++ [c]) []
        | none =>
          if e = 'u' then
            match rest with
            -- four bytes that the parser takes are four characters
            | h₁ :: h₂ :: h₃ :: h₄ :: rest =>
              match (takeBytes 4 (h₁ :: h₂ :: h₃ :: h₄ :: rest)).bind (fromStrRadix16 32) with
              | some code =>
                readLoop rest (i + 6) (out ++ run ++ [(fromU32 code).getD '\uFFFD']) []
              | none => none
            | _ => none
          else none
    else readLoop rest (i + c.utf8Size) out (run ++ [c])

/-- `read_json_string`: the string that begins at a byte, and the byte after it. -/
def readJsonString (s : Str) (start : ℕ) : Option (Str × ℕ) :=
  if charAt s start ≠ some '"' then none else readLoop (textFrom s (start + 1)) (start + 1) [] []

/-- The loop of `extract_json_string_field`.  Every round passes a character, so that the fuel lasts. -/
def extractLoop (input field : Str) : ℕ → ℕ → ℤ → Option Str → Option Str
  | 0, _, _, _ => none
  | fuel + 1, i, depth, found =>
    match charAt input i with
    | none => if depth ≠ 0 then none else found
    | some c =>
      if c = '"' then
        match readJsonString input i with
        | none => none
        | some (value, stop) =>
          let j := skipWhitespace input stop
          if depth = 1 ∧ charAt input j = some ':' ∧ value = field then
            let k := skipWhitespace input (j + 1)
            -- the field is there, and its value is no string
            if charAt input k ≠ some '"' then none
            else match readJsonString input k with
              | none => none
              | some (val, valEnd) => extractLoop input field fuel valEnd depth (some val)
          else extractLoop input field fuel stop depth found
      else if c = '{' ∨ c = '[' then
        extractLoop input field fuel (i + 1) (wrapI32 (depth + 1)) found
      else if c = '}' ∨ c = ']' then
        if wrapI32 (depth - 1) < 0 then none
        else extractLoop input field fuel (i + 1) (wrapI32 (depth - 1)) found
      else extractLoop input field fuel (i + c.utf8Size) depth found

/-- `extract_json_string_field`. -/
def extractJsonStringField (input field : Str) : Option Str :=
  let start := byteLength (input.takeWhile isWhitespace)
  if charAt input start ≠ some '{' then none
  else extractLoop input field (input.length + 1) start 0 none

example : extractJsonStringField "\x7b\"a\": [\"prompt\"], \"prompt\" : \"x\\n\\\"y\\u0041\" \x7d".toList
    "prompt".toList = some "x\n\"yA".toList := by decide +kernel

/-! ### Strings -/

/-- What the parser of numbers takes for the digits after `\u`. -/
def IsReadQuad (hex : Str) : Prop :=
  IsQuad hex ∨ ∃ ds, hex = '+' :: ds ∧ ds.length = 3 ∧ ∀ c ∈ ds, isHexDigit c = true

/-- A piece of a string that `read_json_string` passes. -/
abbrev Read (p : Piece) : Prop := p.Ok IsReadQuad

theorem IsReadQuad.length {hex : Str} (h : IsReadQuad hex) : hex.length = 4 := by
  rcases h with h | ⟨ds, rfl, hlen, -⟩
  · exact h.1
  · rw [List.length_cons, hlen]

theorem unescape_eq : unescape = escapeValue := by
  funext c
  rfl

theorem getD_fromU32 (n : ℕ) : (fromU32 n).getD '\uFFFD' = scalar n := by
  rw [fromU32, scalar]
  split_ifs <;> rfl

theorem IsReadQuad.ascii {hex : Str} (h : IsReadQuad hex) : ∀ c ∈ hex, c.utf8Size = 1 := by
  intro c hc
  rcases h with h | ⟨ds, rfl, -, hds⟩
  · exact utf8Size_of_isHexDigit (h.2 c hc)
  · rcases List.mem_cons.1 hc with rfl | hc
    · rfl
    · exact utf8Size_of_isHexDigit (hds c hc)

theorem fromStrRadix16_of_isReadQuad {hex : Str} (h : IsReadQuad hex) :
    fromStrRadix16 32 hex = some (hexNumber hex) := by
  rcases h with ⟨hlen, hdigits⟩ | ⟨ds, rfl, hlen, hds⟩
  · have hne : hex ≠ [] := by
      rintro rfl
      cases hlen
    exact (fromStrRadix16_of_digits hne hdigits (by rw [hlen]; decide)).1
  · have hne : ds ≠ [] := by
      rintro rfl
      cases hlen
    exact (fromStrRadix16_of_digits hne hds (by rw [hlen]; decide)).2

theorem takeBytes_bind_fromStrRadix16 {hex : Str} {code : ℕ} (hlen : hex.length = 4) (rest : Str) :
    (takeBytes 4 (hex ++ rest)).bind (fromStrRadix16 32) = some code ↔
      IsReadQuad hex ∧ code = hexNumber hex := by
  constructor
  · intro h
    obtain ⟨read, htake, hradix⟩ := Option.bind_eq_some_iff.1 h
    obtain ⟨hbytes, hpre⟩ := takeBytes_eq_some.1 htake
    obtain ⟨ds, hne, hds, hread, hcode⟩ := digits_of_fromStrRadix16 hradix
    have hsize : ∀ c ∈ read, c.utf8Size = 1 := by
      intro c hc
      rcases hread with rfl | rfl
      · exact utf8Size_of_isHexDigit (hds c hc)
      · rcases List.mem_cons.1 hc with rfl | hc
        · rfl
        · exact utf8Size_of_isHexDigit (hds c hc)
    rw [byteLength_of_ascii hsize] at hbytes
    have heq : read = hex := by
      rw [List.prefix_iff_eq_take.1 hpre, hbytes, ← hlen, List.take_left]
    subst heq
    rcases hread with rfl | rfl
    · exact ⟨.inl ⟨hlen, hds⟩, hcode⟩
    · exact ⟨.inr ⟨ds, rfl, by simpa using hlen, hds⟩, hcode⟩
  · rintro ⟨hquad, rfl⟩
    have htake : takeBytes 4 (hex ++ rest) = some hex := by
      rw [← hlen, ← byteLength_of_ascii hquad.ascii, takeBytes_append]
    rw [htake, Option.bind_some, fromStrRadix16_of_isReadQuad hquad]

@[simp] theorem readLoop_nil (i : ℕ) (out run : Str) : readLoop [] i out run = none := by
  rw [readLoop.eq_def]

@[simp] theorem readLoop_quote (rest : Str) (i : ℕ) (out run : Str) :
    readLoop ('"' :: rest) i out run = some (out ++ run, i + 1) := by
  rw [readLoop.eq_def]
  rfl

theorem readLoop_plain {c : Char} (hquote : c ≠ '"') (hslash : c ≠ '\\') (rest : Str) (i : ℕ)
    (out run : Str) :
    readLoop (c :: rest) i out run = readLoop rest (i + c.utf8Size) out (run ++ [c]) := by
  rw [readLoop.eq_def]
  simp only [if_neg hquote, if_neg hslash]

theorem readLoop_escape {e c : Char} (he : unescape e = some c) (rest : Str) (i : ℕ)
    (out run : Str) :
    readLoop ('\\' :: e :: rest) i out run = readLoop rest (i + 2) (out ++ run ++ [c]) [] := by
  rw [readLoop.eq_def]
  simp only [he]
  rfl

theorem readLoop_unicode (h₁ h₂ h₃ h₄ : Char) (rest : Str) (i : ℕ) (out run : Str) :
    readLoop ('\\' :: 'u' :: h₁ :: h₂ :: h₃ :: h₄ :: rest) i out run =
      ((takeBytes 4 (h₁ :: h₂ :: h₃ :: h₄ :: rest)).bind (fromStrRadix16 32)).bind fun code =>
        readLoop rest (i + 6) (out ++ run ++ [(fromU32 code).getD '\uFFFD']) [] := by
  have hu : unescape 'u' = none := rfl
  rw [readLoop.eq_def]
  simp only [Char.reduceEq, ↓reduceIte, hu]
  cases (takeBytes 4 (h₁ :: h₂ :: h₃ :: h₄ :: rest)).bind (fromStrRadix16 32) <;> rfl

theorem escapeValue_ascii {e c : Char} (h : escapeValue e = some c) : e.utf8Size = 1 := by
  rw [escapeValue.eq_def] at h
  split at h <;> first | rfl | cases h

theorem readLoop_piece {p : Piece} (hp : Read p) (rest : Str) (i : ℕ) (out run : Str) :
    ∃ out' run', out' ++ run' = out ++ run ++ [p.char] ∧
      readLoop (p.text ++ rest) i out run = readLoop rest (i + byteLength p.text) out' run' := by
  cases p with
  | plain c =>
    refine ⟨out, run ++ [c], (List.append_assoc ..).symm, ?_⟩
    rw [Piece.text, List.singleton_append, readLoop_plain hp.1 hp.2, byteLength_cons,
      byteLength_nil, Nat.add_zero]
  | escape e =>
    obtain ⟨c, he⟩ := Option.isSome_iff_exists.1 hp
    refine ⟨out ++ run ++ [c], [], by rw [List.append_nil, Piece.char, he, Option.getD_some], ?_⟩
    have hbytes : byteLength (Piece.escape e).text = 2 := by
      rw [Piece.text, byteLength_cons, byteLength_cons, escapeValue_ascii he]
      rfl
    rw [hbytes]
    exact readLoop_escape (unescape_eq ▸ he) rest i out run
  | unicode hex =>
    refine ⟨out ++ run ++ [scalar (hexNumber hex)], [], List.append_nil _, ?_⟩
    have hbytes : byteLength (Piece.unicode hex).text = 6 := by
      rw [Piece.text, byteLength_cons, byteLength_cons, byteLength_of_ascii (IsReadQuad.ascii hp),
        IsReadQuad.length hp]
      rfl
    have hcode := (takeBytes_bind_fromStrRadix16 hp.length rest).2 ⟨hp, rfl⟩
    rw [hbytes]
    obtain ⟨h₁, h₂, h₃, h₄, rfl⟩ := List.length_eq_four.1 hp.length
    rw [← getD_fromU32]
    exact (readLoop_unicode ..).trans (congrArg (Option.bind · _) hcode)

theorem exists_piece_of_readLoop {t : Str} {i : ℕ} {out run : Str} {r : Str × ℕ}
    (h : readLoop t i out run = some r) :
    (∃ rest, t = '"' :: rest) ∨ ∃ p rest, Read p ∧ t = p.text ++ rest := by
  rcases t with _ | ⟨c, rest⟩
  · rw [readLoop_nil] at h
    cases h
  by_cases hquote : c = '"'
  · exact .inl ⟨rest, by rw [hquote]⟩
  by_cases hslash : c ≠ '\\'
  · exact .inr ⟨.plain c, rest, ⟨hquote, hslash⟩, rfl⟩
  obtain rfl := not_not.1 hslash
  rcases rest with _ | ⟨e, rest⟩
  · rw [readLoop.eq_def] at h
    cases h
  cases he : unescape e with
  | some c =>
    exact .inr ⟨.escape e, rest, Option.isSome_iff_exists.2 ⟨c, unescape_eq ▸ he⟩, rfl⟩
  | none =>
    have hu : e = 'u' := by
      by_contra hu
      rw [readLoop.eq_def] at h
      simp only [he, if_neg hu, Char.reduceEq, ↓reduceIte] at h
      cases h
    subst hu
    rcases rest with _ | ⟨h₁, _ | ⟨h₂, _ | ⟨h₃, _ | ⟨h₄, rest⟩⟩⟩⟩
    · exact absurd h (by rw [readLoop.eq_def]; exact nofun)
    · exact absurd h (by rw [readLoop.eq_def]; exact nofun)
    · exact absurd h (by rw [readLoop.eq_def]; exact nofun)
    · exact absurd h (by rw [readLoop.eq_def]; exact nofun)
    · rw [readLoop_unicode, Option.bind_eq_some_iff] at h
      obtain ⟨code, hcode, -⟩ := h
      have hlen : [h₁, h₂, h₃, h₄].length = 4 := rfl
      have hquad := (takeBytes_bind_fromStrRadix16 hlen rest).1 hcode
      exact .inr ⟨.unicode [h₁, h₂, h₃, h₄], rest, hquad.1, rfl⟩

/-- **What the loop reads.**  The pieces up to the quote, each by itself. -/
theorem readLoop_eq_some {t : Str} {i : ℕ} {out run : Str} {v : Str} {stop : ℕ} :
    readLoop t i out run = some (v, stop) ↔
      ∃ ps rest, (∀ p ∈ ps, Read p) ∧ t = ps.flatMap Piece.text ++ '"' :: rest ∧
        v = out ++ run ++ readEach ps ∧ stop = i + byteLength (ps.flatMap Piece.text) + 1 := by
  constructor
  · intro h
    induction hn : t.length using Nat.strong_induction_on generalizing t i out run with
    | _ n ih =>
      subst hn
      -- the loop stops at the quote, or passes a piece
      rcases exists_piece_of_readLoop h with ⟨rest, rfl⟩ | ⟨p, rest, hp, rfl⟩
      · rw [readLoop_quote, Option.some_inj, Prod.mk.injEq] at h
        obtain ⟨rfl, rfl⟩ := h
        exact ⟨[], rest, nofun, rfl, (List.append_nil _).symm, rfl⟩
      · obtain ⟨out', run', hout, hloop⟩ := readLoop_piece hp rest i out run
        have hlt : rest.length < (p.text ++ rest).length := by
          have := List.length_pos_iff.2 p.text_ne_nil
          rw [List.length_append]
          omega
        obtain ⟨ps, rest, hps, rfl, rfl, rfl⟩ := ih _ hlt (hloop ▸ h) rfl
        refine ⟨p :: ps, rest, List.forall_mem_cons.2 ⟨hp, hps⟩, ?_, ?_, ?_⟩
        · rw [List.flatMap_cons, List.append_assoc]
        · rw [hout, readEach, readEach, List.map_cons, List.append_assoc _ [p.char]]
          rfl
        · rw [List.flatMap_cons, byteLength_append]
          omega
  · rintro ⟨ps, rest, hps, rfl, rfl, rfl⟩
    -- what was collected goes to the front of what the rest gives
    induction ps generalizing i out run with
    | nil =>
      rw [List.flatMap_nil, List.nil_append, readLoop_quote]
      simp [readEach]
    | cons p ps ih =>
      obtain ⟨hp, hps⟩ := List.forall_mem_cons.1 hps
      rw [List.flatMap_cons, List.append_assoc]
      obtain ⟨out', run', hout, hloop⟩ :=
        readLoop_piece hp (ps.flatMap Piece.text ++ '"' :: rest) i out run
      rw [hloop, ih hps, hout, byteLength_append, readEach, readEach, List.map_cons,
        List.append_assoc _ [p.char], Nat.add_assoc i]
      rfl

/-! ### Offsets -/

@[simp] theorem charAt_append (p t : Str) : charAt (p ++ t) (byteLength p) = t.head? := by
  rw [charAt, dropBytes_append, Option.bind_some]

@[simp] theorem textFrom_append (p t : Str) : textFrom (p ++ t) (byteLength p) = t := by
  rw [textFrom, dropBytes_append, Option.getD_some]

/-- **What `read_json_string` reads.** -/
theorem readJsonString_eq_some {p t v : Str} {stop : ℕ} :
    readJsonString (p ++ t) (byteLength p) = some (v, stop) ↔
      ∃ ps rest, (∀ q ∈ ps, Read q) ∧ t = quoted ps ++ rest ∧ v = readEach ps ∧
        stop = byteLength (p ++ quoted ps) := by
  rw [readJsonString, charAt_append]
  rcases t with _ | ⟨c, t⟩
  · refine ⟨nofun, ?_⟩
    rintro ⟨ps, rest, -, ht, -⟩
    cases ht
  · by_cases hc : c = '"'
    · subst hc
      have hbytes : byteLength (p ++ ['"']) = byteLength p + 1 := byteLength_append p ['"']
      have htext : textFrom (p ++ '"' :: t) (byteLength p + 1) = t := by
        rw [← hbytes, ← List.singleton_append, ← List.append_assoc, textFrom_append]
      have hlen : ∀ ps, byteLength (p ++ quoted ps) =
          byteLength p + 1 + byteLength (ps.flatMap Piece.text) + 1 := by
        intro ps
        rw [quoted, byteLength_append, byteLength_cons, byteLength_append, Nat.add_assoc,
          Nat.add_assoc]
        rfl
      have htail : ∀ ps rest, '"' :: t = quoted ps ++ rest ↔
          t = ps.flatMap Piece.text ++ '"' :: rest := by
        intro ps rest
        rw [quoted, List.cons_append, List.cons_inj_right, List.append_assoc,
          List.singleton_append]
      rw [List.head?_cons, if_neg (not_not.2 rfl), htext, readLoop_eq_some]
      simp only [hlen, htail, List.nil_append]
    · have hne : (c :: t).head? ≠ some '"' := fun h => hc (Option.some_inj.1 h)
      rw [if_pos hne]
      refine ⟨nofun, ?_⟩
      rintro ⟨ps, rest, -, ht, -⟩
      exact absurd (List.cons.inj ht).1 hc

end Wkp.Cli
