import Wkp.Lib.Hex
import Wkp.Lib.Lossy

/-!
# Form values

Model of `percent_decode` of `src/crates/wkp-hub/src/http.rs`, which decodes the value of a form field
that anyone may send.  It walks over the bytes and slices the text; a slice that ends within a
character panics (`none`).

* `percentDecode` : the decoder.
* `formDecode`, `formEncode` : what the encoding means, and how a text is encoded.
* `decodesRight_iff` : the texts that are decoded as they should be.
-/

namespace Wkp.Hub

open Rust

/-! ### The code -/

/-- The loop of `percent_decode`: the bytes from `i` on. -/
def percentDecodeLoop (s : Str) : List UInt8 → ℕ → Option (List UInt8)
  | [], _ => some []
  | b :: rest, i =>
    if b = 0x2B then (percentDecodeLoop s rest (i + 1)).map (0x20 :: ·)
    else if b = 0x25 ∧ i + 2 < (utf8 s).length then
      match sliceBytes (i + 1) (i + 3) s with
      | none => none
      | some hex =>
        match fromStrRadix16 8 hex with
        | none => (percentDecodeLoop s rest (i + 1)).map (b :: ·)
        | some byte =>
          match rest with
          | _ :: _ :: rest => (percentDecodeLoop s rest (i + 3)).map (UInt8.ofNat byte :: ·)
          -- there are two more bytes
          | _ => none
    else (percentDecodeLoop s rest (i + 1)).map (b :: ·)

/-- `percent_decode`; none when it panics. -/
def percentDecode (s : Str) : Option Str := (percentDecodeLoop s (utf8 s) 0).map toStringLossy

/-! ### The encoding -/

/-- The bytes of a form value: a plus is a space, a percent sign and two hexadecimal digits are a byte,
and everything else is as it is. -/
def formBytes : Str → List UInt8
  | [] => []
  | c :: t =>
    if c = '+' then 0x20 :: formBytes t
    else if c = '%' then
      match t with
      | a :: b :: u =>
        if isHexDigit a ∧ isHexDigit b then UInt8.ofNat (hexNumber [a, b]) :: formBytes u
        else 0x25 :: formBytes (a :: b :: u)
      | [a] => 0x25 :: formBytes [a]
      | [] => [0x25]
    else String.utf8EncodeChar c ++ formBytes t

/-- The text of a form value. -/
def formDecode (s : Str) : Str := toStringLossy (formBytes s)

/-- The bytes that a form value may have as they are. -/
def isFormPlain (b : UInt8) : Bool :=
  decide (0x30 ≤ b ∧ b ≤ 0x39 ∨ 0x41 ≤ b ∧ b ≤ 0x5A ∨ 0x61 ≤ b ∧ b ≤ 0x7A) ||
    b = 0x2A || b = 0x2D || b = 0x2E || b = 0x5F

/-- An upper-case hexadecimal digit. -/
def hexDigitUpper (k : ℕ) : Char := "0123456789ABCDEF".toList.getD k '0'

/-- A byte in a form value. -/
def formEncodeByte (b : UInt8) : Str :=
  if b = 0x20 then ['+']
  else if isFormPlain b then [Char.ofNat b.toNat]
  else ['%', hexDigitUpper (b.toNat / 16), hexDigitUpper (b.toNat % 16)]

/-- `application/x-www-form-urlencoded`. -/
def formEncode (s : Str) : Str := (utf8 s).flatMap formEncodeByte

example : formEncode "a b+é%".toList = "a+b%2B%C3%A9%25".toList := by decide +kernel

example : percentDecode "a+b%2B%C3%A9%25%".toList = some "a b+é%%".toList := by decide +kernel

/-! ### The decoder on texts -/

/-- The loop, character by character. -/
def decodeText : Str → Option (List UInt8)
  | [] => some []
  | c :: t =>
    if c = '+' then (decodeText t).map (0x20 :: ·)
    else if c = '%' ∧ 2 ≤ byteLength t then
      match takeBytes 2 t with
      | none => none
      | some hex =>
        match fromStrRadix16 8 hex with
        | none => (decodeText t).map (0x25 :: ·)
        | some byte =>
          match t with
          | _ :: _ :: u => (decodeText u).map (UInt8.ofNat byte :: ·)
          | _ => none
    else (decodeText t).map (String.utf8EncodeChar c ++ ·)

theorem twoBytes_cases {t hex : Str} {byte : ℕ} (htake : takeBytes 2 t = some hex)
    (hradix : fromStrRadix16 8 hex = some byte) :
    (∃ a b u, t = a :: b :: u ∧ isHexDigit a = true ∧ isHexDigit b = true ∧
      byte = hexNumber [a, b]) ∨
      ∃ d u, t = '+' :: d :: u ∧ isHexDigit d = true ∧ byte = hexNumber [d] := by
  obtain ⟨hlen, u, rfl⟩ := takeBytes_eq_some.1 htake
  obtain ⟨ds, hne, hds, rfl | rfl, rfl⟩ := digits_of_fromStrRadix16 hradix
  · rw [byteLength_of_ascii fun c hc => utf8Size_of_isHexDigit (hds c hc)] at hlen
    obtain ⟨a, b, rfl⟩ := List.length_eq_two.1 hlen
    exact .inl ⟨a, b, u, rfl, hds a (by simp), hds b (by simp), rfl⟩
  · have hplus : byteLength ('+' :: ds) = 1 + ds.length := by
      rw [byteLength_cons, byteLength_of_ascii fun c hc => utf8Size_of_isHexDigit (hds c hc)]
      rfl
    rw [hplus] at hlen
    obtain ⟨d, rfl⟩ := List.length_eq_one_iff.1 (show ds.length = 1 by omega)
    exact .inr ⟨d, u, rfl, hds d (by simp), rfl⟩

theorem takeBytes_two {a b : Char} (ha : a.utf8Size = 1) (hb : b.utf8Size = 1) (u : Str) :
    takeBytes 2 (a :: b :: u) = some [a, b] := by
  have hlen : byteLength [a, b] = 2 := by
    rw [byteLength_cons, byteLength_cons, ha, hb]
    rfl
  exact takeBytes_eq_some.2 ⟨hlen, u, rfl⟩

theorem takeBytes_digits {a b : Char} (ha : isHexDigit a = true) (hb : isHexDigit b = true)
    (u : Str) : takeBytes 2 (a :: b :: u) = some [a, b] ∧
      fromStrRadix16 8 [a, b] = some (hexNumber [a, b]) := by
  refine ⟨takeBytes_two (utf8Size_of_isHexDigit ha) (utf8Size_of_isHexDigit hb) u, ?_⟩
  exact (fromStrRadix16_of_digits (List.cons_ne_nil _ _)
    (List.forall_mem_cons.2 ⟨ha, List.forall_mem_singleton.2 hb⟩)
    (show 16 ^ 2 ≤ 2 ^ 8 by decide)).1

theorem takeBytes_sign {d : Char} (hd : isHexDigit d = true) (u : Str) :
    takeBytes 2 ('+' :: d :: u) = some ['+', d] ∧
      fromStrRadix16 8 ['+', d] = some (hexNumber [d]) := by
  refine ⟨takeBytes_two rfl (utf8Size_of_isHexDigit hd) u, ?_⟩
  exact (fromStrRadix16_of_digits (List.cons_ne_nil _ _) (List.forall_mem_singleton.2 hd)
    (show 16 ^ 1 ≤ 2 ^ 8 by decide)).2

theorem percentDecodeLoop_append (s : Str) {bytes : List UInt8}
    (h : ∀ b ∈ bytes, b ≠ 0x2B ∧ b ≠ 0x25) (rest : List UInt8) (i : ℕ) :
    percentDecodeLoop s (bytes ++ rest) i =
      (percentDecodeLoop s rest (i + bytes.length)).map (bytes ++ ·) := by
  induction bytes generalizing i with
  | nil => exact (Option.map_id' ..).symm
  | cons b bytes ih =>
    obtain ⟨⟨hplus, hpercent⟩, hbytes⟩ := List.forall_mem_cons.1 h
    rw [List.cons_append, percentDecodeLoop.eq_def]
    simp only [if_neg hplus, hpercent, false_and, ↓reduceIte]
    rw [ih hbytes, Option.map_map, List.length_cons, Nat.add_assoc, Nat.add_comm 1]
    rfl

theorem ne_of_mem_utf8EncodeChar {c : Char} (hplus : c ≠ '+') (hpercent : c ≠ '%') :
    ∀ b ∈ String.utf8EncodeChar c, b ≠ 0x2B ∧ b ≠ 0x25 := by
  intro b hb
  refine ⟨?_, ?_⟩
  · rintro rfl
    exact hplus (Char.toNat_inj.1 (toNat_of_mem_utf8EncodeChar hb (by decide)).symm)
  · rintro rfl
    exact hpercent (Char.toNat_inj.1 (toNat_of_mem_utf8EncodeChar hb (by decide)).symm)

/-- **The loop walks over the characters.** -/
theorem percentDecodeLoop_eq (p t : Str) :
    percentDecodeLoop (p ++ t) (utf8 t) (byteLength p) = decodeText t := by
  induction hn : t.length using Nat.strong_induction_on generalizing p t with
  | _ n ih =>
    subst hn
    rcases t with _ | ⟨c, t⟩
    · rfl
    -- the rest of the text, behind some characters
    have hrest : ∀ q u, c :: t = q ++ u → u.length < (c :: t).length →
        percentDecodeLoop (p ++ c :: t) (utf8 u) (byteLength p + byteLength q) = decodeText u := by
      intro q u hsplit hlt
      rw [hsplit, ← List.append_assoc, ← byteLength_append]
      exact ih _ hlt (p ++ q) u rfl
    have hone := hrest [c] t rfl (Nat.lt_succ_self _)
    by_cases hplus : c = '+'
    · subst hplus
      have hbytes : utf8 ('+' :: t) = 0x2B :: utf8 t := rfl
      rw [hbytes, percentDecodeLoop.eq_def, decodeText.eq_def]
      simp only [↓reduceIte]
      exact congrArg (Option.map (0x20 :: ·)) hone
    by_cases hpercent : c = '%'
    · subst hpercent
      have hbytes : utf8 ('%' :: t) = 0x25 :: utf8 t := rfl
      have hlen : byteLength p + 2 < (utf8 (p ++ '%' :: t)).length ↔ 2 ≤ byteLength t := by
        rw [length_utf8, ← byteLength, byteLength_append, byteLength_cons]
        show _ < byteLength p + (1 + byteLength t) ↔ _
        omega
      have hslice : sliceBytes (byteLength p + 1) (byteLength p + 3) (p ++ '%' :: t) =
          takeBytes 2 t := by
        have h := sliceBytes_append_left (p ++ ['%']) t 2
        rw [byteLength_append, List.append_assoc] at h
        exact h
      rw [hbytes, percentDecodeLoop.eq_def, decodeText.eq_def]
      have hplus : ¬ (0x25 : UInt8) = 0x2B := by decide
      simp only [Char.reduceEq, hplus, ↓reduceIte, true_and, hlen, hslice]
      split_ifs with hbig
      · cases htake : takeBytes 2 t with
        | none => rfl
        | some hex =>
          dsimp only
          cases hradix : fromStrRadix16 8 hex with
          | none => exact congrArg (Option.map (0x25 :: ·)) hone
          | some byte =>
            -- two characters of one byte each
            obtain ⟨a, b, u, rfl, ha, hb⟩ : ∃ a b u, t = a :: b :: u ∧ a.utf8Size = 1 ∧
                b.utf8Size = 1 := by
              rcases twoBytes_cases htake hradix with ⟨a, b, u, rfl, ha, hb, -⟩ | ⟨d, u, rfl, hd, -⟩
              · exact ⟨a, b, u, rfl, utf8Size_of_isHexDigit ha, utf8Size_of_isHexDigit hb⟩
              · exact ⟨'+', d, u, rfl, rfl, utf8Size_of_isHexDigit hd⟩
            have hthree := hrest ['%', a, b] u rfl (by simp only [List.length_cons]; omega)
            have hsize : byteLength ['%', a, b] = 3 := by
              rw [byteLength_cons, byteLength_cons, byteLength_cons, ha, hb]
              rfl
            rw [hsize] at hthree
            obtain ⟨x, hx⟩ := List.length_eq_one_iff.1 ((length_utf8EncodeChar a).trans ha)
            obtain ⟨y, hy⟩ := List.length_eq_one_iff.1 ((length_utf8EncodeChar b).trans hb)
            have hutf8 : utf8 (a :: b :: u) = x :: y :: utf8 u := by
              rw [utf8, List.flatMap_cons, List.flatMap_cons, hx, hy]
              rfl
            rw [hutf8]
            exact congrArg (Option.map (UInt8.ofNat byte :: ·)) hthree
      · exact congrArg (Option.map (0x25 :: ·)) hone
    · have hbytes : utf8 (c :: t) = String.utf8EncodeChar c ++ utf8 t := rfl
      have hlen : byteLength [c] = c.utf8Size := by rw [byteLength_cons, byteLength_nil, Nat.add_zero]
      rw [hbytes, percentDecodeLoop_append _ (ne_of_mem_utf8EncodeChar hplus hpercent),
        length_utf8EncodeChar, ← hlen, hone, decodeText.eq_def (c :: t)]
      simp only [if_neg hplus, hpercent, false_and, ↓reduceIte]

theorem percentDecode_eq (s : Str) : percentDecode s = (decodeText s).map toStringLossy := by
  rw [percentDecode, ← percentDecodeLoop_eq [] s]
  rfl

/-! ### What stands behind a percent sign -/

/-- Two digits. -/
def IsByte (t : Str) : Prop :=
  ∃ a b u, t = a :: b :: u ∧ isHexDigit a = true ∧ isHexDigit b = true

/-- A plus and a digit, which the parser takes for a number with its sign. -/
def IsSigned (t : Str) : Prop := ∃ d u, t = '+' :: d :: u ∧ isHexDigit d = true

/-- The second of the two bytes is within a character. -/
def IsCut (t : Str) : Prop := 2 ≤ byteLength t ∧ takeBytes 2 t = none

section Steps

variable (t u : Str)

@[simp] theorem formBytes_plus : formBytes ('+' :: t) = 0x20 :: formBytes t := by
  rw [formBytes.eq_def]
  rfl

theorem formBytes_byte {a b : Char} (ha : isHexDigit a = true) (hb : isHexDigit b = true) :
    formBytes ('%' :: a :: b :: u) = UInt8.ofNat (hexNumber [a, b]) :: formBytes u := by
  rw [formBytes.eq_def]
  simp [ha, hb]

variable {t}

theorem formBytes_percent (h : ¬ IsByte t) : formBytes ('%' :: t) = 0x25 :: formBytes t := by
  rw [formBytes.eq_def]
  rcases t with _ | ⟨a, _ | ⟨b, u⟩⟩
  · rfl
  · rfl
  · have hdigits : ¬ (isHexDigit a = true ∧ isHexDigit b = true) := fun hab => h ⟨a, b, u, rfl, hab⟩
    simp [hdigits]

variable (t)

theorem formBytes_other {c : Char} (hplus : c ≠ '+') (hpercent : c ≠ '%') :
    formBytes (c :: t) = String.utf8EncodeChar c ++ formBytes t := by
  rw [formBytes.eq_def]
  simp only [if_neg hplus, if_neg hpercent]

@[simp] theorem decodeText_plus :
    decodeText ('+' :: t) = (decodeText t).map (0x20 :: ·) := by
  rw [decodeText.eq_def]
  rfl

theorem decodeText_other {c : Char} (hplus : c ≠ '+') (hpercent : c ≠ '%') :
    decodeText (c :: t) = (decodeText t).map (String.utf8EncodeChar c ++ ·) := by
  rw [decodeText.eq_def]
  simp only [if_neg hplus, hpercent, false_and, ↓reduceIte]

theorem decodeText_byte {a b : Char} (ha : isHexDigit a = true) (hb : isHexDigit b = true) :
    decodeText ('%' :: a :: b :: u) =
      (decodeText u).map (UInt8.ofNat (hexNumber [a, b]) :: ·) := by
  obtain ⟨htake, hradix⟩ := takeBytes_digits ha hb u
  have hlen : 2 ≤ byteLength (a :: b :: u) := by
    rw [byteLength_cons, byteLength_cons, utf8Size_of_isHexDigit ha, utf8Size_of_isHexDigit hb]
    omega
  rw [decodeText.eq_def]
  simp only [Char.reduceEq, ↓reduceIte, hlen, htake, hradix, and_self]

theorem decodeText_signed {d : Char} (hd : isHexDigit d = true) :
    decodeText ('%' :: '+' :: d :: u) = (decodeText u).map (UInt8.ofNat (hexNumber [d]) :: ·) := by
  obtain ⟨htake, hradix⟩ := takeBytes_sign hd u
  have hlen : 2 ≤ byteLength ('+' :: d :: u) := by
    rw [byteLength_cons, byteLength_cons, utf8Size_of_isHexDigit hd]
    show 2 ≤ 1 + (1 + _)
    omega
  rw [decodeText.eq_def]
  simp only [Char.reduceEq, ↓reduceIte, hlen, htake, hradix, and_self]

variable {t}

theorem decodeText_cut (h : IsCut t) : decodeText ('%' :: t) = none := by
  rw [decodeText.eq_def]
  simp only [Char.reduceEq, ↓reduceIte, h.1, h.2, and_self]

theorem decodeText_percent (hbyte : ¬ IsByte t) (hsigned : ¬ IsSigned t) (hcut : ¬ IsCut t) :
    decodeText ('%' :: t) = (decodeText t).map (0x25 :: ·) := by
  rw [decodeText.eq_def]
  simp only [Char.reduceEq, ↓reduceIte, true_and]
  split_ifs with hlen
  · cases htake : takeBytes 2 t with
    | none => exact absurd ⟨hlen, htake⟩ hcut
    | some hex =>
      cases hradix : fromStrRadix16 8 hex with
      | none => simp only [hradix]
      | some byte =>
        rcases twoBytes_cases htake hradix with ⟨a, b, u, rfl, ha, hb, -⟩ | ⟨d, u, rfl, hd, -⟩
        · exact absurd ⟨a, b, u, rfl, ha, hb⟩ hbyte
        · exact absurd ⟨d, u, rfl, hd⟩ hsigned
  · rfl

end Steps

/-! ### Which texts are decoded right -/

/-- Behind no percent sign stand a plus and a digit, or two bytes of which the second is within a
character. -/
def CleanEscapes (s : Str) : Prop := ∀ p t, s = p ++ '%' :: t → ¬ IsSigned t ∧ ¬ IsCut t

theorem cleanEscapes_cons {c : Char} {t : Str} :
    CleanEscapes (c :: t) ↔ (c = '%' → ¬ IsSigned t ∧ ¬ IsCut t) ∧ CleanEscapes t := by
  constructor
  · intro h
    refine ⟨?_, fun p u hu => h (c :: p) u (by rw [hu]; rfl)⟩
    rintro rfl
    exact h [] t rfl
  · rintro ⟨hhead, htail⟩ p u hu
    rcases p with _ | ⟨d, p⟩
    · obtain ⟨rfl, rfl⟩ := List.cons.inj hu
      exact hhead rfl
    · exact htail p u (List.cons.inj hu).2

theorem cleanEscapes_nil : CleanEscapes [] := fun p t h => by
  cases p <;> cases h

theorem ne_percent_of_isHexDigit {c : Char} (h : isHexDigit c = true) : c ≠ '%' ∧ c ≠ '+' := by
  refine ⟨?_, ?_⟩ <;>
  · rintro rfl
    exact absurd h (by decide)

theorem cleanEscapes_byte {a b : Char} (ha : isHexDigit a = true) (hb : isHexDigit b = true)
    (u : Str) : CleanEscapes ('%' :: a :: b :: u) ↔ CleanEscapes u := by
  have hhead : ¬ IsSigned (a :: b :: u) ∧ ¬ IsCut (a :: b :: u) := by
    refine ⟨?_, fun h => ?_⟩
    · rintro ⟨d, v, heq, -⟩
      exact (ne_percent_of_isHexDigit ha).2 (List.cons.inj heq).1
    · rw [IsCut, (takeBytes_digits ha hb u).1] at h
      cases h.2
  rw [cleanEscapes_cons, cleanEscapes_cons, cleanEscapes_cons, and_iff_right fun _ => hhead,
    and_iff_right fun h => absurd h (ne_percent_of_isHexDigit ha).1,
    and_iff_right fun h => absurd h (ne_percent_of_isHexDigit hb).1]

theorem decodeText_of_clean {s : Str} (h : CleanEscapes s) : decodeText s = some (formBytes s) := by
  induction hn : s.length using Nat.strong_induction_on generalizing s with
  | _ n ih =>
    subst hn
    rcases s with _ | ⟨c, t⟩
    · rfl
    have htail := (cleanEscapes_cons.1 h).2
    have ht := ih _ (Nat.lt_succ_self _) htail rfl
    by_cases hplus : c = '+'
    · rw [hplus, decodeText_plus, formBytes_plus, ht, Option.map_some]
    by_cases hpercent : c = '%'
    · subst hpercent
      by_cases hbyte : IsByte t
      · obtain ⟨a, b, u, rfl, ha, hb⟩ := hbyte
        have hu := ih u.length (by simp only [List.length_cons]; omega)
          ((cleanEscapes_byte ha hb u).1 h) rfl
        rw [decodeText_byte u ha hb, formBytes_byte u ha hb, hu, Option.map_some]
      · obtain ⟨hsigned, hcut⟩ := (cleanEscapes_cons.1 h).1 rfl
        rw [decodeText_percent hbyte hsigned hcut, formBytes_percent hbyte, ht, Option.map_some]
    · rw [decodeText_other t hplus hpercent, formBytes_other t hplus hpercent, ht, Option.map_some]

/-- Every plus that is taken for a sign loses a percent sign. -/
theorem count_le_of_decodeText {s : Str} {out : List UInt8} (h : decodeText s = some out) :
    out.count 0x25 ≤ (formBytes s).count 0x25 ∧
      (out.count 0x25 = (formBytes s).count 0x25 → CleanEscapes s) := by
  -- by the length of the text: an escape takes three characters at once
  induction hn : s.length using Nat.strong_induction_on generalizing s out with
  | _ n ih =>
    subst hn
    rcases s with _ | ⟨c, t⟩
    · obtain rfl := Option.some.inj h
      exact ⟨le_rfl, fun _ => cleanEscapes_nil⟩
    by_cases hplus : c = '+'
    · subst hplus
      rw [decodeText_plus, Option.map_eq_some_iff] at h
      obtain ⟨out, hout, rfl⟩ := h
      obtain ⟨hle, hclean⟩ := ih _ (Nat.lt_succ_self _) hout rfl
      rw [formBytes_plus, List.count_cons, List.count_cons, cleanEscapes_cons,
        and_iff_right fun hc => absurd hc (by decide)]
      exact ⟨by omega, fun heq => hclean (by omega)⟩
    by_cases hpercent : c ≠ '%'
    · rw [decodeText_other t hplus hpercent, Option.map_eq_some_iff] at h
      obtain ⟨out, hout, rfl⟩ := h
      obtain ⟨hle, hclean⟩ := ih _ (Nat.lt_succ_self _) hout rfl
      rw [formBytes_other t hplus hpercent, List.count_append, List.count_append, cleanEscapes_cons,
        and_iff_right fun hc => absurd hc hpercent]
      exact ⟨by omega, fun heq => hclean (by omega)⟩
    obtain rfl := not_not.1 hpercent
    by_cases hbyte : IsByte t
    · obtain ⟨a, b, u, rfl, ha, hb⟩ := hbyte
      rw [decodeText_byte u ha hb, Option.map_eq_some_iff] at h
      obtain ⟨out, hout, rfl⟩ := h
      obtain ⟨hle, hclean⟩ :=
        ih u.length (by simp only [List.length_cons]; omega) hout rfl
      rw [formBytes_byte u ha hb, List.count_cons, List.count_cons, cleanEscapes_byte ha hb]
      exact ⟨by omega, fun heq => hclean (by omega)⟩
    by_cases hsigned : IsSigned t
    · obtain ⟨d, u, rfl, hd⟩ := hsigned
      rw [decodeText_signed u hd, Option.map_eq_some_iff] at h
      obtain ⟨out, hout, rfl⟩ := h
      obtain ⟨hle, -⟩ := ih u.length (by simp only [List.length_cons]; omega) hout rfl
      obtain ⟨hpercent, hplus⟩ := ne_percent_of_isHexDigit hd
      -- one digit is less than 16, so the byte is no percent sign
      have hsmall : UInt8.ofNat (hexNumber [d]) ≠ 0x25 := by
        intro heq
        have hlt : hexNumber [d] < 16 := by simpa using hexNumber_lt [d]
        have hval : (UInt8.ofNat (hexNumber [d])).toNat = 37 := congrArg UInt8.toNat heq
        rw [UInt8.toNat_ofNat', Nat.mod_eq_of_lt (hlt.trans (by decide))] at hval
        omega
      rw [formBytes_percent hbyte, formBytes_plus, formBytes_other u hplus hpercent,
        List.count_cons_of_ne hsmall, List.count_cons_self, List.count_cons_of_ne (by decide),
        List.count_append]
      exact ⟨by omega, fun heq => by omega⟩
    by_cases hcut : IsCut t
    · rw [decodeText_cut hcut] at h
      cases h
    · rw [decodeText_percent hbyte hsigned hcut, Option.map_eq_some_iff] at h
      obtain ⟨out, hout, rfl⟩ := h
      obtain ⟨hle, hclean⟩ := ih _ (Nat.lt_succ_self _) hout rfl
      rw [formBytes_percent hbyte, List.count_cons, List.count_cons, cleanEscapes_cons,
        and_iff_right fun _ => ⟨hsigned, hcut⟩]
      exact ⟨by omega, fun heq => hclean (by omega)⟩

/-- The decoder returns the text of the form value: it does not panic, and what is no escape stays as
it is. -/
def DecodesRight (s : Str) : Prop := percentDecode s = some (formDecode s)

theorem decodesRight_iff_cleanEscapes (s : Str) : DecodesRight s ↔ CleanEscapes s := by
  rw [DecodesRight, percentDecode_eq]
  constructor
  · intro h
    obtain ⟨out, hout, htext⟩ := Option.map_eq_some_iff.1 h
    refine (count_le_of_decodeText hout).2 ?_
    have hpercent : ∀ bytes : List UInt8, (toStringLossy bytes).count '%' = bytes.count 0x25 :=
      count_toStringLossy (by decide) (by decide) rfl
    rw [← hpercent, ← hpercent, htext, formDecode]
  · intro h
    rw [decodeText_of_clean h]
    rfl

/-! ### Encoded texts -/

theorem isHexDigit_hexDigitUpper {k : ℕ} (h : k < 16) : isHexDigit (hexDigitUpper k) = true ∧
    (toDigit16 (hexDigitUpper k)).getD 0 = k := by
  have hall : ∀ k < 16, isHexDigit (hexDigitUpper k) = true ∧
      (toDigit16 (hexDigitUpper k)).getD 0 = k := by decide
  exact hall k h

theorem isFormPlain_bounds {b : UInt8} (h : isFormPlain b = true) :
    b.toNat < 128 ∧ b.toNat ≠ 0x2B ∧ b.toNat ≠ 0x25 := by
  simp only [isFormPlain, Bool.or_eq_true, decide_eq_true_eq, UInt8.le_iff_toNat_le,
    ← UInt8.toNat_inj] at h
  simp at h
  omega

theorem decodeText_formEncodeByte (b : UInt8) (r : Str) :
    decodeText (formEncodeByte b ++ r) = (decodeText r).map (b :: ·) := by
  have hb : b.toNat < 256 := b.toNat_lt
  rw [formEncodeByte]
  split_ifs with hspace hplain
  · rw [hspace]
    exact decodeText_plus r
  · obtain ⟨hascii, hplus, hpercent⟩ := isFormPlain_bounds hplain
    have hchar : (Char.ofNat b.toNat).toNat = b.toNat := by
      rw [toNat_charOfNat, if_pos (.inl (by omega))]
    refine (decodeText_other r ?_ ?_).trans ?_
    · intro h
      rw [h] at hchar
      exact hplus hchar.symm
    · intro h
      rw [h] at hchar
      exact hpercent hchar.symm
    · rw [utf8EncodeChar_ofNat hascii]
      rfl
  · obtain ⟨ha, hahi⟩ := isHexDigit_hexDigitUpper (k := b.toNat / 16) (by omega)
    obtain ⟨hd, hdlo⟩ := isHexDigit_hexDigitUpper (k := b.toNat % 16) (by omega)
    have hnumber : hexNumber [hexDigitUpper (b.toNat / 16), hexDigitUpper (b.toNat % 16)] =
        b.toNat := by
      simp only [hexNumber, List.foldl_cons, List.foldl_nil, hahi, hdlo]
      omega
    refine (decodeText_byte r ha hd).trans ?_
    rw [hnumber, UInt8.ofNat_toNat]

theorem percentDecode_formEncode (t : Str) : percentDecode (formEncode t) = some t := by
  have hbytes : ∀ bytes : List UInt8, decodeText (bytes.flatMap formEncodeByte) = some bytes := by
    intro bytes
    induction bytes with
    | nil => rfl
    | cons b bytes ih => rw [List.flatMap_cons, decodeText_formEncodeByte, ih, Option.map_some]
  rw [percentDecode_eq, formEncode, hbytes, Option.map_some, toStringLossy_utf8]

/-- **Which form values are decoded right.**  And the encoding of any text is one of them. -/
theorem decodesRight_iff (s text : Str) :
    (DecodesRight s ↔ CleanEscapes s) ∧ percentDecode (formEncode text) = some text :=
  ⟨decodesRight_iff_cleanEscapes s, percentDecode_formEncode text⟩

/-- A slice ends within a character, and a sign is taken for a digit. -/
theorem exampleEscapes_not_decoded :
    percentDecode "%aé".toList = none ∧ percentDecode "%+5".toList = some "\x05".toList ∧
      formDecode "%+5".toList = "% 5".toList ∧ ¬ DecodesRight "%aé".toList ∧
      ¬ DecodesRight "%+5".toList := by
  have hcut : percentDecode "%aé".toList = none := by decide +kernel
  have hsigned : percentDecode "%+5".toList = some "\x05".toList := by decide +kernel
  have hform : formDecode "%+5".toList = "% 5".toList := by decide +kernel
  refine ⟨hcut, hsigned, hform, ?_, ?_⟩
  · rw [DecodesRight, hcut]
    exact nofun
  · rw [DecodesRight, hsigned, hform]
    decide

end Wkp.Hub
