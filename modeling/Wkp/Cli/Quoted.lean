import Wkp.Cli.PromptHook

/-!
# JSON strings, written and read

`json_string` of `src/crates/wkp-cli/src/search.rs` writes a string character by character;
`read_json_string` of the prompt hook reads one in runs between escapes.

* `jsonString` : the writer.
* `readJsonString_jsonString` : the reader gives back what was written, wherever the text goes on.
-/

namespace Wkp.Cli

open Rust Json

/-! ### The writer -/

/-- `{:04x}` of a number below 65536. -/
def hex4 (n : ℕ) : Str :=
  [hexDigit (n / 4096 % 16), hexDigit (n / 256 % 16), hexDigit (n / 16 % 16), hexDigit (n % 16)]

/-- What `json_string` writes for a character. -/
def jsonEscape (c : Char) : Str :=
  if c = '"' then "\\\"".toList
  else if c = '\\' then "\\\\".toList
  else if c = '\n' then "\\n".toList
  else if c = '\r' then "\\r".toList
  else if c = '\t' then "\\t".toList
  else if c.toNat < 0x20 then "\\u".toList ++ hex4 c.toNat
  else [c]

/-- `json_string`. -/
def jsonString (s : Str) : Str := '"' :: (s.flatMap jsonEscape ++ ['"'])

/-! ### What it writes, as pieces -/

/-- The piece of a string that `json_string` writes for a character. -/
def jsonPiece (c : Char) : Piece :=
  if c = '"' then .escape '"'
  else if c = '\\' then .escape '\\'
  else if c = '\n' then .escape 'n'
  else if c = '\r' then .escape 'r'
  else if c = '\t' then .escape 't'
  else if c.toNat < 0x20 then .unicode (hex4 c.toNat)
  else .plain c

theorem text_jsonPiece (c : Char) : (jsonPiece c).text = jsonEscape c := by
  rw [jsonPiece, jsonEscape]
  split_ifs <;> rfl

theorem toDigit16_hexDigit {k : ℕ} (h : k < 16) : toDigit16 (hexDigit k) = some k := by
  have hall : ∀ k < 16, toDigit16 (hexDigit k) = some k := by decide
  exact hall k h

theorem isQuad_hex4 (n : ℕ) : IsQuad (hex4 n) := by
  have hdigit : ∀ k, isHexDigit (hexDigit (k % 16)) = true := fun k => by
    rw [isHexDigit, toDigit16_hexDigit (Nat.mod_lt k (by decide))]
    rfl
  refine ⟨rfl, fun c hc => ?_⟩
  simp only [hex4, List.mem_cons, List.not_mem_nil, or_false] at hc
  rcases hc with rfl | rfl | rfl | rfl <;> exact hdigit _

theorem hexNumber_hex4 {n : ℕ} (h : n < 65536) : hexNumber (hex4 n) = n := by
  have hdigit : ∀ k, (toDigit16 (hexDigit (k % 16))).getD 0 = k % 16 := fun k => by
    rw [toDigit16_hexDigit (Nat.mod_lt k (by decide)), Option.getD_some]
  simp only [hexNumber, hex4, List.foldl_cons, List.foldl_nil, hdigit]
  omega

theorem jsonPiece_ok (c : Char) :
    (jsonPiece c).Ok IsQuad ∧ (jsonPiece c).Allowed ∧ (jsonPiece c).char = c := by
  rw [jsonPiece]
  split_ifs with hquote hslash hn hr ht hcontrol
  · exact ⟨rfl, trivial, hquote.symm⟩
  · exact ⟨rfl, trivial, hslash.symm⟩
  · exact ⟨rfl, trivial, hn.symm⟩
  · exact ⟨rfl, trivial, hr.symm⟩
  · exact ⟨rfl, trivial, ht.symm⟩
  · refine ⟨isQuad_hex4 _, trivial, ?_⟩
    have hvalid : c.toNat.isValidChar := c.valid
    rw [Piece.char, hexNumber_hex4 (by omega), scalar, if_pos hvalid, Char.ofNat_toNat]
  · exact ⟨⟨hquote, hslash⟩, not_lt.1 hcontrol, rfl⟩

theorem jsonString_eq_quoted (s : Str) : jsonString s = quoted (s.map jsonPiece) := by
  rw [jsonString, quoted, List.flatMap_map]
  simp only [text_jsonPiece]

theorem readEach_map_jsonPiece (s : Str) : readEach (s.map jsonPiece) = s := by
  rw [readEach, List.map_map]
  exact (List.map_congr_left fun c _ => (jsonPiece_ok c).2.2).trans (List.map_id s)

/-- **The two halves agree.**  The reader gives back the string and stops behind it, whatever
follows; and what is written is a JSON string, in which no quote and no control character is
unescaped. -/
theorem readJsonString_jsonString (s t : Str) :
    readJsonString (jsonString s ++ t) 0 = some (s, byteLength (jsonString s)) ∧
      ∃ body : List Piece, jsonString s = '"' :: (body.flatMap Piece.text ++ ['"']) ∧
        ∀ p ∈ body, p.Ok IsQuad ∧ p.Allowed := by
  have hok : ∀ p ∈ s.map jsonPiece, p.Ok IsQuad ∧ p.Allowed := by
    intro p hp
    obtain ⟨c, -, rfl⟩ := List.mem_map.1 hp
    exact ⟨(jsonPiece_ok c).1, (jsonPiece_ok c).2.1⟩
  refine ⟨?_, s.map jsonPiece, jsonString_eq_quoted s, hok⟩
  refine (readJsonString_eq_some (p := [])).2 ⟨s.map jsonPiece, t, ?_, ?_, ?_, ?_⟩
  · exact fun p hp => (hok p hp).1.mono fun _ => .inl
  · exact congrArg (· ++ t) (jsonString_eq_quoted s)
  · exact (readEach_map_jsonPiece s).symm
  · rw [List.nil_append, jsonString_eq_quoted]

end Wkp.Cli
