import Wkp.Core.Gate
import Wkp.Lib.Bytes

/-!
# Texts that can be indexed

The parser takes any text.  What it slices at byte offsets, it slices at the ends of characters; the
tier of an item is computed from a slice that may end within one.

* `Frontmatter.checkedParse` : `parse`, none when a slice does not end with a character.
* `Frontmatter.checkedParse_eq` : it always returns.
* `Tier.indexes_iff` : when the whole of an item's reading returns.
-/

namespace Wkp

open Rust

namespace Frontmatter

/-! ### The slices of the parser -/

/-- `strip_opening_delimiter`, with `&input[first.len()..]`. -/
def checkedStripOpeningDelimiter (input : Str) : Option (Option Str) :=
  match splitInclusive input with
  | [] => some none
  | first :: _ =>
    if isDelimiterLine first then (dropBytes (byteLength first) input).map some else some none

/-- The loop of `split_at_closing_delimiter`, with `&after_open[..offset]` and
`&after_open[offset + line.len()..]`. -/
def checkedSplitLoop (afterOpen : Str) : ℕ → List Str → Option (Option (Str × Str))
  | _, [] => some none
  | offset, line :: rest =>
    if isDelimiterLine line then
      (takeBytes offset afterOpen).bind fun block =>
        (dropBytes (offset + byteLength line) afterOpen).map fun body => some (block, body)
    else checkedSplitLoop afterOpen (offset + byteLength line) rest

/-- `split_at_closing_delimiter`. -/
def checkedSplitAtClosingDelimiter (afterOpen : Str) : Option (Option (Str × Str)) :=
  checkedSplitLoop afterOpen 0 (splitInclusive afterOpen)

/-- `v` begins and ends with the quote, and is not the quote alone. -/
def checkedQuotedBy (q : Char) (v : Str) : Bool :=
  decide (2 ≤ byteLength v) && v.head? == some q && v.getLast? == some q

/-- `unquote`, with `&v[1..v.len() - 1]`. -/
def checkedUnquote (value : Str) : Option Str :=
  let v := trim value
  if checkedQuotedBy '"' v then sliceBytes 1 (byteLength v - 1) v
  else if checkedQuotedBy '\'' v then sliceBytes 1 (byteLength v - 1) v
  else some v

/-- `parse`, with the slices at its delimiters. -/
def checkedParse (input : Str) : Option ParseResult :=
  (checkedStripOpeningDelimiter input).bind fun
    | none => some ⟨default, input, []⟩
    | some afterOpen => (checkedSplitAtClosingDelimiter afterOpen).map fun
      | none => ⟨default, input, [.unterminated]⟩
      | some (block, body) => ⟨(parseBlock block).1, body, (parseBlock block).2⟩

theorem checkedStripOpeningDelimiter_eq (input : Str) :
    checkedStripOpeningDelimiter input = some (stripOpeningDelimiter input) := by
  unfold checkedStripOpeningDelimiter stripOpeningDelimiter
  cases hsplit : splitInclusive input with
  | nil => rfl
  | cons first rest =>
    dsimp only
    split_ifs
    · have hinput : input = first ++ rest.flatten := by
        rw [← flatten_splitInclusive input, hsplit, List.flatten_cons]
      rw [hinput, dropBytes_append]
      rfl
    · rfl

/-- The offset of the loop is that of the lines it has passed. -/
theorem checkedSplitLoop_eq (block : Str) (ls : List Str) :
    checkedSplitLoop (block ++ ls.flatten) (byteLength block) ls =
      some (splitAtClosingDelimiterLoop block ls) := by
  induction ls generalizing block with
  | nil => rfl
  | cons line rest ih =>
    rw [checkedSplitLoop, splitAtClosingDelimiterLoop, List.flatten_cons, takeBytes_append]
    split_ifs
    · rw [← byteLength_append, ← List.append_assoc, dropBytes_append]
      rfl
    · rw [← byteLength_append, ← List.append_assoc, ih]

theorem checkedSplitAtClosingDelimiter_eq (afterOpen : Str) :
    checkedSplitAtClosingDelimiter afterOpen = some (splitAtClosingDelimiter afterOpen) := by
  have h := checkedSplitLoop_eq [] (splitInclusive afterOpen)
  rwa [List.nil_append, flatten_splitInclusive] at h

theorem exists_of_checkedQuotedBy {q : Char} (hq : q.utf8Size = 1) {v : Str}
    (h : checkedQuotedBy q v = true) : ∃ m, v = q :: (m ++ [q]) := by
  simp only [checkedQuotedBy, Bool.and_eq_true, decide_eq_true_eq, beq_iff_eq] at h
  obtain ⟨⟨hlen, hhead⟩, hlast⟩ := h
  obtain ⟨t, rfl⟩ := List.head?_eq_some_iff.1 hhead
  rcases List.eq_nil_or_concat t with rfl | ⟨m, c, rfl⟩
  · simp [hq] at hlen
  · rw [List.concat_eq_append, ← List.cons_append, List.getLast?_concat, Option.some_inj] at hlast
    exact ⟨m, by rw [hlast, List.concat_eq_append]⟩

theorem checkedQuotedBy_eq {q : Char} (hq : q.utf8Size = 1) (v : Str) :
    checkedQuotedBy q v = quotedBy q v := by
  unfold checkedQuotedBy quotedBy
  cases v with
  | nil => rfl
  | cons c v =>
    rw [List.head?_cons]
    by_cases hc : c = q
    · subst hc
      cases v with
      | nil => simp [hq]
      | cons d v =>
        have hd := d.utf8Size_pos
        have hbytes : 2 ≤ byteLength (c :: d :: v) := by
          rw [byteLength_cons, byteLength_cons]
          omega
        rw [decide_eq_true hbytes, decide_eq_true (by simp)]
    · have hhead : (some c == some q) = false := by simpa using hc
      rw [hhead, Bool.and_false, Bool.and_false]

/-- **No call of `unquote` slices within a character.** -/
theorem checkedUnquote_eq (value : Str) : checkedUnquote value = some (unquote value) := by
  unfold checkedUnquote unquote
  dsimp only
  generalize trim value = v
  have hslice : ∀ {q : Char}, q.utf8Size = 1 → checkedQuotedBy q v = true →
      sliceBytes 1 (byteLength v - 1) v = some v.tail.dropLast := by
    intro q hq h
    obtain ⟨m, rfl⟩ := exists_of_checkedQuotedBy hq h
    have hmid := sliceBytes_append [q] m [q]
    have hend : byteLength (q :: (m ++ [q])) - 1 = byteLength [q] + byteLength m := by
      simp only [byteLength_cons, byteLength_append, byteLength_nil, hq]
      omega
    rw [hend]
    simpa [hq] using hmid
  rw [← checkedQuotedBy_eq (by decide), ← checkedQuotedBy_eq (by decide)]
  split_ifs with hdouble hsingle
  · exact hslice (by decide) hdouble
  · exact hslice (by decide) hsingle
  · rfl

/-- **`parse` returns for every text.** -/
theorem checkedParse_eq (input : Str) : checkedParse input = some (parse input) := by
  rw [checkedParse, checkedStripOpeningDelimiter_eq, Option.bind_some, parse]
  cases stripOpeningDelimiter input with
  | none => rfl
  | some afterOpen =>
    dsimp only
    refine (congrArg (Option.map _) (checkedSplitAtClosingDelimiter_eq afterOpen)).trans ?_
    cases splitAtClosingDelimiter afterOpen <;> rfl

end Frontmatter

namespace Tier

open Frontmatter (checkedParse checkedUnquote)

/-! ### Reading an item -/

/-- The tier and the tokens of a file; none when a slice is not one. -/
def indexItem (today : ℕ) (path text : Str) (humanSigned : Bool) : Option (ℕ × ℕ) := do
  let result ← checkedParse text
  let tier ← computeTier today path result.frontmatter humanSigned
  return (tier, estimateTokens result.frontmatter result.body)

/-- The file can be indexed: every slice is one, no subtraction underflows, and every number that is
converted is in range. -/
structure Indexes (today : ℕ) (path text : Str) (humanSigned : Bool) : Prop where
  /-- Values are unquoted. -/
  unquotes : ∀ value, (checkedUnquote value).isSome = true
  /-- There is a date. -/
  dated : (checkedCivilFromDays today).isSome = true
  /-- There are a tier and a number of tokens. -/
  returns : (indexItem today path text humanSigned).isSome = true
  /-- The characters that are counted are fewer than 32 bits hold. -/
  counted : ∀ result ∈ checkedParse text, result.frontmatter.tokens = none →
    result.body.length < 2 ^ 32

/-- A tier is computed, unless the expiry date is read and cannot be sliced. -/
theorem isSome_computeTier_iff {today : ℕ} {path : Str} {fm : Frontmatter} {humanSigned : Bool} :
    (computeTier today path fm humanSigned).isSome = true ↔
      inInbox path = true ∨ humanSigned = false ∨ Sliceable fm.expires := by
  rw [computeTier]
  split_ifs with hin hsigned
  · simp [hin]
  · have hsigned : humanSigned = false := by simpa using hsigned
    simp [hsigned]
  · have hsigned : humanSigned = true := by simpa using hsigned
    rw [Option.isSome_map]
    cases fm.expires with
    | none =>
      have hslice : Sliceable none := by rintro e ⟨⟩
      simp [hslice]
    | some e =>
      have hread : (isExpired today e).isSome = true ↔ Sliceable (some e) := by
        rw [Option.isSome_iff_exists]
        constructor
        · rintro ⟨expired, h⟩
          exact ((isExpired_iff today e expired).1 h).1
        · intro h
          by_cases hsorts : SortsBefore today (some e)
          · exact ⟨true, (isExpired_iff today e true).2 ⟨h, by simp [hsorts]⟩⟩
          · exact ⟨false, (isExpired_iff today e false).2 ⟨h, by simp [hsorts]⟩⟩
      simp [hin, hsigned, hread]

/-- **A file can be indexed exactly when** its expiry date is not read, or has no character across its
tenth byte, and its tokens are given, or are counted over fewer characters than 32 bits hold. -/
theorem indexes_iff (today : ℕ) (path text : Str) (humanSigned : Bool) :
    Indexes today path text humanSigned ↔
      (inInbox path = true ∨ humanSigned = false ∨
        Sliceable (Frontmatter.parse text).frontmatter.expires) ∧
      ((Frontmatter.parse text).frontmatter.tokens.isSome = true ∨
        (Frontmatter.parse text).body.length < 2 ^ 32) := by
  -- slices of the parser never panic, so only the date and the count can
  have hparse := Frontmatter.checkedParse_eq text
  have hitem : (indexItem today path text humanSigned).isSome =
      (computeTier today path (Frontmatter.parse text).frontmatter humanSigned).isSome := by
    rw [indexItem, hparse, Option.bind_eq_bind, Option.bind_some, Option.bind_eq_bind]
    cases computeTier today path (Frontmatter.parse text).frontmatter humanSigned <;> rfl
  have hcount : (∀ result ∈ checkedParse text, result.frontmatter.tokens = none →
      result.body.length < 2 ^ 32) ↔ ((Frontmatter.parse text).frontmatter.tokens.isSome = true ∨
        (Frontmatter.parse text).body.length < 2 ^ 32) := by
    rw [hparse]
    constructor
    · intro h
      cases htokens : (Frontmatter.parse text).frontmatter.tokens with
      | none => exact .inr (h _ rfl htokens)
      | some tokens => exact .inl rfl
    · rintro h result ⟨⟩ hnone
      rw [hnone] at h
      exact h.resolve_left (by decide)
  constructor
  · rintro ⟨-, -, hreturns, hcounted⟩
    rw [hitem, isSome_computeTier_iff] at hreturns
    exact ⟨hreturns, hcount.1 hcounted⟩
  · rintro ⟨hreturns, hcounted⟩
    refine ⟨fun value => ?_, ?_, ?_, hcount.2 hcounted⟩
    · rw [Frontmatter.checkedUnquote_eq]
      rfl
    · rw [checkedCivilFromDays_eq]
      rfl
    · rw [hitem, isSome_computeTier_iff]
      exact hreturns

/-- A reviewed item whose expiry date has two bytes at its tenth place. -/
def exampleExpiry : Str := "---\ntype: knowledge\nexpires: 2026-01-0\u00e9\n---\n".toList

/-- Its tier cannot be computed. -/
theorem exampleExpiry_not_indexed : ¬ ∀ (today : ℕ) (path text : Str) (humanSigned : Bool),
    Indexes today path text humanSigned := by
  intro h
  have hreturns := (h 0 "a.md".toList exampleExpiry true).returns
  have hnone : indexItem 0 "a.md".toList exampleExpiry true = none := by decide +kernel
  rw [hnone] at hreturns
  cases hreturns

end Tier

end Wkp
