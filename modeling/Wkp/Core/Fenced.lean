import Wkp.Core.Stable

/-!
# The fence of the frontmatter

* `Frontmatter.HasBlock` : a text opens with a delimiter line and has another one.
* `Frontmatter.body_suffix_parse` : the body is what comes after the second, or else the whole text.
* `Frontmatter.fence_parse` : **a rendered frontmatter never hides a part of the body below it.**
-/

namespace Wkp

open Rust

namespace Frontmatter

/-- The text opens with a delimiter line, and there is another delimiter line. -/
def HasBlock (input : Str) : Prop :=
  ∃ first rest, splitInclusive input = first :: rest ∧ isDelimiterLine first = true ∧
    ∃ line ∈ rest, isDelimiterLine line = true

/-- The loop stops at the first delimiter line, and returns what is below it. -/
theorem splitAtClosingDelimiterLoop_spec (block : Str) (ls : List Str) :
    (splitAtClosingDelimiterLoop block ls = none ∧ ∀ l ∈ ls, isDelimiterLine l = false) ∨
      ∃ above below : List Str, ∃ line, ls = above ++ line :: below ∧
        isDelimiterLine line = true ∧
        splitAtClosingDelimiterLoop block ls = some (block ++ above.flatten, below.flatten) := by
  induction ls generalizing block with
  | nil => exact .inl ⟨rfl, by simp⟩
  | cons l ls ih =>
    rw [splitAtClosingDelimiterLoop]
    cases hl : isDelimiterLine l with
    | true => exact .inr ⟨[], ls, l, rfl, hl, by simp⟩
    | false =>
      rcases ih (block ++ l) with ⟨hnone, hall⟩ | ⟨above, below, line, rfl, hline, hsome⟩
      · exact .inl ⟨by simpa using hnone, by simpa [hl] using hall⟩
      · refine .inr ⟨l :: above, below, line, rfl, hline, ?_⟩
        simp [hsome]

theorem splitInclusive_of_cons {s first : Str} {rest : List Str}
    (h : splitInclusive s = first :: rest) : splitInclusive rest.flatten = rest := by
  induction s generalizing first with
  | nil => cases h
  | cons c s ih =>
    rw [splitInclusive] at h
    split_ifs at h
    · obtain ⟨-, rfl⟩ := List.cons.inj h
      rw [flatten_splitInclusive]
    · cases hs : splitInclusive s with
      | nil =>
        rw [hs] at h
        obtain ⟨-, rfl⟩ := List.cons.inj h
        rfl
      | cons l ls =>
        rw [hs] at h
        obtain ⟨-, rfl⟩ := List.cons.inj h
        exact ih hs

/-- **What a text is read as**: without a block all of it is the body, else the body is what comes
after the second delimiter line. -/
theorem body_parse_cases (input : Str) : (¬ HasBlock input ∧ (parse input).body = input) ∨
    (HasBlock input ∧ ∃ above, input = above ++ (parse input).body) := by
  cases hlines : splitInclusive input with
  | nil =>
    have hstrip : stripOpeningDelimiter input = none := by rw [stripOpeningDelimiter, hlines]
    refine .inl ⟨?_, by rw [parse, hstrip]⟩
    rintro ⟨first, rest, h, -⟩
    rw [hlines] at h
    cases h
  | cons first rest =>
    have hinput : first ++ rest.flatten = input := by
      rw [← flatten_splitInclusive input, hlines, List.flatten_cons]
    have hblock : HasBlock input ↔
        isDelimiterLine first = true ∧ ∃ line ∈ rest, isDelimiterLine line = true := by
      constructor
      · rintro ⟨first', rest', h, hfirst⟩
        rw [hlines] at h
        obtain ⟨rfl, rfl⟩ := List.cons.inj h
        exact hfirst
      · exact fun h => ⟨first, rest, hlines, h⟩
    -- a block is opened by the first line and has to be closed by a later one
    cases hfirst : isDelimiterLine first with
    | false =>
      have hstrip : stripOpeningDelimiter input = none := by
        rw [stripOpeningDelimiter, hlines]
        simp [hfirst]
      exact .inl ⟨by simp [hblock, hfirst], by rw [parse, hstrip]⟩
    | true =>
      have hstrip : stripOpeningDelimiter input = some rest.flatten := by
        rw [stripOpeningDelimiter, hlines]
        simp [hfirst]
      have hsplit : splitAtClosingDelimiter rest.flatten =
          splitAtClosingDelimiterLoop [] rest := by
        rw [splitAtClosingDelimiter, splitInclusive_of_cons hlines]
      rcases splitAtClosingDelimiterLoop_spec [] rest with
        ⟨hnone, hall⟩ | ⟨above, below, line, hrest, hline, hsome⟩
      · refine .inl ⟨?_, by rw [parse, hstrip]; simp only [hsplit, hnone]⟩
        rw [hblock]
        rintro ⟨-, l, hl, hdelim⟩
        rw [hall l hl] at hdelim
        cases hdelim
      · have hbody : (parse input).body = below.flatten := by
          rw [parse, hstrip]
          simp only [hsplit, hsome]
        refine .inr ⟨hblock.2 ⟨hfirst, line, by simp [hrest], hline⟩,
          first ++ above.flatten ++ line, ?_⟩
        rw [hbody, ← hinput, hrest]
        simp

theorem body_suffix_parse (input : Str) : (parse input).body <:+ input := by
  rcases body_parse_cases input with ⟨-, hbody⟩ | ⟨-, above, hinput⟩
  · rw [hbody]
  · exact ⟨above, hinput.symm⟩

/-- **The fence is unambiguous.**  Below a rendered frontmatter any text is the body, whatever lines
it has; the body of a text is a suffix of it, and all of it when there is no terminated block. -/
theorem fence_parse (T : CharTables) :
    (∀ input body : Str, (parse (render T (parse input).frontmatter ++ body)).body = body) ∧
    (∀ input : Str, (parse input).body <:+ input) ∧
    (∀ input : Str, ¬ HasBlock input → (parse input).body = input) := by
  refine ⟨fun input body => ?_, body_suffix_parse, fun input h => ?_⟩
  · rw [parse_render (parsed_parse input).lineSafe T body]
  · rcases body_parse_cases input with ⟨-, hbody⟩ | ⟨hblock, -⟩
    · exact hbody
    · exact absurd hblock h

end Frontmatter

end Wkp
