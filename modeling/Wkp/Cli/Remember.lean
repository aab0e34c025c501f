import Wkp.Lib.Str
import Mathlib.Data.Bool.AllAny

/-!
# Writing a memory

* `Cli.slugify` : a title as the stem of a file name.
* `Cli.slugify_spec` : **a slug is a stem, and has the letters and digits of the title.**
* `Cli.rememberFrontmatterBlock` : the frontmatter of an item that an agent writes.
-/

namespace Wkp

open Rust

namespace Cli

/-- A letter or digit of ASCII (`char::is_ascii_alphanumeric`). -/
def isAsciiAlphanumeric (c : Char) : Bool :=
  decide (('0' ≤ c ∧ c ≤ '9') ∨ ('A' ≤ c ∧ c ≤ 'Z') ∨ ('a' ≤ c ∧ c ≤ 'z'))

/-- One character of `slugify`: the slug so far, and whether it ends in a dash just added. -/
def slugStep (acc : Str × Bool) (c : Char) : Str × Bool :=
  if isAsciiAlphanumeric c then (acc.1 ++ [c.toLower], false)
  else if !acc.2 && !acc.1.isEmpty then (acc.1 ++ ['-'], true)
  else acc

/-- A slug in lower case with hyphens between the words. -/
def slugify (input : Str) : Str :=
  let slug := (input.foldl slugStep ([], false)).1.rdropWhile (· = '-')
  if slug = [] then "memory".toList else slug

/-! ### Slugs -/

/-- A lower-case letter or digit of ASCII. -/
def isSlugChar (c : Char) : Bool := decide (('a' ≤ c ∧ c ≤ 'z') ∨ ('0' ≤ c ∧ c ≤ '9'))

theorem isSlugChar_iff {c : Char} : isSlugChar c = true ↔
    (97 ≤ c.toNat ∧ c.toNat ≤ 122) ∨ 48 ≤ c.toNat ∧ c.toNat ≤ 57 := by
  rw [isSlugChar, decide_eq_true_iff]
  rfl

theorem isAsciiAlphanumeric_iff {c : Char} : isAsciiAlphanumeric c = true ↔
    (65 ≤ c.toNat ∧ c.toNat ≤ 90) ∨ isSlugChar c = true := by
  rw [isAsciiAlphanumeric, decide_eq_true_iff, isSlugChar_iff]
  change (48 ≤ c.toNat ∧ c.toNat ≤ 57) ∨ (65 ≤ c.toNat ∧ c.toNat ≤ 90) ∨
    97 ≤ c.toNat ∧ c.toNat ≤ 122 ↔ _
  tauto

theorem toNat_toLower (c : Char) :
    c.toLower.toNat = if 65 ≤ c.toNat ∧ c.toNat ≤ 90 then c.toNat + 32 else c.toNat := by
  have hval : (c.val ≥ 'A'.val ∧ c.val ≤ 'Z'.val) ↔ 65 ≤ c.toNat ∧ c.toNat ≤ 90 := Iff.rfl
  by_cases h : 65 ≤ c.toNat ∧ c.toNat ≤ 90
  · have hlower : c.toLower.val = c.val + 32 := congrArg Char.val (dif_pos (hval.2 h))
    rw [if_pos h]
    change c.toLower.val.toNat = c.val.toNat + 32
    rw [hlower, UInt32.toNat_add]
    exact Nat.mod_eq_of_lt (by change c.toNat + 32 < _; omega)
  · have hlower : c.toLower = c := dif_neg (mt hval.1 h)
    rw [hlower, if_neg h]

theorem isSlugChar_toLower {c : Char} (h : isAsciiAlphanumeric c = true) :
    isSlugChar c.toLower = true := by
  rw [isAsciiAlphanumeric_iff, isSlugChar_iff] at h
  rw [isSlugChar_iff, toNat_toLower]
  split_ifs <;> omega

theorem toLower_of_isSlugChar {c : Char} (h : isSlugChar c = true) : c.toLower = c := by
  rw [isSlugChar_iff] at h
  refine Char.toNat_inj.1 ?_
  rw [toNat_toLower, if_neg (by omega)]

theorem ne_dash_of_isSlugChar {c : Char} (h : isSlugChar c = true) : c ≠ '-' := by
  rintro rfl
  cases h

/-- Letters and digits with single dashes behind them. -/
structure Hyphenated (s : Str) : Prop where
  /-- There is no other character in it. -/
  chars : ∀ c ∈ s, isSlugChar c = true ∨ c = '-'
  /-- It does not begin with a dash. -/
  head : s.head? ≠ some '-'
  /-- No two dashes follow each other. -/
  single : ¬ ['-', '-'] <:+: s

/-- The stem of a file name: not empty, and no dash at the end of it. -/
structure IsStem (s : Str) : Prop extends Hyphenated s where
  /-- It is not empty. -/
  ne_nil : s ≠ []
  /-- It does not end with a dash. -/
  last : s.getLast? ≠ some '-'

/-- The letters and digits of a text, in lower case. -/
def slugWords (s : Str) : Str := (s.filter isAsciiAlphanumeric).map Char.toLower

theorem Hyphenated.concat {s : Str} (h : Hyphenated s) {c : Char} (hc : isSlugChar c = true) :
    Hyphenated (s ++ [c]) := by
  have hne := ne_dash_of_isSlugChar hc
  refine ⟨fun d hd => ?_, ?_, fun hdashes => ?_⟩
  · rcases List.mem_append.1 hd with hd | hd
    · exact h.chars d hd
    · exact .inl (List.mem_singleton.1 hd ▸ hc)
  · cases s with
    | nil => exact fun hd => hne (Option.some.inj hd)
    | cons d s => exact h.head
  · rcases List.infix_concat_iff.1 hdashes with hsuffix | hinfix
    · obtain ⟨t, ht⟩ := hsuffix
      have hlast := congrArg List.getLast? ht
      rw [List.getLast?_append, List.getLast?_concat] at hlast
      exact hne (Option.some.inj hlast).symm
    · exact h.single hinfix

theorem Hyphenated.concat_dash {s : Str} (h : Hyphenated s) (hne : s ≠ [])
    (hlast : s.getLast? ≠ some '-') : Hyphenated (s ++ ['-']) := by
  refine ⟨fun d hd => ?_, ?_, fun hdashes => ?_⟩
  · rcases List.mem_append.1 hd with hd | hd
    · exact h.chars d hd
    · exact .inr (List.mem_singleton.1 hd)
  · cases s with
    | nil => exact absurd rfl hne
    | cons d s => exact h.head
  · rcases List.infix_concat_iff.1 hdashes with ⟨t, ht⟩ | hinfix
    · have hdash : (t ++ ['-']) ++ ['-'] = s ++ ['-'] := by
        rw [List.append_assoc]
        exact ht
      rw [← List.append_cancel_right hdash, List.getLast?_concat] at hlast
      exact hlast rfl
    · exact h.single hinfix

theorem Hyphenated.of_isPrefix {s t : Str} (h : Hyphenated t) (hs : s <+: t) : Hyphenated s := by
  refine ⟨fun c hc => h.chars c (hs.subset hc), fun hhead => h.head ?_, fun hdashes =>
    h.single (hdashes.trans hs.isInfix)⟩
  obtain ⟨r, rfl⟩ := hs
  rw [List.head?_append, hhead, Option.some_or]

/-- The loop of `slugify`. -/
def slugLoop (s : Str) : Str × Bool := s.foldl slugStep ([], false)

theorem slugLoop_concat (s : Str) (c : Char) : slugLoop (s ++ [c]) = slugStep (slugLoop s) c := by
  rw [slugLoop, List.foldl_append]
  rfl

theorem slugWords_concat (s : Str) (c : Char) :
    slugWords (s ++ [c]) = slugWords s ++ if isAsciiAlphanumeric c then [c.toLower] else [] := by
  rw [slugWords, List.filter_append, List.map_append, ← slugWords]
  by_cases h : isAsciiAlphanumeric c = true <;> simp [h]

/-- The loop keeps the letters and digits, and knows whether it ended with a dash. -/
theorem slugLoop_spec (s : Str) : Hyphenated (slugLoop s).1 ∧
    (slugLoop s).1.filter (· ≠ '-') = slugWords s ∧
    ((slugLoop s).2 = true ↔ (slugLoop s).1.getLast? = some '-') := by
  induction s using List.reverseRecOn with
  | nil =>
    exact ⟨⟨by simp [slugLoop], by simp [slugLoop], by simp [slugLoop]⟩, rfl, by simp [slugLoop]⟩
  | append_singleton s c ih =>
    obtain ⟨hstem, hwords, hdash⟩ := ih
    rw [slugLoop_concat, slugWords_concat, slugStep]
    by_cases hc : isAsciiAlphanumeric c = true
    · have hslug := isSlugChar_toLower hc
      have hne := ne_dash_of_isSlugChar hslug
      rw [if_pos hc, if_pos hc]
      refine ⟨hstem.concat hslug, ?_, ?_⟩
      · rw [List.filter_append, hwords, List.filter_cons_of_pos (by simpa using hne)]
        rfl
      · rw [List.getLast?_concat]
        exact iff_of_false Bool.false_ne_true fun h => hne (Option.some.inj h)
    · rw [if_neg hc, if_neg hc, List.append_nil]
      by_cases hadd : (!(slugLoop s).2 && !(slugLoop s).1.isEmpty) = true
      · rw [if_pos hadd]
        rw [Bool.and_eq_true, Bool.not_eq_true', Bool.not_eq_true', List.isEmpty_eq_false_iff] at hadd
        refine ⟨hstem.concat_dash hadd.2 fun h => ?_, ?_, ?_⟩
        · rw [hdash.2 h] at hadd
          cases hadd.1
        · rw [List.filter_append, hwords]
          exact List.append_nil _
        · rw [List.getLast?_concat]
          exact iff_of_true rfl rfl
      · rw [if_neg hadd]
        exact ⟨hstem, hwords, hdash⟩

theorem slugLoop_of_hyphenated {s : Str} (h : Hyphenated s) : (slugLoop s).1 = s := by
  induction s using List.reverseRecOn with
  | nil => rfl
  | append_singleton s c ih =>
    have hs := h.of_isPrefix (List.prefix_append s [c])
    rw [slugLoop_concat, slugStep]
    rcases h.chars c (by simp) with hc | rfl
    · rw [if_pos (isAsciiAlphanumeric_iff.2 (.inr hc)), ih hs, toLower_of_isSlugChar hc]
    · have hne : s ≠ [] := by
        rintro rfl
        exact h.head rfl
      have hlast : ¬ (slugLoop s).2 = true := by
        rw [(slugLoop_spec s).2.2, ih hs]
        intro hlast
        obtain ⟨t, rfl⟩ := List.getLast?_eq_some_iff.1 hlast
        exact h.single ⟨t, [], by simp⟩
      rw [if_neg (by decide), if_pos (by simp [hlast, ih hs, hne]), ih hs]

theorem filter_rdropWhile_dash (s : Str) :
    (s.rdropWhile (· = '-')).filter (· ≠ '-') = s.filter (· ≠ '-') := by
  have hdashes : (s.rtakeWhile (· = '-')).filter (· ≠ '-') = [] :=
    List.filter_eq_nil_iff.2 fun c hc => by simpa using List.mem_rtakeWhile_imp hc
  have hsplit : s.rdropWhile (· = '-') ++ s.rtakeWhile (· = '-') = s :=
    List.rdropWhile_append_rtakeWhile
  conv_rhs => rw [← hsplit, List.filter_append, hdashes, List.append_nil]

theorem slugify_eq (s : Str) : slugify s =
    if (slugLoop s).1.rdropWhile (· = '-') = [] then "memory".toList
    else (slugLoop s).1.rdropWhile (· = '-') := rfl

theorem isStem_memory : IsStem "memory".toList :=
  ⟨⟨List.all_iff_forall_prop.1 (by decide), by decide, by decide⟩, by decide, by decide⟩

theorem isStem_slugify (s : Str) : IsStem (slugify s) := by
  rw [slugify_eq]
  split_ifs with hnil
  · exact isStem_memory
  · refine ⟨(slugLoop_spec s).1.of_isPrefix (List.rdropWhile_prefix _ _), hnil, fun hlast => ?_⟩
    have hnot := List.rdropWhile_last_not _ _ hnil
    rw [List.getLast?_eq_some_getLast hnil] at hlast
    rw [Option.some.inj hlast] at hnot
    exact hnot (by decide)

theorem slugify_of_isStem {s : Str} (h : IsStem s) : slugify s = s := by
  have htrim : s.rdropWhile (· = '-') = s := by
    rw [List.rdropWhile_eq_self_iff]
    intro hne hlast
    rw [decide_eq_true_iff] at hlast
    exact h.last (by rw [List.getLast?_eq_some_getLast hne, hlast])
  rw [slugify_eq, slugLoop_of_hyphenated h.toHyphenated, htrim, if_neg h.ne_nil]

/-- **A slug is the stem of a file name.**  It has the letters and digits of the text, when there are
any, and the slug of a slug is that slug. -/
theorem slugify_spec (s : Str) : IsStem (slugify s) ∧
    (slugWords s ≠ [] → (slugify s).filter (· ≠ '-') = slugWords s) ∧
    slugify (slugify s) = slugify s := by
  refine ⟨isStem_slugify s, fun hwords => ?_, slugify_of_isStem (isStem_slugify s)⟩
  have hkept := filter_rdropWhile_dash (slugLoop s).1
  rw [(slugLoop_spec s).2.1] at hkept
  rw [slugify_eq, if_neg, hkept]
  intro hnil
  rw [hnil] at hkept
  exact hwords hkept.symm

theorem slugify_spec_example :
    (slugify "  Ünit--Tests: v2! ".toList).filter (· ≠ '-') = "nittestsv2".toList :=
  (slugify_spec "  Ünit--Tests: v2! ".toList).2.1 (by decide)

/-! ### Frontmatter -/

/-- The frontmatter of an item that an agent writes. -/
def rememberFrontmatterBlock (T : CharTables) (title itemType : Str) (scope : Option Str)
    (actor : Str) (session : Option Str) : Str :=
  "---\ntitle: ".toList ++ debug T title ++ "\ntype: ".toList ++ itemType ++ "\n".toList ++
    (scope.map fun scope => "scope: ".toList ++ scope ++ "\n".toList).getD [] ++
    "provenance:\n".toList ++ "  actor: ".toList ++ debug T actor ++ "\n".toList ++
    (session.map fun session => "  session: ".toList ++ debug T session ++ "\n".toList).getD [] ++
    "  source: conversation\n".toList ++ "confidence: proposed\n---\n".toList

theorem head?_rememberFrontmatterBlock (T : CharTables) (title itemType : Str)
    (scope : Option Str) (actor : Str) (session : Option Str) :
    (rememberFrontmatterBlock T title itemType scope actor session).head? = some '-' := by
  unfold rememberFrontmatterBlock
  simp only [List.head?_append]
  rfl

end Cli

end Wkp
