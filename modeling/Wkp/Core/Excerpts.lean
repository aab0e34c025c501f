import Wkp.Core.Secrets
import Wkp.Lib.Bytes

/-!
# What the excerpts of findings show

The excerpt of a finding is the text around it at byte offsets; it leaves out the finding itself, and
nothing else that was found.

* `Secrets.excerpt_slices` : **an excerpt is two slices of the text, cut where characters end.**
* `Secrets.Shown`, `Secrets.Hidden` : the bytes that an excerpt shows, and those that belong to a
  secret.
* `Secrets.conceals_iff` : **no excerpt shows a byte of a secret exactly when the findings are far
  enough apart and no value goes on behind its match.**
* `Secrets.DifferInside.scan_eq` : then the excerpts do not depend on the secrets.
-/

namespace Wkp

open Rust

namespace Secrets

/-! ### The slices of an excerpt -/

/-- The loop of `floorCharBoundary`. -/
def floorCharBoundaryLoop (content : Str) : ℕ → ℕ
  | 0 => 0
  | n + 1 => if isCharBoundary content (n + 1) then n + 1 else floorCharBoundaryLoop content n

/-- The nearest offset down from `n` where a character ends. -/
def floorCharBoundary (content : Str) (n : ℕ) : ℕ :=
  floorCharBoundaryLoop content (min n (byteLength content))

/-- The loop of `ceilCharBoundary`, with the number of bytes behind `n`. -/
def ceilCharBoundaryLoop (content : Str) : ℕ → ℕ → ℕ
  | 0, n => n
  | left + 1, n => if isCharBoundary content n then n else ceilCharBoundaryLoop content left (n + 1)

/-- The nearest offset up from `n` where a character ends. -/
def ceilCharBoundary (content : Str) (n : ℕ) : ℕ :=
  ceilCharBoundaryLoop content (byteLength content - min n (byteLength content))
    (min n (byteLength content))

/-- Where the excerpt of a match begins. -/
def beforeStart (content : Str) (start : ℕ) : ℕ := floorCharBoundary content (start - contextBytes)

/-- Where the excerpt of a match ends. -/
def afterEnd (content : Str) (stop : ℕ) : ℕ :=
  ceilCharBoundary content (min (stop + contextBytes) (byteLength content))

/-- `redacted_excerpt`: the text around a match at two offsets; none when a slice panics. -/
def excerpt (content : Str) (start stop : ℕ) : Option Str := do
  let before ← sliceBytes (beforeStart content start) start content
  let after ← sliceBytes stop (afterEnd content stop) content
  return before ++ "«redacted»".toList ++ after

theorem floorCharBoundaryLoop_spec (content : Str) (n : ℕ) :
    isCharBoundary content (floorCharBoundaryLoop content n) = true ∧
      floorCharBoundaryLoop content n ≤ n ∧
      ∀ b, isCharBoundary content b = true → b ≤ n → b ≤ floorCharBoundaryLoop content n := by
  induction n with
  | zero => exact ⟨isCharBoundary_append [] content, le_rfl, fun b _ hb => hb⟩
  | succ n ih =>
    rw [floorCharBoundaryLoop]
    split_ifs with h
    · exact ⟨h, le_rfl, fun b _ hb => hb⟩
    · refine ⟨ih.1, ih.2.1.trans (Nat.le_succ n), fun b hb hle => ih.2.2 b hb ?_⟩
      have hne : b ≠ n + 1 := by
        rintro rfl
        exact h hb
      omega

theorem ceilCharBoundaryLoop_spec {content : Str} {left n : ℕ}
    (h : n + left = byteLength content) :
    isCharBoundary content (ceilCharBoundaryLoop content left n) = true ∧
      n ≤ ceilCharBoundaryLoop content left n ∧
      ∀ b, isCharBoundary content b = true → n ≤ b → ceilCharBoundaryLoop content left n ≤ b := by
  induction left generalizing n with
  | zero =>
    have hend := isCharBoundary_append content []
    rw [List.append_nil, ← h] at hend
    exact ⟨hend, le_rfl, fun b _ hb => hb⟩
  | succ left ih =>
    rw [ceilCharBoundaryLoop]
    split_ifs with hn
    · exact ⟨hn, le_rfl, fun b _ hb => hb⟩
    · obtain ⟨hend, hle, hleast⟩ := @ih (n + 1) (by omega)
      refine ⟨hend, by omega, fun b hb hnb => hleast b hb ?_⟩
      have hne : b ≠ n := by
        rintro rfl
        exact hn hb
      omega

/-- What `coverBytes` takes: all of the text or enough of it, and no character more. -/
theorem exists_eq_append_coverBytes (n : ℕ) (s : Str) : ∃ r, s = coverBytes n s ++ r ∧
    (r = [] ∨ n ≤ byteLength (coverBytes n s)) ∧
    (coverBytes n s = [] ∨ ∃ w c, coverBytes n s = w ++ [c] ∧ byteLength w < n) := by
  induction s generalizing n with
  | nil => cases n <;> exact ⟨[], rfl, .inl rfl, .inl rfl⟩
  | cons c s ih =>
    cases n with
    | zero => exact ⟨c :: s, rfl, .inr le_rfl, .inl rfl⟩
    | succ n =>
      obtain ⟨r, hs, henough, hleast⟩ := ih (n + 1 - c.utf8Size)
      rw [coverBytes]
      refine ⟨r, congrArg (c :: ·) hs, henough.imp_right fun h => ?_, .inr ?_⟩
      · rw [byteLength_cons]
        omega
      · rcases hleast with hnil | ⟨w, d, hw, hlt⟩
        · exact ⟨[], c, by rw [hnil]; rfl, Nat.succ_pos n⟩
        · refine ⟨c :: w, d, by rw [hw]; rfl, ?_⟩
          rw [byteLength_cons]
          omega

/-- Where an excerpt begins: the last end of a character that far before the match. -/
theorem beforeStart_spec (content : Str) (start : ℕ) (h : start ≤ byteLength content) :
    isCharBoundary content (beforeStart content start) = true ∧
      beforeStart content start ≤ start - contextBytes ∧
      ∀ b, isCharBoundary content b = true → b ≤ start - contextBytes →
        b ≤ beforeStart content start := by
  have hmin : min (start - contextBytes) (byteLength content) = start - contextBytes := by omega
  rw [beforeStart, floorCharBoundary, hmin]
  exact floorCharBoundaryLoop_spec content _

/-- Where an excerpt ends: the first end of a character that far behind the match. -/
theorem afterEnd_spec (content : Str) (stop : ℕ) :
    isCharBoundary content (afterEnd content stop) = true ∧
      min (stop + contextBytes) (byteLength content) ≤ afterEnd content stop ∧
      ∀ b, isCharBoundary content b = true → min (stop + contextBytes) (byteLength content) ≤ b →
        afterEnd content stop ≤ b := by
  have hmin : min (min (stop + contextBytes) (byteLength content)) (byteLength content) =
      min (stop + contextBytes) (byteLength content) := by rw [min_assoc, min_self]
  rw [afterEnd, ceilCharBoundary, hmin]
  exact ceilCharBoundaryLoop_spec (by omega)

theorem afterEnd_append (p s : Str) :
    afterEnd (p ++ s) (byteLength p) = byteLength p + byteLength (coverBytes contextBytes s) := by
  obtain ⟨r, hs, henough, hleast⟩ := exists_eq_append_coverBytes contextBytes s
  obtain ⟨hend, hle, hmost⟩ := afterEnd_spec (p ++ s) (byteLength p)
  generalize afterEnd (p ++ s) (byteLength p) = e at *
  set w := coverBytes contextBytes s
  have hlen : byteLength (p ++ s) = byteLength p + (byteLength w + byteLength r) := by
    rw [hs, byteLength_append, byteLength_append]
  clear_value w
  refine le_antisymm (hmost _ ?_ ?_) ?_
  · rw [hs, ← List.append_assoc, ← byteLength_append]
    exact isCharBoundary_append _ _
  · rcases henough with rfl | henough
    · rw [byteLength_nil] at hlen
      omega
    · omega
  · rcases hleast with hnil | ⟨w', c, hw, hlt⟩
    · rw [hnil, byteLength_nil]
      omega
    · have hsplit : p ++ s = (p ++ w') ++ c :: r := by rw [hs, hw]; simp
      have hc := c.utf8Size_pos
      have hw := congrArg byteLength hw
      simp only [byteLength_append, byteLength_cons, byteLength_nil] at hw
      rw [hsplit] at hend
      have hgap := le_of_isCharBoundary hend (by rw [byteLength_append]; omega)
      rw [byteLength_append] at hgap
      omega

theorem beforeStart_append (p s : Str) : beforeStart (p ++ s) (byteLength p) +
    byteLength (coverBytes contextBytes p.reverse) = byteLength p := by
  obtain ⟨r, hp, henough, hleast⟩ := exists_eq_append_coverBytes contextBytes p.reverse
  obtain ⟨hstart, hle, hmost⟩ := beforeStart_spec (p ++ s) (byteLength p) (by simp)
  generalize beforeStart (p ++ s) (byteLength p) = b at *
  set w := coverBytes contextBytes p.reverse
  have hsplit : p = r.reverse ++ w.reverse := by
    rw [← List.reverse_append, ← hp, List.reverse_reverse]
  have hlen : byteLength p = byteLength r + byteLength w := by
    rw [hsplit, byteLength_append, byteLength_reverse, byteLength_reverse]
  clear_value w
  have hb : b = byteLength r := by
    refine le_antisymm ?_ (hmost _ ?_ ?_)
    · by_contra hlt
      rcases hleast with rfl | ⟨w', c, hw, hlt'⟩
      · rw [byteLength_nil] at hlen
        omega
      · have hps : p ++ s = r.reverse ++ c :: (w'.reverse ++ s) := by rw [hsplit, hw]; simp
        have hc := c.utf8Size_pos
        have hw := congrArg byteLength hw
        simp only [byteLength_append, byteLength_cons, byteLength_nil] at hw
        rw [hps] at hstart
        have hgap := le_of_isCharBoundary hstart (by rw [byteLength_reverse]; omega)
        rw [byteLength_reverse] at hgap
        omega
    · rw [hsplit, List.append_assoc, ← byteLength_reverse]
      exact isCharBoundary_append _ _
    · rcases henough with rfl | henough
      · exact Nat.zero_le _
      · omega
  rw [hb, ← hlen]

theorem slice_before (p s : Str) : sliceBytes (beforeStart (p ++ s) (byteLength p)) (byteLength p)
    (p ++ s) = some (coverBytes contextBytes p.reverse).reverse := by
  obtain ⟨r, hp, -⟩ := exists_eq_append_coverBytes contextBytes p.reverse
  have hsplit : p = r.reverse ++ (coverBytes contextBytes p.reverse).reverse := by
    rw [← List.reverse_append, ← hp, List.reverse_reverse]
  have hstart := beforeStart_append p s
  refine sliceBytes_eq_some.2 ⟨r.reverse, s, ?_, ?_, by rw [byteLength_reverse, hstart]⟩
  · rw [← List.append_assoc, ← hsplit]
  · have hlen := congrArg byteLength hsplit
    simp only [byteLength_append, byteLength_reverse] at hlen ⊢
    omega

theorem slice_after (p s : Str) : sliceBytes (byteLength p) (afterEnd (p ++ s) (byteLength p))
    (p ++ s) = some (coverBytes contextBytes s) := by
  obtain ⟨r, hs, -⟩ := exists_eq_append_coverBytes contextBytes s
  exact sliceBytes_eq_some.2 ⟨p, r, congrArg (p ++ ·) hs, rfl, (afterEnd_append p s).symm⟩

/-- The context on one side is no longer than asked for, but for the rest of a character. -/
theorem byteLength_coverBytes_le (n : ℕ) (s : Str) : byteLength (coverBytes n s) ≤ n + 3 := by
  obtain ⟨-, -, -, hnil | ⟨w, c, hw, hlt⟩⟩ := exists_eq_append_coverBytes n s
  · rw [hnil, byteLength_nil]
    exact Nat.zero_le _
  · have hc := c.utf8Size_le_four
    rw [hw, byteLength_append, byteLength_cons, byteLength_nil]
    omega

/-- **An excerpt is made of two slices of the text**, from one end of a character to another, each of
at most `CONTEXT_BYTES` bytes and the rest of a character. -/
theorem excerpt_slices {content : Str} {start stop : ℕ}
    (hstart : isCharBoundary content start = true) (hstop : isCharBoundary content stop = true) :
    (isCharBoundary content (beforeStart content start) = true ∧
      beforeStart content start ≤ start ∧ start ≤ byteLength content ∧
      start - beforeStart content start ≤ contextBytes + 3) ∧
    (isCharBoundary content (afterEnd content stop) = true ∧
      stop ≤ afterEnd content stop ∧ afterEnd content stop ≤ byteLength content ∧
      afterEnd content stop - stop ≤ contextBytes + 3) ∧
    ∃ before after, sliceBytes (beforeStart content start) start content = some before ∧
      sliceBytes stop (afterEnd content stop) content = some after ∧
      excerpt content start stop = some (before ++ "«redacted»".toList ++ after) := by
  obtain ⟨p, t, hp, rfl⟩ := isCharBoundary_iff.1 hstart
  obtain ⟨q, u, hq, rfl⟩ := isCharBoundary_iff.1 hstop
  have hlenp : byteLength p ≤ byteLength content := by rw [hp, byteLength_append]; omega
  have hbefore := slice_before p t
  have hlenb := beforeStart_append p t
  rw [← hp] at hbefore hlenb
  have hafter := slice_after q u
  have hlena := afterEnd_append q u
  rw [← hq] at hafter hlena
  have hcoverp := byteLength_coverBytes_le contextBytes p.reverse
  have hcoveru := byteLength_coverBytes_le contextBytes u
  obtain ⟨r, hu, -⟩ := exists_eq_append_coverBytes contextBytes u
  have hlenu : byteLength content =
      byteLength q + (byteLength (coverBytes contextBytes u) + byteLength r) := by
    rw [hq, byteLength_append, ← byteLength_append (coverBytes contextBytes u), ← hu]
  refine ⟨⟨(beforeStart_spec content _ hlenp).1, by omega, hlenp, by omega⟩,
    ⟨(afterEnd_spec content _).1, by omega, by omega, by omega⟩, _, _, hbefore, hafter, ?_⟩
  rw [excerpt, hbefore, hafter]
  rfl

theorem excerpt_slices_example :
    excerpt "café au lait 密碼".toList 6 8 ≠ none := by
  obtain ⟨-, -, before, after, -, -, h⟩ := excerpt_slices
    (show isCharBoundary "café au lait 密碼".toList 6 = true by decide)
    (show isCharBoundary "café au lait 密碼".toList 8 = true by decide)
  rw [h]
  exact Option.some_ne_none _

/-! ### What is found -/

/-- A match that is reported, with its rule. -/
structure Spot where
  /-- The rule. -/
  rule : Rule
  /-- The match. -/
  place : Regex.Match

namespace Spot

/-- The offset of its first byte. -/
def start (f : Spot) : ℕ := byteLength f.place.before

/-- The offset behind its last byte. -/
def stop (f : Spot) : ℕ := f.start + byteLength f.place.text

/-- The classes of the characters of values: of what a pattern captures. -/
def valueClasses : Regex → List CharClass
  | .empty | .boundary | .oneOf _ | .many .. => []
  | .seq a b | .alt a b => valueClasses a ++ valueClasses b
  | .group a => a.firsts

/-- The run of value characters that directly continues the matched value. -/
def continuation (f : Spot) : Str :=
  if f.place.captured.any fun value => value.isSuffixOf f.place.text then
    f.place.after.takeWhile (Regex.inSome (valueClasses f.rule.pattern))
  else []

/-- The offset behind the match and what continues its value. -/
def hiddenStop (f : Spot) : ℕ := f.stop + byteLength f.continuation

/-- What it is reported as. -/
def report (f : Spot) : Finding :=
  ⟨f.rule.name, f.start, f.stop, redactedExcerpt f.place⟩

end Spot

/-- The matches that are reported. -/
def found (S : Scanner) (content : Str) : List Spot :=
  rules.flatMap fun rule => ((Regex.findIter S.word rule.pattern [] 0 content).filter fun m =>
    !rule.dismisses S m.what).map fun m => ⟨rule, m⟩

variable {S : Scanner} {content : Str}

theorem scan_eq_map (S : Scanner) (content : Str) :
    scan S content = (found S content).map Spot.report := by
  rw [scan, found, List.map_flatMap]
  refine List.flatMap_congr fun rule _ => ?_
  rw [List.map_map]
  induction Regex.findIter S.word rule.pattern [] 0 content with
  | nil => rfl
  | cons m ms ih =>
    rw [List.filterMap_cons, Rule.finding]
    by_cases h : rule.dismisses S m.what = true
    · simp [h, ih]
    · simp [h, ih, Spot.report, Spot.start, Spot.stop]

theorem text_of_found {f : Spot} (h : f ∈ found S content) :
    content = f.place.before ++ (f.place.text ++ f.place.after) ∧ f.place.text ≠ [] := by
  obtain ⟨rule, hrule, h⟩ := List.mem_flatMap.1 h
  obtain ⟨m, hm, rfl⟩ := List.mem_map.1 h
  obtain ⟨htext, hne⟩ := Regex.mem_findIter (rules_local rule hrule).1 (List.mem_filter.1 hm).1
  exact ⟨htext.symm, hne⟩

/-! ### What is shown -/

/-- The excerpt of a reported match shows the byte. -/
def Shown (content : Str) (f : Spot) (n : ℕ) : Prop :=
  (beforeStart content f.start ≤ n ∧ n < f.start) ∨ (f.stop ≤ n ∧ n < afterEnd content f.stop)

/-- The byte is in a reported match, or in the run of value characters that continues its value. -/
def Hidden (S : Scanner) (content : Str) (n : ℕ) : Prop :=
  ∃ g ∈ found S content, g.start ≤ n ∧ n < g.hiddenStop

/-- No excerpt shows a byte of a secret. -/
def Conceals (S : Scanner) (content : Str) : Prop :=
  ∀ f ∈ found S content, ∀ n, Shown content f n → ¬ Hidden S content n

/-- No value goes on behind its match, and two matches have the same place or the context of an
excerpt is between them. -/
structure Apart (S : Scanner) (content : Str) : Prop where
  /-- No value goes on. -/
  ends : ∀ f ∈ found S content, f.continuation = []
  /-- They have the same place, or one is well before the other. -/
  apart : ∀ f ∈ found S content, ∀ g ∈ found S content,
    (f.start = g.start ∧ f.stop = g.stop) ∨ f.stop + contextBytes ≤ g.start ∨
      g.stop + contextBytes ≤ f.start

theorem offsets_of_found {f : Spot} (h : f ∈ found S content) :
    isCharBoundary content f.start = true ∧ isCharBoundary content f.stop = true ∧
      f.start < f.stop ∧ f.hiddenStop ≤ byteLength content := by
  obtain ⟨htext, hne⟩ := text_of_found h
  have hstart : isCharBoundary content f.start = true := by
    rw [htext]
    exact isCharBoundary_append _ _
  have hstop : isCharBoundary content f.stop = true := by
    rw [htext, ← List.append_assoc, Spot.stop, Spot.start, ← byteLength_append]
    exact isCharBoundary_append _ _
  refine ⟨hstart, hstop, ?_, ?_⟩
  · obtain ⟨c, t, ht⟩ := List.exists_cons_of_ne_nil hne
    have hc := c.utf8Size_pos
    rw [Spot.stop, ht, byteLength_cons]
    omega
  · have hle : byteLength f.continuation ≤ byteLength f.place.after := by
      rw [Spot.continuation]
      split_ifs
      · obtain ⟨u, hu⟩ := List.takeWhile_prefix (l := f.place.after)
          (Regex.inSome (Spot.valueClasses f.rule.pattern))
        rw [← congrArg byteLength hu, byteLength_append]
        exact Nat.le_add_right _ _
      · exact Nat.zero_le _
    have hlen := congrArg byteLength htext
    rw [byteLength_append, byteLength_append] at hlen
    rw [Spot.hiddenStop, Spot.stop, Spot.start]
    omega

theorem shown_stop {f : Spot} (h : f.stop < byteLength content) : Shown content f f.stop := by
  obtain ⟨-, hle, -⟩ := afterEnd_spec content f.stop
  have hcontext : 0 < contextBytes := by decide
  exact .inr ⟨le_rfl, by omega⟩

/-- **When no excerpt shows a byte of a secret.** -/
theorem conceals_iff (S : Scanner) (content : Str) : Conceals S content ↔ Apart S content := by
  constructor
  · intro h
    have hends : ∀ f ∈ found S content, f.continuation = [] := by
      intro f hf
      obtain ⟨-, -, hlt, hlen⟩ := offsets_of_found hf
      by_contra hne
      obtain ⟨c, t, ht⟩ := List.exists_cons_of_ne_nil hne
      have hpos : f.stop < f.hiddenStop := by
        have hc := c.utf8Size_pos
        rw [Spot.hiddenStop, ht, byteLength_cons]
        omega
      exact h f hf f.stop (shown_stop (by omega)) ⟨f, hf, hlt.le, hpos⟩
    have hidden : ∀ g ∈ found S content, g.hiddenStop = g.stop := fun g hg => by
      rw [Spot.hiddenStop, hends g hg]
      rfl
    refine ⟨hends, fun f hf g hg => ?_⟩
    -- of two matches one begins first, or they begin together and one ends first
    have hbefore : ∀ f ∈ found S content, ∀ g ∈ found S content, g.start < f.start →
        g.stop + contextBytes ≤ f.start := by
      intro f hf g hg hlt
      obtain ⟨-, -, hne, hlen⟩ := offsets_of_found hg
      obtain ⟨-, -, hne', hlen'⟩ := offsets_of_found hf
      by_contra hnear
      have hf' := hidden f hf
      obtain ⟨-, hle, -⟩ := beforeStart_spec content f.start (by omega)
      have hcontext : 0 < contextBytes := by decide
      refine h f hf (max g.start (beforeStart content f.start)) (.inl ⟨le_max_right _ _, ?_⟩)
        ⟨g, hg, le_max_left _ _, ?_⟩
      · omega
      · rw [hidden g hg]
        omega
    have hbehind : ∀ f ∈ found S content, ∀ g ∈ found S content, f.start = g.start →
        ¬ f.stop < g.stop := by
      intro f hf g hg heq hlt
      obtain ⟨-, -, hne, -⟩ := offsets_of_found hf
      obtain ⟨-, -, -, hlen⟩ := offsets_of_found hg
      have hg' := hidden g hg
      refine h f hf f.stop (shown_stop (by omega)) ⟨g, hg, by omega, by omega⟩
    rcases lt_trichotomy f.start g.start with hlt | heq | hgt
    · exact .inr (.inl (hbefore g hg f hf hlt))
    · have h₁ := hbehind f hf g hg heq
      have h₂ := hbehind g hg f hf heq.symm
      exact .inl ⟨heq, by omega⟩
    · exact .inr (.inr (hbefore f hf g hg hgt))
  · rintro ⟨hends, hapart⟩ f hf n hshown ⟨g, hg, hle, hlt⟩
    obtain ⟨-, hstop, hne, hlen⟩ := offsets_of_found hf
    obtain ⟨hstart', hstop', hne', hlen'⟩ := offsets_of_found hg
    rw [Spot.hiddenStop, hends _ ‹_›, byteLength_nil, Nat.add_zero] at hlen hlen' hlt
    obtain ⟨-, -, hmost⟩ := beforeStart_spec content f.start (by omega)
    obtain ⟨-, -, hleast⟩ := afterEnd_spec content f.stop
    rcases hapart f hf g hg with ⟨heq, heq'⟩ | hnear | hnear
    · rcases hshown with ⟨-, hn⟩ | ⟨hn, -⟩ <;> omega
    · have hcut := hleast g.start hstart' (by omega)
      rcases hshown with ⟨-, hn⟩ | ⟨-, hn⟩ <;> omega
    · have hcut := hmost g.stop hstop' (by omega)
      rcases hshown with ⟨hn, -⟩ | ⟨hn, -⟩ <;> omega

/-! ### Two texts -/

/-- What is reported of a match, without its excerpt. -/
def Spot.span (f : Spot) : Str × ℕ × ℕ := (f.rule.name, f.start, f.stop)

/-- The second text differs from the first only inside what is hidden there: they have the same
length, the matches have the same places, and a slice without a hidden byte is the same in both. -/
structure DifferInside (S : Scanner) (content content' : Str) : Prop where
  /-- The length. -/
  length : byteLength content = byteLength content'
  /-- The matches. -/
  spans : (found S content).map Spot.span = (found S content').map Spot.span
  /-- The slices. -/
  slices : ∀ a b, a < b → (∀ n, a ≤ n → n < b → ¬ Hidden S content n) →
    sliceBytes a b content = sliceBytes a b content'

/-- More text behind what covers the context does not matter. -/
theorem coverBytes_append_congr {n : ℕ} {w r r' : Str} (h : coverBytes n (w ++ r) = w)
    (hnil : r = [] → r' = []) : coverBytes n (w ++ r') = w := by
  by_cases hr : r = []
  · rw [hnil hr]
    rwa [hr] at h
  · induction w generalizing n with
    | nil =>
      obtain ⟨c, t, rfl⟩ := List.exists_cons_of_ne_nil hr
      cases n with
      | zero => cases r' <;> rfl
      | succ n => cases h
    | cons c w ih =>
      cases n with
      | zero => cases h
      | succ n => exact congrArg (c :: ·) (ih (List.cons.inj h).2)

theorem eq_nil_of_byteLength {s : Str} (h : byteLength s = 0) : s = [] := by
  cases s with
  | nil => rfl
  | cons c s =>
    have hc := c.utf8Size_pos
    rw [byteLength_cons] at h
    omega

theorem eq_of_append_eq {p q s t : Str} (h : p ++ s = q ++ t)
    (hlen : byteLength p = byteLength q) : p = q ∧ s = t := by
  have htake := takeBytes_append q t
  rw [← h, ← hlen, takeBytes_append] at htake
  obtain rfl := Option.some.inj htake
  exact ⟨rfl, List.append_cancel_left h⟩

namespace DifferInside

variable {content' : Str}

theorem coverBytes_before (h : DifferInside S content content') {p s p' s' : Str}
    (hp : content = p ++ s) (hp' : content' = p' ++ s') (hlen : byteLength p = byteLength p')
    (hhidden : ∀ n, beforeStart content (byteLength p) ≤ n → n < byteLength p →
      ¬ Hidden S content n) :
    coverBytes contextBytes p'.reverse = coverBytes contextBytes p.reverse := by
  obtain ⟨r, hcover, henough, -⟩ := exists_eq_append_coverBytes contextBytes p.reverse
  have hslice := slice_before p s
  have hstart := beforeStart_append p s
  rw [← hp] at hslice hstart
  have htake : coverBytes contextBytes (coverBytes contextBytes p.reverse ++ r) =
      coverBytes contextBytes p.reverse := congrArg _ hcover.symm
  have hplen := congrArg byteLength hcover
  generalize coverBytes contextBytes p.reverse = w at *
  rw [byteLength_reverse, byteLength_append] at hplen
  by_cases hw : byteLength w = 0
  · -- then there is nothing before it
    have hcontext : 0 < contextBytes := by decide
    obtain rfl : r = [] := henough.resolve_right (by omega)
    rw [eq_nil_of_byteLength hw, eq_nil_of_byteLength (s := p') (by rw [← hlen, hplen, hw]; rfl)]
    rfl
  · rw [h.slices _ _ (by omega) hhidden] at hslice
    obtain ⟨q, u, heq, hq, hqw⟩ := sliceBytes_eq_some.1 hslice
    rw [hp', ← List.append_assoc] at heq
    obtain ⟨rfl, -⟩ := eq_of_append_eq heq (by rw [byteLength_append]; omega)
    rw [List.reverse_append, List.reverse_reverse]
    refine coverBytes_append_congr htake fun hr => ?_
    rw [hr, byteLength_nil] at hplen
    rw [eq_nil_of_byteLength (s := q) (by omega), List.reverse_nil]

theorem coverBytes_after (h : DifferInside S content content') {p s p' s' : Str}
    (hp : content = p ++ s) (hp' : content' = p' ++ s') (hlen : byteLength p = byteLength p')
    (hhidden : ∀ n, byteLength p ≤ n → n < afterEnd content (byteLength p) →
      ¬ Hidden S content n) :
    coverBytes contextBytes s' = coverBytes contextBytes s := by
  obtain ⟨r, hcover, henough, -⟩ := exists_eq_append_coverBytes contextBytes s
  have hslice := slice_after p s
  have hend := afterEnd_append p s
  rw [← hp] at hslice hend
  have htake : coverBytes contextBytes (coverBytes contextBytes s ++ r) =
      coverBytes contextBytes s := congrArg _ hcover.symm
  have hslen := congrArg byteLength hcover
  have hlength := h.length
  rw [hp, hp', byteLength_append, byteLength_append] at hlength
  generalize coverBytes contextBytes s = w at *
  rw [byteLength_append] at hslen
  by_cases hw : byteLength w = 0
  · -- then there is nothing behind it
    have hcontext : 0 < contextBytes := by decide
    obtain rfl : r = [] := henough.resolve_right (by omega)
    rw [byteLength_nil] at hslen
    rw [eq_nil_of_byteLength hw, eq_nil_of_byteLength (s := s') (by omega)]
    rfl
  · rw [h.slices _ _ (by omega) hhidden] at hslice
    obtain ⟨q, u, heq, hq, hqw⟩ := sliceBytes_eq_some.1 hslice
    rw [hp'] at heq
    obtain ⟨rfl, rfl⟩ := eq_of_append_eq heq (by omega)
    refine coverBytes_append_congr htake fun hr => ?_
    rw [hr, byteLength_nil] at hslen
    rw [byteLength_append] at hlength
    exact eq_nil_of_byteLength (by omega)

theorem report_eq (h : DifferInside S content content') (hconceals : Conceals S content)
    {f f' : Spot} (hf : f ∈ found S content) (hf' : f' ∈ found S content')
    (hspan : f.span = f'.span) : f.report = f'.report := by
  obtain ⟨htext, -⟩ := text_of_found hf
  obtain ⟨htext', -⟩ := text_of_found hf'
  simp only [Spot.span, Prod.mk.injEq] at hspan
  obtain ⟨hname, hstart, hstop⟩ := hspan
  have hbefore := h.coverBytes_before htext htext' hstart fun n hle hlt =>
    hconceals f hf n (.inl ⟨hle, hlt⟩)
  rw [← List.append_assoc] at htext htext'
  have hlen : byteLength (f.place.before ++ f.place.text) =
      byteLength (f'.place.before ++ f'.place.text) := by
    rw [byteLength_append, byteLength_append]
    exact hstop
  have hafter := h.coverBytes_after htext htext' hlen fun n hle hlt => by
    rw [byteLength_append] at hle hlt
    exact hconceals f hf n (.inr ⟨hle, hlt⟩)
  rw [Spot.report, Spot.report, hname, hstart, hstop, redactedExcerpt, redactedExcerpt, hbefore,
    hafter]

/-- **When no excerpt shows a byte of a secret, the findings do not depend on the secrets.** -/
theorem scan_eq (h : DifferInside S content content') (hconceals : Conceals S content) :
    scan S content = scan S content' := by
  have hlen := congrArg List.length h.spans
  rw [List.length_map, List.length_map] at hlen
  rw [scan_eq_map, scan_eq_map]
  refine List.ext_getElem (by rw [List.length_map, List.length_map, hlen]) fun i hi hi' => ?_
  rw [List.length_map] at hi hi'
  rw [List.getElem_map, List.getElem_map]
  refine h.report_eq hconceals (List.getElem_mem hi) (List.getElem_mem hi') ?_
  have hspan := congrArg (·[i]?) h.spans
  rw [List.getElem?_map, List.getElem?_map, List.getElem?_eq_getElem hi,
    List.getElem?_eq_getElem hi'] at hspan
  exact Option.some.inj hspan

end DifferInside

end Secrets

end Wkp
