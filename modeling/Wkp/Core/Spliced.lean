import Wkp.Core.RoundTrip

/-!
# Text spliced into a frontmatter block

* `Frontmatter.topKeys` : the keys that a text gives when it stands in a block.
* `Frontmatter.parseLines_append` : a block is read part by part.
* `Frontmatter.splitAtClosingDelimiter_of_free`, `Frontmatter.length_lt_of_not_free` : a text with a line
  that closes the block early leaves more to the body, and only such a text does.
* `Frontmatter.exists_set_of_topKeys` : a text whose keys are all the same sets that field or none.
-/

namespace Wkp

open Rust

namespace Frontmatter

/-! ### Keys -/

/-- The key that a line gives at the top level. -/
def topKey (line : Line) : Option Str :=
  if line.indent = 0 then (splitKeyValue line.content).map Prod.fst else none

/-- The keys that a text gives at the top level. -/
def topKeys (block : Str) : List Str := (logicalLines block).filterMap topKey

/-- The keys in the frontmatter block of a file. -/
def keysOf (input : Str) : List Str :=
  match (stripOpeningDelimiter input).bind splitAtClosingDelimiter with
  | none => []
  | some (block, _) => topKeys block

theorem logicalLines_append_lf (a b : Str) :
    logicalLines (a ++ '\n' :: b) = logicalLines (a ++ ['\n']) ++ logicalLines b := by
  rw [logicalLines, lines, splitInclusive_append_lf, List.map_append, List.filterMap_append]
  rfl

theorem logicalLines_flatMap_lf (ps : List Str) : logicalLines (ps.flatMap (· ++ ['\n'])) =
    ps.flatMap fun p => logicalLines (p ++ ['\n']) := by
  induction ps with
  | nil => rfl
  | cons p ps ih =>
    rw [List.flatMap_cons, List.flatMap_cons, ← ih, List.append_assoc]
    exact logicalLines_append_lf p _

theorem exists_flatMap_lf {ps : List Str} (h : ps ≠ []) :
    ∃ block, ps.flatMap (· ++ ['\n']) = block ++ ['\n'] := by
  cases ps using List.reverseRecOn with
  | nil => exact absurd rfl h
  | append_singleton ps p _ =>
    refine ⟨ps.flatMap (· ++ ['\n']) ++ p, ?_⟩
    rw [List.flatMap_append, List.flatMap_cons, List.flatMap_nil, List.append_nil,
      List.append_assoc]

theorem topKey_lineOf {key : Str} (hk : keyOk key = true) (s : Str) :
    topKey (lineOf 0 key s) = some key := by
  have hi : (lineOf 0 key s).indent = 0 := rfl
  rw [topKey, if_pos hi, splitKeyValue_lineOf hk]
  rfl

/-- The text of a field, with all that its value holds. -/
def fieldText (key : String) (value : Str) : Str := keyLine key value ++ ['\n']

theorem exists_firstLine (value : Str) :
    ∃ s rest, '\n' ∉ s ∧ value ++ ['\n'] = s ++ '\n' :: rest := by
  induction value with
  | nil => exact ⟨[], [], List.not_mem_nil, rfl⟩
  | cons c value ih =>
    by_cases hc : c = '\n'
    · exact ⟨[], value ++ ['\n'], List.not_mem_nil, by rw [hc]; rfl⟩
    · obtain ⟨s, rest, hs, heq⟩ := ih
      exact ⟨c :: s, rest, by simp [Ne.symm hc, hs], congrArg (c :: ·) heq⟩

theorem logicalLines_fieldText {key : String} (hk : keyOk key.toList = true) (hlf : '\n' ∉ key.toList)
    (value : Str) : ∃ s ls, logicalLines (fieldText key value) = lineOf 0 key.toList s :: ls := by
  obtain ⟨s, rest, hs, hvalue⟩ := exists_firstLine value
  have hline : ∀ l ∈ [keyLine key s], '\n' ∉ l := by
    intro l hl
    rw [List.mem_singleton.1 hl, keyLine_eq]
    simp only [List.mem_append, List.mem_cons, not_or]
    exact ⟨hlf, by decide, by decide, hs⟩
  have hfirst := logicalLines_flatMap hline
  rw [List.flatMap_cons, List.flatMap_nil, List.append_nil] at hfirst
  refine ⟨s, logicalLines rest, ?_⟩
  calc logicalLines (fieldText key value)
      = logicalLines (keyLine key s ++ '\n' :: rest) := by
        rw [fieldText, keyLine, keyLine, List.append_assoc, hvalue, ← List.append_assoc]
    _ = [keyLine key s].filterMap logicalLine ++ logicalLines rest := by
        rw [logicalLines_append_lf, hfirst]
    _ = lineOf 0 key.toList s :: logicalLines rest := by
        have := filterMap_optLine (n := 0) (k := key.toList) rfl hk (some s)
        rw [show [keyLine key s] = optLine key (some s) from rfl, this]
        rfl

theorem notIndented_fieldText {key : String} (hk : keyOk key.toList = true)
    (hlf : '\n' ∉ key.toList) (value : Str) (rest : List Line) :
    NotIndented (logicalLines (fieldText key value) ++ rest) := by
  obtain ⟨s, ls, h⟩ := logicalLines_fieldText hk hlf value
  rw [h]
  intro l hl
  obtain rfl : lineOf 0 key.toList s = l := by simpa using hl
  rfl

/-! ### Reading a block in parts -/

theorem parseLines_stray {line : Line} (hi : line.indent ≠ 0) (rest : List Line)
    (acc : Frontmatter × List Warning) : parseLines (line :: rest) acc =
      parseLines rest (acc.1, acc.2 ++ [.unexpectedIndented line.content]) := by
  rw [parseLines, List.length_cons, parseBlockLoop, if_pos hi]
  rfl

theorem parseLines_noKey {line : Line} (hi : line.indent = 0)
    (hkv : splitKeyValue line.content = none) (rest : List Line)
    (acc : Frontmatter × List Warning) : parseLines (line :: rest) acc =
      parseLines rest (acc.1, acc.2 ++ [.noKey line.content]) := by
  rw [parseLines, List.length_cons, parseBlockLoop, if_neg (by simp [hi]), hkv]
  rfl

/-- The lines that a line owns are not those of the next part. -/
theorem takeWhile_append_notIndented {rest : List Line} (hrest : NotIndented rest) (ls : List Line) :
    ((ls ++ rest).takeWhile fun l => 0 < l.indent) = (ls.takeWhile fun l => 0 < l.indent) ∧
      ((ls ++ rest).dropWhile fun l => 0 < l.indent) =
        (ls.dropWhile fun l => 0 < l.indent) ++ rest := by
  induction ls with
  | nil => exact takeWhile_notIndented hrest
  | cons l ls ih =>
    by_cases hl : 0 < l.indent
    · simp [hl, ih]
    · simp [hl]

/-- **A block is read part by part**, when the second part does not continue the first. -/
theorem parseLines_append {rest : List Line} (hrest : NotIndented rest) (ls : List Line)
    (acc : Frontmatter × List Warning) :
    parseLines (ls ++ rest) acc = parseLines rest (parseLines ls acc) := by
  induction hn : ls.length using Nat.strong_induction_on generalizing ls acc with
  | _ n ih =>
    cases ls with
    | nil => rfl
    | cons line ls =>
      have hlt : ls.length < n := by
        rw [← hn]
        exact Nat.lt_succ_self _
      rw [List.cons_append]
      by_cases hi : line.indent = 0
      · cases hkv : splitKeyValue line.content with
        | none =>
          rw [parseLines_noKey hi hkv, parseLines_noKey hi hkv]
          exact ih _ hlt ls _ rfl
        | some kv =>
          obtain ⟨key, value⟩ := kv
          by_cases hv : value = []
          · subst hv
            obtain ⟨htake, hdrop⟩ := takeWhile_append_notIndented hrest ls
            rw [parseLines_block hi hkv, parseLines_block hi hkv, htake, hdrop]
            exact ih _ ((List.dropWhile_sublist _).length_le.trans_lt hlt) _ _ rfl
          · rw [parseLines_scalar hi hkv hv, parseLines_scalar hi hkv hv]
            exact ih _ hlt ls _ rfl
      · rw [parseLines_stray hi, parseLines_stray hi]
        exact ih _ hlt ls _ rfl

/-- **A text whose keys are all the same sets that field, or nothing.** -/
theorem exists_set_of_topKeys {key : Str} {set : Option Str → Frontmatter → Frontmatter}
    (hscalar : ∀ fm ws value, applyScalarValue (fm, ws) key value =
      (set (optString (unquote value)) fm, ws))
    (hblock : ∀ fm ws children, applyBlockValue (fm, ws) key children = (fm, ws))
    (hset : ∀ v w fm, set v (set w fm) = set v fm) (ls : List Line)
    (hkeys : ∀ k ∈ ls.filterMap topKey, k = key) :
    ∃ v : Option (Option Str), ∀ fm ws, ∃ ws',
      parseLines ls (fm, ws) = (v.elim fm fun v => set v fm, ws') := by
  induction hn : ls.length using Nat.strong_induction_on generalizing ls with
  | _ n ih =>
    cases ls with
    | nil => exact ⟨none, fun fm ws => ⟨ws, rfl⟩⟩
    | cons line ls =>
      have hlt : ls.length < n := by
        rw [← hn]
        exact Nat.lt_succ_self _
      have hrest : ∀ k ∈ ls.filterMap topKey, k = key := fun k hk =>
        hkeys k ((List.sublist_cons_self line ls).filterMap topKey |>.subset hk)
      -- a line that gives no key only warns
      have hwarn : (∀ acc, ∃ ws', parseLines (line :: ls) acc = parseLines ls (acc.1, ws')) →
          ∃ v : Option (Option Str), ∀ fm ws, ∃ ws',
            parseLines (line :: ls) (fm, ws) = (v.elim fm fun v => set v fm, ws') := by
        intro hskip
        obtain ⟨v, hv⟩ := ih _ hlt ls hrest rfl
        refine ⟨v, fun fm ws => ?_⟩
        obtain ⟨ws₁, h₁⟩ := hskip (fm, ws)
        rw [h₁]
        exact hv fm ws₁
      by_cases hi : line.indent = 0
      · cases hkv : splitKeyValue line.content with
        | none => exact hwarn fun acc => ⟨_, parseLines_noKey hi hkv ls acc⟩
        | some kv =>
          obtain ⟨k, value⟩ := kv
          obtain rfl : k = key := by
            refine hkeys k (List.mem_filterMap.2 ⟨line, List.mem_cons_self, ?_⟩)
            rw [topKey, if_pos hi, hkv]
            rfl
          by_cases hv : value = []
          · subst hv
            obtain ⟨v, hv⟩ := ih _ ((List.dropWhile_sublist _).length_le.trans_lt hlt)
              (ls.dropWhile fun l => decide (0 < l.indent)) (fun k hk => hrest k
                ((List.dropWhile_sublist _).filterMap topKey |>.subset hk)) rfl
            refine ⟨v, fun fm ws => ?_⟩
            rw [parseLines_block hi hkv, hblock]
            exact hv fm ws
          · obtain ⟨v, hv'⟩ := ih _ hlt ls hrest rfl
            refine ⟨some (v.getD (optString (unquote value))), fun fm ws => ?_⟩
            rw [parseLines_scalar hi hkv hv, hscalar]
            obtain ⟨ws', h'⟩ := hv' (set (optString (unquote value)) fm) ws
            refine ⟨ws', h'.trans ?_⟩
            cases v with
            | none => rfl
            | some v => rw [Option.elim_some, hset]; rfl
      · exact hwarn fun acc => ⟨_, parseLines_stray hi ls acc⟩

/-! ### Closing lines -/

/-- No line of the text closes a block. -/
def DelimiterFree (text : Str) : Prop := ∀ l ∈ splitInclusive text, isDelimiterLine l = false

instance (text : Str) : Decidable (DelimiterFree text) :=
  inferInstanceAs (Decidable (∀ l ∈ splitInclusive text, isDelimiterLine l = false))

theorem delimiterFree_append_lf {a b : Str} : DelimiterFree (a ++ '\n' :: b) ↔
    DelimiterFree (a ++ ['\n']) ∧ DelimiterFree b := by
  rw [DelimiterFree, splitInclusive_append_lf, List.forall_mem_append]
  rfl

theorem delimiterFree_flatMap_lf {ps : List Str} : DelimiterFree (ps.flatMap (· ++ ['\n'])) ↔
    ∀ p ∈ ps, DelimiterFree (p ++ ['\n']) := by
  induction ps with
  | nil => exact iff_of_true nofun nofun
  | cons p ps ih =>
    rw [List.flatMap_cons, List.forall_mem_cons, ← ih, List.append_assoc]
    exact delimiterFree_append_lf

theorem InnerLine.delimiterFree {p : Str} (h : InnerLine p) : DelimiterFree (p ++ ['\n']) := by
  have hline : splitInclusive (p ++ ['\n']) = [p ++ ['\n']] := splitInclusive_line h.1 []
  intro l hl
  rw [hline, List.mem_singleton] at hl
  rw [hl]
  exact h.not_isDelimiterLine

theorem splitAtClosingDelimiterLoop_append {ls : List Str}
    (h : ∀ l ∈ ls, isDelimiterLine l = false) {fence : Str} (hfence : isDelimiterLine fence = true)
    (block : Str) (rest : List Str) :
    splitAtClosingDelimiterLoop block (ls ++ fence :: rest) =
      some (block ++ ls.flatten, rest.flatten) := by
  induction ls generalizing block with
  | nil => rw [List.nil_append, splitAtClosingDelimiterLoop, if_pos hfence, List.flatten_nil,
      List.append_nil]
  | cons l ls ih =>
    rw [List.cons_append, splitAtClosingDelimiterLoop, if_neg (by simp [h l List.mem_cons_self]),
      ih (fun l hl => h l (List.mem_cons_of_mem _ hl)), List.flatten_cons, List.append_assoc]

theorem splitInclusive_fence (rest : Str) :
    splitInclusive ("---\n".toList ++ rest) = "---\n".toList :: splitInclusive rest :=
  splitInclusive_line (l := "---".toList) (by decide) rest

theorem splitAtClosingDelimiter_of_free {block : Str} (h : DelimiterFree (block ++ ['\n']))
    (rest : Str) : splitAtClosingDelimiter (block ++ '\n' :: ("---\n".toList ++ rest)) =
      some (block ++ ['\n'], rest) := by
  rw [splitAtClosingDelimiter, splitInclusive_append_lf, splitInclusive_fence,
    splitAtClosingDelimiterLoop_append h (by decide), flatten_splitInclusive,
    flatten_splitInclusive, List.nil_append]

theorem length_lt_of_not_free {block : Str} (h : ¬ DelimiterFree (block ++ ['\n'])) (rest : Str) :
    ∃ block' body, splitAtClosingDelimiter (block ++ '\n' :: ("---\n".toList ++ rest)) =
      some (block', body) ∧ rest.length < body.length := by
  rw [DelimiterFree] at h
  push Not at h
  obtain ⟨l, hl, hclose⟩ := h
  -- the first line that closes the block
  obtain ⟨before, fence, after, hsplit, hbefore, hfence⟩ :
      ∃ before fence after, splitInclusive (block ++ ['\n']) = before ++ fence :: after ∧
        (∀ l ∈ before, isDelimiterLine l = false) ∧ isDelimiterLine fence = true := by
    have hsome : ((splitInclusive (block ++ ['\n'])).find? isDelimiterLine).isSome :=
      List.find?_isSome.2 ⟨l, hl, by simpa using hclose⟩
    obtain ⟨fence, hfind⟩ := Option.isSome_iff_exists.1 hsome
    obtain ⟨hfence, before, after, hsplit, hbefore⟩ := List.find?_eq_some_iff_append.1 hfind
    exact ⟨before, fence, after, hsplit, fun l hl => by simpa using hbefore l hl, hfence⟩
  refine ⟨before.flatten, (after ++ splitInclusive ("---\n".toList ++ rest)).flatten, ?_, ?_⟩
  · rw [splitAtClosingDelimiter, splitInclusive_append_lf, hsplit, List.append_assoc,
      List.cons_append, splitAtClosingDelimiterLoop_append hbefore hfence, List.nil_append]
  · rw [List.flatten_append, flatten_splitInclusive, List.length_append, List.length_append]
    have : "---\n".toList.length = 4 := by decide
    omega

end Frontmatter

end Wkp
