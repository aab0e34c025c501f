import Wkp.Core.Merge
import Wkp.Lib.Trace

/-!
# What a clean merge keeps

Key by key: `Key.get` is the value of a frontmatter key in a file, and `Key.Keeps` says when a
clean merge carries a change of it that one side made alone.

* `Merge.oneSided_merge_iff` : the merge keeps such a change exactly under `Key.Keeps`.
* `Merge.body_merge_ne` : no clean merge gives the selected body, and over a run of clean merges
  between devices a body that no device edited grows.
-/

namespace Wkp

open Rust Frontmatter ThreeWay

/-! ### The keys of a file -/

/-- The keys that the parser reads into a field. -/
def modelledKeys : List Str :=
  ["title".toList, "type".toList, "scope".toList, "workspace".toList, "visibility".toList,
    "provenance".toList, "confidence".toList, "expires".toList, "tokens".toList, "tags".toList,
    "refs".toList, "updated".toList, "actor".toList, "session".toList, "source".toList]

/-- The text between the delimiters, when there is a block. -/
def blockOf (input : Str) : Option Str :=
  ((stripOpeningDelimiter input).bind splitAtClosingDelimiter).map Prod.fst

/-- The top-level keys of a block as the parser cuts it, each with its inline value and the lines
indented under it. -/
def entriesLoop : ℕ → List Line → List (Str × Str × List Line)
  | 0, _ => []
  | _ + 1, [] => []
  | fuel + 1, line :: rest =>
    if line.indent ≠ 0 then entriesLoop fuel rest
    else match splitKeyValue line.content with
      | none => entriesLoop fuel rest
      | some (key, value) =>
        if value = [] then
          (key, value, rest.takeWhile fun l => 0 < l.indent) ::
            entriesLoop fuel (rest.dropWhile fun l => 0 < l.indent)
        else (key, value, []) :: entriesLoop fuel rest

/-- The top-level keys of a file. -/
def entries (input : Str) : List (Str × Str × List Line) :=
  match blockOf input with
  | none => []
  | some block => entriesLoop (logicalLines block).length (logicalLines block)

/-- What a file holds at one key, occurrence by occurrence. -/
def entriesAt (name input : Str) : List (Str × List Line) :=
  ((entries input).filter (·.1 = name)).map Prod.snd

/-- A frontmatter key with a value of its own: every key but the tags, the date of the last
update and the provenance, which have their own merge rules. -/
inductive Key
  | title | itemType | scope | workspace | visibility | confidence | expires | refs | tokens
  /-- A key that the parser accepts and does not model. -/
  | unmodelled (name : Str) (h : name ∉ modelledKeys)

/-- The type of the value at a key. -/
def Key.Value : Key → Type
  | title | workspace | expires | tokens => Option Str
  | itemType => Option ItemType
  | scope => Option Scope
  | visibility => Option Visibility
  | confidence => Option Confidence
  | refs => List Str
  | unmodelled _ _ => List (Str × List Line)

/-- The value of a key in a file. -/
def Key.get (input : Str) : (k : Key) → k.Value
  | title => (parse input).frontmatter.title
  | itemType => (parse input).frontmatter.itemType
  | scope => (parse input).frontmatter.scope
  | workspace => (parse input).frontmatter.workspace
  | visibility => (parse input).frontmatter.visibility
  | confidence => (parse input).frontmatter.confidence
  | expires => (parse input).frontmatter.expires
  | refs => (parse input).frontmatter.refs
  | tokens => (parse input).frontmatter.tokensRaw
  | unmodelled name _ => entriesAt name input

/-- When a clean merge carries a change of the key that one side made alone.  A text that is
rendered with `{:?}` must have nothing to escape, and one that is rendered as it is no quotes to
lose; `refs` and `tokens` must not be changed by theirs, and a key that is not modelled must not
be there at all. -/
def Key.Keeps (T : CharTables) (base ours theirs : Str) : Key → Prop
  | title => Handed (fun v : Option Str => ∀ s ∈ v, ∀ c ∈ s, Plain T c)
      (title.get base) (title.get ours) (title.get theirs)
  | expires => Handed (fun v : Option Str => ∀ s ∈ v, ∀ c ∈ s, Plain T c)
      (expires.get base) (expires.get ours) (expires.get theirs)
  | itemType => Handed (fun v : Option ItemType => ∀ t ∈ v, Unquoted t.display)
      (itemType.get base) (itemType.get ours) (itemType.get theirs)
  | scope => Handed (fun v : Option Scope => ∀ s ∈ v, Unquoted s.display)
      (scope.get base) (scope.get ours) (scope.get theirs)
  | workspace => Handed (fun v : Option Str => ∀ s ∈ v, Unquoted s)
      (workspace.get base) (workspace.get ours) (workspace.get theirs)
  | visibility => Handed (fun v : Option Visibility => ∀ s ∈ v, Unquoted s.display)
      (visibility.get base) (visibility.get ours) (visibility.get theirs)
  | confidence => Handed (fun v : Option Confidence => ∀ s ∈ v, Unquoted s.display)
      (confidence.get base) (confidence.get ours) (confidence.get theirs)
  | refs => (refs.get ours = refs.get base →
        reparseList (parse ours).frontmatter.refs = refs.get theirs) ∧
      (refs.get theirs = refs.get base →
        reparseList (parse ours).frontmatter.refs = refs.get ours)
  | tokens => (tokens.get ours = tokens.get base →
        (parse ours).frontmatter.tokensRaw.bind reparseText = tokens.get theirs) ∧
      (tokens.get theirs = tokens.get base →
        ∀ s ∈ (parse ours).frontmatter.tokensRaw, Unquoted s)
  | unmodelled name _ => (entriesAt name ours = entriesAt name base → entriesAt name theirs = []) ∧
      (entriesAt name theirs = entriesAt name base → entriesAt name ours = [])

/-! ### The keys of a rendered file -/

theorem key_of_mem_entriesLoop {n : ℕ} {ls : List Line} {e : Str × Str × List Line}
    (h : e ∈ entriesLoop n ls) :
    ∃ l ∈ ls, l.indent = 0 ∧ ∃ v, splitKeyValue l.content = some (e.1, v) := by
  induction n generalizing ls with
  | zero => simp [entriesLoop] at h
  | succ n ih =>
    cases ls with
    | nil => simp [entriesLoop] at h
    | cons line rest =>
      -- an entry of the rest stems from a line of the rest
      have later : ∀ ls' : List Line, ls'.Sublist rest → e ∈ entriesLoop n ls' →
          ∃ l ∈ line :: rest, l.indent = 0 ∧ ∃ v, splitKeyValue l.content = some (e.1, v) := by
        intro ls' hsub he
        obtain ⟨l, hl, hkv⟩ := ih he
        exact ⟨l, List.mem_cons_of_mem _ (hsub.subset hl), hkv⟩
      rw [entriesLoop] at h
      split_ifs at h with hi
      · exact later _ (List.Sublist.refl _) h
      · cases hkv : splitKeyValue line.content with
        | none =>
          rw [hkv] at h
          exact later _ (List.Sublist.refl _) h
        | some kv =>
          obtain ⟨key, value⟩ := kv
          have here : ∃ l ∈ line :: rest, l.indent = 0 ∧
              ∃ v, splitKeyValue l.content = some (key, v) :=
            ⟨line, List.mem_cons_self, not_not.1 hi, value, hkv⟩
          rw [hkv] at h
          dsimp only at h
          split_ifs at h
          · rcases List.mem_cons.1 h with rfl | h
            · exact here
            · exact later _ (List.dropWhile_sublist _) h
          · rcases List.mem_cons.1 h with rfl | h
            · exact here
            · exact later _ (List.Sublist.refl _) h

theorem key_of_mem_fieldLines {fields : List (Str × Option Str)} {l : Line} {k v : Str}
    (hk : ∀ f ∈ fields, keyOk f.1 = true) (hl : l ∈ fieldLines fields)
    (hkv : splitKeyValue l.content = some (k, v)) : k ∈ fields.map Prod.fst := by
  obtain ⟨f, hf, hl⟩ := List.mem_flatMap.1 hl
  obtain ⟨s, -, rfl⟩ := Option.map_eq_some_iff.1 (Option.mem_toList.1 hl)
  rw [splitKeyValue_lineOf (hk f hf)] at hkv
  obtain ⟨rfl, -⟩ : f.1 = k ∧ _ := by simpa using hkv
  exact List.mem_map_of_mem hf

theorem mem_modelledKeys_of_render {T : CharTables} {fm : Frontmatter} {l : Line} {k v : Str}
    (hl : l ∈ (renderLines T fm).filterMap logicalLine) (hi : l.indent = 0)
    (hkv : splitKeyValue l.content = some (k, v)) : k ∈ modelledKeys := by
  rw [filterMap_renderLines] at hl
  rcases List.mem_append.1 hl with hl | hl
  · have hmem := key_of_mem_fieldLines (keyOk_headFields T fm) hl hkv
    exact (show (headFields T fm).map Prod.fst ⊆ modelledKeys by
      simp only [headFields, List.map_cons, List.map_nil]; decide) hmem
  rcases List.mem_append.1 hl with hl | hl
  · rw [provenanceBlock] at hl
    split_ifs at hl
    · rcases List.mem_cons.1 hl with rfl | hl
      · rw [show splitKeyValue "provenance:".toList = some ("provenance".toList, []) by decide]
          at hkv
        obtain ⟨rfl, -⟩ : "provenance".toList = k ∧ _ := by simpa using hkv
        decide
      · rw [indent_of_mem_provenanceChildren hl] at hi
        cases hi
    · cases hl
  · have hmem := key_of_mem_fieldLines (keyOk_tailFields T fm) hl hkv
    exact (show (tailFields T fm).map Prod.fst ⊆ modelledKeys by
      simp only [tailFields, List.map_cons, List.map_nil]; decide) hmem

theorem entriesAt_render {T : CharTables} {fm : Frontmatter} (h : LineSafe fm) (rest : Str)
    {name : Str} (hname : name ∉ modelledKeys) : entriesAt name (render T fm ++ rest) = [] := by
  rw [entriesAt, List.map_eq_nil_iff, List.filter_eq_nil_iff]
  intro e he hkey
  rw [entries, blockOf, split_render h, Option.map_some] at he
  dsimp only at he
  rw [logicalLines_render h] at he
  obtain ⟨l, hl, hi, v, hkv⟩ := key_of_mem_entriesLoop he
  obtain rfl : e.1 = name := by simpa using hkey
  exact hname (mem_modelledKeys_of_render hl hi hkv)

namespace Merge

/-! ### One-sided changes -/

section OneSided

variable (T : CharTables) {base ours theirs : Str}

theorem entriesAt_merge (h : ¬ Diverges base ours theirs) {name : Str}
    (hname : name ∉ modelledKeys) : entriesAt name (merge T base ours theirs) = [] := by
  rw [merge_of_not_diverges T h]
  exact entriesAt_render ((merged_mergedOf h).lineSafe (parsed_parse ours).lineSafe
    (parsed_parse theirs).lineSafe) _ hname

theorem reparse_tokensRaw_mergedOf (h : ¬ Diverges base ours theirs) :
    (reparse T (mergedOf base ours theirs)).tokensRaw =
      (parse ours).frontmatter.tokensRaw.bind reparseText := by
  have hm := merged_mergedOf h
  rw [reparse]
  dsimp only
  rw [tokensText, hm.tokensRaw, hm.tokens, (parsed_parse ours).tokens]
  cases (parse ours).frontmatter.tokensRaw <;> rfl

/-- **A clean merge keeps a change made on one side only exactly when the key says so.** -/
theorem oneSided_merge_iff (h : ¬ Diverges base ours theirs) (k : Key) :
    OneSided (k.get base) (k.get ours) (k.get theirs) (k.get (merge T base ours theirs)) ↔
      k.Keeps T base ours theirs := by
  have hm := merged_mergedOf h
  have hparse := parse_merge T h
  have ho := parsed_parse ours
  have ht := parsed_parse theirs
  -- the value that the rule picks is written and read again; a key keeps what survives that
  cases k with
  | title =>
    simp only [Key.get, Key.Keeps, hparse]
    refine oneSided_transcribe_iff (fun v => v.bind fun s => reparseText (debug T s))
      hm.title ?_ ?_
    · exact ho.reparse_title_iff T
    · exact ht.reparse_title_iff T
  | itemType =>
    simp only [Key.get, Key.Keeps, hparse]
    refine oneSided_transcribe_iff
      (fun v => (v.bind fun t : ItemType => reparseText t.display).map ItemType.parse)
      hm.itemType ?_ ?_
    · exact ho.reparse_itemType_iff T
    · exact ht.reparse_itemType_iff T
  | scope =>
    simp only [Key.get, Key.Keeps, hparse]
    refine oneSided_transcribe_iff
      (fun v => (v.bind fun s : Scope => reparseText s.display).map Scope.parse)
      hm.scope ?_ ?_
    · exact ho.reparse_scope_iff T
    · exact ht.reparse_scope_iff T
  | workspace =>
    simp only [Key.get, Key.Keeps, hparse]
    refine oneSided_transcribe_iff (fun v => v.bind reparseText)
      hm.workspace ?_ ?_
    · exact ho.reparse_workspace_iff T
    · exact ht.reparse_workspace_iff T
  | visibility =>
    simp only [Key.get, Key.Keeps, hparse]
    refine oneSided_transcribe_iff
      (fun v => (v.bind fun w : Visibility => reparseText w.display).map Visibility.parse)
      hm.visibility ?_ ?_
    · exact ho.reparse_visibility_iff T
    · exact ht.reparse_visibility_iff T
  | confidence =>
    simp only [Key.get, Key.Keeps, hparse]
    refine oneSided_transcribe_iff
      (fun v => (v.bind fun c : Confidence => reparseText c.display).map Confidence.parse)
      hm.confidence ?_ ?_
    · exact ho.reparse_confidence_iff T
    · exact ht.reparse_confidence_iff T
  | expires =>
    simp only [Key.get, Key.Keeps, hparse]
    refine oneSided_transcribe_iff (fun v => v.bind fun s => reparseText (debug T s))
      hm.expires ?_ ?_
    · exact ho.reparse_expires_iff T
    · exact ht.reparse_expires_iff T
  | refs =>
    -- references and tokens are those of ours, whatever theirs has
    simp only [Key.get, Key.Keeps, hparse, reparse, hm.refs]
    rfl
  | tokens =>
    simp only [Key.get, Key.Keeps, hparse, reparse_tokensRaw_mergedOf T h, OneSided,
      ← ho.reparse_tokensRaw_iff]
    exact Iff.rfl
  | unmodelled name hname =>
    simp only [Key.get, Key.Keeps, entriesAt_merge T h hname, OneSided]
    exact and_congr (imp_congr_right fun _ => eq_comm) (imp_congr_right fun _ => eq_comm)

end OneSided

/-- A document with no references, and the same with one. -/
def exampleBase : Str := "---\ntitle: a\n---\nbody\n".toList

/-- `exampleBase` with a reference added. -/
def exampleRefs : Str := "---\ntitle: a\nrefs: [x]\n---\nbody\n".toList

theorem oneSided_merge_iff_exampleRefs : ¬ Diverges exampleBase exampleBase exampleRefs ∧
    (OneSided (Key.refs.get exampleBase) (Key.refs.get exampleBase) (Key.refs.get exampleRefs)
      (Key.refs.get (merge .asciiOnly exampleBase exampleBase exampleRefs)) ↔
      Key.refs.Keeps .asciiOnly exampleBase exampleBase exampleRefs) :=
  ⟨by decide +kernel, oneSided_merge_iff .asciiOnly (by decide +kernel) .refs⟩

/-- A reference that theirs adds alone is lost. -/
theorem merge_loses_refs : ¬ ∀ (T : CharTables) (base ours theirs : Str),
    ¬ Diverges base ours theirs → ∀ k : Key,
      OneSided (k.get base) (k.get ours) (k.get theirs) (k.get (merge T base ours theirs)) := by
  intro h
  have href : (parse (merge .asciiOnly exampleBase exampleBase exampleRefs)).frontmatter.refs =
      (parse exampleRefs).frontmatter.refs :=
    (h .asciiOnly exampleBase exampleBase exampleRefs (by decide +kernel) .refs).1 rfl
  exact absurd href (by decide +kernel)

/-! ### The body -/

theorem not_diverges_self (base ours : Str) : ¬ Diverges base ours ours := by
  have hne : ∀ {α : Type} (b o : α), ¬ Conflict b o o := fun b o h => h.2.2 rfl
  simp only [Diverges, FieldConflict, hne, or_self, not_false_eq_true]

theorem body_merge (T : CharTables) {base ours theirs : Str} (h : ¬ Diverges base ours theirs) :
    (parse (merge T base ours theirs)).body =
      '\n' :: selectBody (parse base).body (parse ours).body (parse theirs).body := by
  rw [parse_merge T h]

theorem selectBody_mem (base ours theirs : Str) :
    selectBody base ours theirs = ours ∨ selectBody base ours theirs = theirs := by
  rw [selectBody]
  split_ifs
  · exact .inl rfl
  · exact .inr rfl

/-- One clean merge between devices that each hold a copy of a document: device `i.1` merges the
copy of device `i.2.1` into its own, with the ancestor `i.2.2`. -/
def CleanMerge {δ : Type} [DecidableEq δ] (T : CharTables) (copies : δ → Str) (i : δ × δ × Str)
    (copies' : δ → Str) : Prop :=
  ¬ Diverges i.2.2 (copies i.1) (copies i.2.1) ∧
    copies' = Function.update copies i.1 (merge T i.2.2 (copies i.1) (copies i.2.1))

section Run

variable {δ : Type} [DecidableEq δ] {T : CharTables} {x : Str}

/-- Every copy has the body `x` under some line feeds, and under at least one where a merge was
made. -/
def Padded (x : Str) (merged : List δ) (copies : δ → Str) : Prop :=
  ∀ d, ∃ k, (parse (copies d)).body = List.replicate k '\n' ++ x ∧ (d ∈ merged → 0 < k)

theorem Padded.step {merged : List δ} {copies copies' : δ → Str} {i : δ × δ × Str}
    (h : Padded x merged copies) (hstep : CleanMerge T copies i copies') :
    Padded x (i.1 :: merged) copies' := by
  obtain ⟨hclean, rfl⟩ := hstep
  intro d
  by_cases hd : d = i.1
  · subst hd
    have hbody := body_merge T hclean
    have hsel : ∃ k, selectBody (parse i.2.2).body (parse (copies i.1)).body
        (parse (copies i.2.1)).body = List.replicate k '\n' ++ x := by
      rcases selectBody_mem (parse i.2.2).body (parse (copies i.1)).body
        (parse (copies i.2.1)).body with hs | hs
      · obtain ⟨k, hk, -⟩ := h i.1
        exact ⟨k, hs.trans hk⟩
      · obtain ⟨k, hk, -⟩ := h i.2.1
        exact ⟨k, hs.trans hk⟩
    obtain ⟨k, hk⟩ := hsel
    refine ⟨k + 1, ?_, fun _ => k.succ_pos⟩
    rw [Function.update_self, hbody, hk, List.replicate_succ, List.cons_append]
  · obtain ⟨k, hk, hpos⟩ := h d
    refine ⟨k, ?_, fun hmem => hpos ((List.mem_cons.1 hmem).resolve_left hd)⟩
    rw [Function.update_of_ne hd, hk]

/-- Along a run every device that merged has line feeds in front of the body. -/
theorem Padded.run {merged : List δ} {copies copies' : δ → Str} {is : List (δ × δ × Str)}
    (run : Trace.Run (CleanMerge T) copies is copies') (h : Padded x merged copies) :
    Padded x ((is.map Prod.fst).reverse ++ merged) copies' := by
  induction run generalizing merged with
  | nil => exact h
  | cons hstep _ ih =>
    have := ih (h.step hstep)
    rwa [List.map_cons, List.reverse_cons, List.append_assoc]

theorem body_run {copies copies' : δ → Str} {is : List (δ × δ × Str)}
    (run : Trace.Run (CleanMerge T) copies is copies') (h : ∀ d, (parse (copies d)).body = x)
    {d : δ} (hd : d ∈ is.map Prod.fst) : (parse (copies' d)).body ≠ x := by
  have hpad : Padded x [] copies := fun d => ⟨0, h d, fun hm => by simp at hm⟩
  obtain ⟨k, hk, hpos⟩ := hpad.run run d
  have hlen := hpos (by simpa using hd)
  intro hx
  have := congrArg List.length (hx.symm.trans hk)
  simp at this
  omega

end Run

/-- **No clean merge gives the selected body**, a merge of a document with itself changes its
body, and in every run of clean merges between devices that start with one body, every device
that merged ends with another. -/
theorem body_merge_ne (T : CharTables) :
    (∀ base ours theirs : Str, ¬ Diverges base ours theirs →
      (parse (merge T base ours theirs)).body ≠
        selectBody (parse base).body (parse ours).body (parse theirs).body) ∧
    (∀ base ours : Str, (parse (merge T base ours ours)).body ≠ (parse ours).body) ∧
    (∀ (δ : Type) [DecidableEq δ] (copies copies' : δ → Str) (is : List (δ × δ × Str)) (x : Str),
      Trace.Run (CleanMerge T) copies is copies' → (∀ d, (parse (copies d)).body = x) →
        ∀ d ∈ is.map Prod.fst, (parse (copies' d)).body ≠ x) := by
  have hne : ∀ s : Str, '\n' :: s ≠ s := fun s h => by simpa using congrArg List.length h
  refine ⟨fun base ours theirs h => ?_, fun base ours => ?_,
    fun δ _ copies copies' is x run hx d hd => body_run run hx hd⟩
  · rw [body_merge T h]
    exact hne _
  · rw [body_merge T (not_diverges_self base ours)]
    rcases selectBody_mem (parse base).body (parse ours).body (parse ours).body with hs | hs <;>
      rw [hs] <;> exact hne _

theorem body_merge_ne_exampleBase :
    (parse (merge .asciiOnly exampleBase exampleBase exampleBase)).body ≠
      (parse exampleBase).body :=
  (body_merge_ne .asciiOnly).2.1 exampleBase exampleBase

/-- Merging a document with itself does not give its body. -/
theorem merge_changes_body : ¬ ∀ (T : CharTables) (base ours theirs : Str),
    ¬ Diverges base ours theirs → (parse (merge T base ours theirs)).body =
      selectBody (parse base).body (parse ours).body (parse theirs).body := fun h =>
  absurd (h .asciiOnly exampleBase exampleBase exampleBase (by decide +kernel)) (by decide +kernel)

end Merge

end Wkp
