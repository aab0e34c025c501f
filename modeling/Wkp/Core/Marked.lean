import Wkp.Core.Converge
import Wkp.Core.Fenced

/-!
# The conflict marker

The marker says that a merge kept both documents, so no other merge may make one up.

* `Frontmatter.InValue.infix_of_infix_render` : a part of a rendered frontmatter that fits in one
  value is a part of some text of it.
* `Merge.renderConflict_eq` : the fallback holds both documents one after the other.
* `Merge.merge_marked` : **on documents without the marker, the marker is there exactly when the
  merge fell back.**
-/

namespace Wkp

open Rust Frontmatter ThreeWay

namespace Frontmatter

/-- All texts of a frontmatter. -/
def allTexts (fm : Frontmatter) : List Str := texts fm ++ fm.tags ++ fm.refs

theorem mem_allTexts {fm : Frontmatter} {s : Str} :
    s ∈ allTexts fm ↔ s ∈ texts fm ∨ s ∈ fm.tags ∨ s ∈ fm.refs := by
  rw [allTexts, List.mem_append, List.mem_append, or_assoc]

theorem mem_allTexts_applyScalarValue {acc : Frontmatter × List Warning} {key value s : Str}
    (h : s ∈ allTexts (applyScalarValue acc key value).1) :
    s ∈ allTexts acc.1 ∨ s <:+: value := by
  rcases mem_allTexts.1 h with h | h
  · rcases textsFrom_applyScalarValue acc key value s h with h | h
    · exact .inl (mem_allTexts.2 (.inl h))
    · rw [(optString_spec h).1]
      exact .inr (unquote_isInfix value)
  · obtain ⟨fm, ws⟩ := acc
    have hlist := @infix_of_mem_listValue value s
    -- only the two lists can have got an item
    have hitems : (s ∈ fm.tags ∨ s ∈ fm.refs) ∨ s <:+: value := by
      revert h
      refine applyScalarValue_elim (motive := fun r => s ∈ r.1.tags ∨ s ∈ r.1.refs →
        (s ∈ fm.tags ∨ s ∈ fm.refs) ∨ s <:+: value) key .inl .inl .inl .inl .inl .inl .inl .inl
        .inl ?_ ?_ .inl .inl
      · exact fun h => h.elim (fun h => .inr (hlist h)) fun h => .inl (.inr h)
      · exact fun h => h.elim (fun h => .inl (.inl h)) fun h => .inr (hlist h)
    exact hitems.imp_left fun h => mem_allTexts.2 (.inr h)

theorem mem_allTexts_applyProvenanceField {fm : Frontmatter} {key value s : Str}
    (h : s ∈ allTexts { fm with provenance := applyProvenanceField fm.provenance key value }) :
    s ∈ allTexts fm ∨ s = value := by
  have hprov := mem_provenanceTexts_field fm.provenance key value (s := s)
  have hvalue : optString value = some s → s = value := fun h => (optString_spec h).1
  simp only [mem_allTexts, mem_texts] at h ⊢
  tauto

theorem infix_of_mem_allTexts {input : Str} :
    ∀ s ∈ allTexts (parse input).frontmatter, s <:+: input := by
  refine parse_induct (P := fun fm => ∀ s ∈ allTexts fm, s <:+: input) ?_ ?_ ?_ ?_ ?_
  · intro acc key value hacc hvalue s hs
    rcases mem_allTexts_applyScalarValue hs with hs | hs
    · exact hacc s hs
    · exact hs.trans hvalue.1
  · intro fm key value hfm hvalue s hs
    rcases mem_allTexts_applyProvenanceField hs with hs | rfl
    · exact hfm s hs
    · exact (unquote_isInfix value).trans hvalue.1
  · intro fm items hfm hitems s hs
    simp only [mem_allTexts] at hfm hs
    rcases hs with hs | hs | hs
    · exact hfm s (.inl hs)
    · exact (hitems s hs).1.1
    · exact hfm s (.inr (.inr hs))
  · intro fm items hfm hitems s hs
    simp only [mem_allTexts] at hfm hs
    rcases hs with hs | hs | hs
    · exact hfm s (.inl hs)
    · exact hfm s (.inr (.inl hs))
    · exact (hitems s hs).1.1
  · intro s hs
    cases hs

/-! ### Where a part of a rendered frontmatter lies -/

/-- A part that no rendering of several values can hold: it starts with an angle bracket, and has
none of the characters that end a value. -/
structure InValue (m : Str) : Prop where
  angle : ∃ rest, m = '<' :: rest
  comma : ',' ∉ m
  backslash : '\\' ∉ m
  quote : '"' ∉ m
  bracket : ']' ∉ m
  lf : '\n' ∉ m

variable {T : CharTables} {fm : Frontmatter} {m : Str}

theorem InValue.of_keyLine (h : InValue m) {key : String} (hkey : '<' ∉ key.toList) {v : Str}
    (hm : m <:+: keyLine key v) : m <:+: v := by
  obtain ⟨rest, rfl⟩ := h.angle
  refine infix_of_infix_append (a := key.toList ++ ": ".toList) ?_ hm
  rw [List.mem_append, not_or]
  exact ⟨hkey, by decide⟩

theorem InValue.of_debug (h : InValue m) {s : Str} (hm : m <:+: debug T s) : m <:+: s := by
  obtain ⟨rest, rfl⟩ := h.angle
  exact infix_of_infix_debug (by decide) h.backslash h.quote hm

theorem InValue.of_optLine (h : InValue m) {key : String} (hkey : '<' ∉ key.toList)
    {v : Option Str} {l : Str} (hl : l ∈ optLine key v) (hm : m <:+: l) :
    ∃ s, v = some s ∧ m <:+: s := by
  cases v with
  | none => simp [optLine] at hl
  | some s =>
    obtain rfl : l = keyLine key s := by simpa [optLine] using hl
    exact ⟨s, rfl, h.of_keyLine hkey hm⟩

theorem InValue.of_listLine (h : InValue m) {key : String} (hkey : '<' ∉ key.toList)
    {items : List Str} {l : Str} (hl : l ∈ listLine key items) (hm : m <:+: l) :
    ∃ s ∈ items, m <:+: s := by
  rw [listLine] at hl
  split_ifs at hl
  · cases hl
  · rw [List.mem_singleton.1 hl] at hm
    have hm := h.of_keyLine hkey hm
    obtain ⟨rest, rfl⟩ := h.angle
    have hm := infix_of_infix_append (a := ['[']) (by decide) hm
    have hm := (infix_append_cons h.bracket hm).resolve_right (by simp)
    exact infix_of_infix_join h.comma (by decide) hm

theorem InValue.of_tokensText (h : InValue m) {s : Str} (hs : fm.tokensText = some s)
    (hm : m <:+: s) : fm.tokensRaw = some s := by
  rw [tokensText] at hs
  cases ht : fm.tokensRaw with
  | some t =>
    rw [ht] at hs
    exact hs
  | none =>
    rw [ht, Option.none_or] at hs
    obtain ⟨n, -, rfl⟩ := Option.map_eq_some_iff.1 hs
    obtain ⟨rest, rfl⟩ := h.angle
    have hmem : '<' ∈ decimal n := hm.subset List.mem_cons_self
    exact absurd (isDigit_of_mem_decimal hmem) (by decide)

theorem InValue.of_provenanceLines (h : InValue m) {prov : Provenance} {l : Str}
    (hl : l ∈ provenanceLines T prov) (hm : m <:+: l) : ∃ s ∈ provenanceTexts prov, m <:+: s := by
  rw [provenanceLines] at hl
  split_ifs at hl
  · simp only [List.mem_cons, List.mem_append] at hl
    rcases hl with rfl | (hl | hl) | hl
    · obtain ⟨rest, rfl⟩ := h.angle
      exact absurd (hm.subset List.mem_cons_self) (by decide)
    · obtain ⟨s, hs, hm⟩ := h.of_optLine (by decide) hl hm
      obtain ⟨actor, hactor, rfl⟩ := Option.map_eq_some_iff.1 hs
      exact ⟨actor, by simp [provenanceTexts, hactor], h.of_debug hm⟩
    · obtain ⟨s, hs, hm⟩ := h.of_optLine (by decide) hl hm
      obtain ⟨session, hsession, rfl⟩ := Option.map_eq_some_iff.1 hs
      exact ⟨session, by simp [provenanceTexts, hsession], h.of_debug hm⟩
    · obtain ⟨s, hs, hm⟩ := h.of_optLine (by decide) hl hm
      exact ⟨s, by simp [provenanceTexts, hs], hm⟩
  · cases hl

theorem InValue.of_renderLines (h : InValue m) {l : Str} (hl : l ∈ renderLines T fm)
    (hm : m <:+: l) : ∃ s ∈ allTexts fm, m <:+: s := by
  -- a value that is escaped, and one that is written as it is
  have quoted : ∀ (key : String) (v : Option Str), '<' ∉ key.toList →
      (∀ s, v = some s → s ∈ texts fm) → l ∈ optLine key (v.map (debug T)) →
        ∃ s ∈ allTexts fm, m <:+: s := by
    intro key v hkey hv hl
    obtain ⟨s, hs, hm⟩ := h.of_optLine hkey hl hm
    obtain ⟨t, ht, rfl⟩ := Option.map_eq_some_iff.1 hs
    exact ⟨t, mem_allTexts.2 (.inl (hv t ht)), h.of_debug hm⟩
  have bare : ∀ (key : String) (v : Option Str), '<' ∉ key.toList →
      (∀ s, v = some s → m <:+: s → s ∈ texts fm) → l ∈ optLine key v →
        ∃ s ∈ allTexts fm, m <:+: s := by
    intro key v hkey hv hl
    obtain ⟨s, hs, hm⟩ := h.of_optLine hkey hl hm
    exact ⟨s, mem_allTexts.2 (.inl (hv s hs hm)), hm⟩
  simp only [renderLines, List.mem_append, or_assoc] at hl
  rcases hl with hl | hl | hl | hl | hl | hl | hl | hl | hl | hl | hl | hl
  · exact quoted _ _ (by decide) (fun s hs => by rw [mem_texts]; tauto) hl
  · exact bare _ _ (by decide) (fun s hs _ => by rw [mem_texts]; tauto) hl
  · exact bare _ _ (by decide) (fun s hs _ => by rw [mem_texts]; tauto) hl
  · exact bare _ _ (by decide) (fun s hs _ => by rw [mem_texts]; tauto) hl
  · exact bare _ _ (by decide) (fun s hs _ => by rw [mem_texts]; tauto) hl
  · obtain ⟨s, hs, hm⟩ := h.of_provenanceLines hl hm
    exact ⟨s, mem_allTexts.2 (.inl (by rw [mem_texts]; tauto)), hm⟩
  · exact bare _ _ (by decide) (fun s hs _ => by rw [mem_texts]; tauto) hl
  · exact quoted _ _ (by decide) (fun s hs => by rw [mem_texts]; tauto) hl
  · exact bare _ _ (by decide)
      (fun s hs hm => by rw [mem_texts]; have := h.of_tokensText hs hm; tauto) hl
  · obtain ⟨s, hs, hm⟩ := h.of_listLine (by decide) hl hm
    exact ⟨s, mem_allTexts.2 (.inr (.inl hs)), hm⟩
  · obtain ⟨s, hs, hm⟩ := h.of_listLine (by decide) hl hm
    exact ⟨s, mem_allTexts.2 (.inr (.inr hs)), hm⟩
  · exact quoted _ _ (by decide) (fun s hs => by rw [mem_texts]; tauto) hl

theorem render_eq_lines (T : CharTables) (fm : Frontmatter) : render T fm =
    ("---".toList :: (renderLines T fm ++ ["---".toList])).flatMap (· ++ ['\n']) := by
  rw [render, List.flatMap_cons, List.flatMap_append, List.append_assoc]
  rfl

/-- **A part of a rendered frontmatter that fits in one value is a part of some text of it.** -/
theorem InValue.infix_of_infix_render (h : InValue m) (hm : m <:+: render T fm) :
    ∃ s ∈ allTexts fm, m <:+: s := by
  obtain ⟨rest, rfl⟩ := h.angle
  rw [render_eq_lines] at hm
  obtain ⟨l, hl, hm⟩ := infix_of_infix_lines h.lf hm
  rcases List.mem_cons.1 hl with rfl | hl
  · exact absurd (hm.subset List.mem_cons_self) (by decide)
  rcases List.mem_append.1 hl with hl | hl
  · exact h.of_renderLines hl hm
  · rw [List.mem_singleton.1 hl] at hm
    exact absurd (hm.subset List.mem_cons_self) (by decide)

end Frontmatter

namespace Merge

theorem inValue_conflictMarker : InValue conflictMarker where
  angle := ⟨_, rfl⟩
  comma := by decide
  backslash := by decide
  quote := by decide
  bracket := by decide
  lf := by decide

/-! ### The merged frontmatter -/

theorem maxUpdated_mem {ours theirs : Option Str} {s : Str} (h : maxUpdated ours theirs = some s) :
    ours = some s ∨ theirs = some s := by
  cases ours <;> cases theirs <;> simp only [maxUpdated, Option.some.injEq, reduceCtorEq] at h
  · exact .inr (congrArg some h)
  · exact .inl (congrArg some h)
  · split_ifs at h
    · exact .inr (congrArg some h)
    · exact .inl (congrArg some h)

theorem Merged.allTexts {b o t m : Frontmatter} (h : Merged b o t m) {s : Str}
    (hs : s ∈ allTexts m) : s ∈ allTexts o ∨ s ∈ allTexts t := by
  -- a value that was picked is that of a side
  have side : ∀ {α : Type} [DecidableEq α] {x y z w : Option α} {f : α → Str},
      resolve x y z = some w → w.map f = some s → y.map f = some s ∨ z.map f = some s := by
    intro α _ x y z w f hr hw
    rcases resolve_mem hr with rfl | rfl
    · exact .inl hw
    · exact .inr hw
  have plain : ∀ {x y z w : Option Str}, resolve x y z = some w → w = some s →
      y = some s ∨ z = some s := by
    intro x y z w hr hw
    rcases resolve_mem hr with rfl | rfl
    · exact .inl hw
    · exact .inr hw
  have htitle := plain h.title
  have hitemType := side (f := ItemType.display) h.itemType
  have hscope := side (f := Scope.display) h.scope
  have hworkspace := plain h.workspace
  have hvisibility := side (f := Visibility.display) h.visibility
  have hconfidence := side (f := Confidence.display) h.confidence
  have hexpires := plain h.expires
  have hupdated : m.updated = some s → o.updated = some s ∨ t.updated = some s := by
    rw [h.updated]
    exact maxUpdated_mem
  have htags : s ∈ m.tags → s ∈ o.tags ∨ s ∈ t.tags := by
    rw [h.tags]
    exact mem_union
  simp only [mem_allTexts, mem_texts, h.provenance, h.tokensRaw, h.refs] at hs ⊢
  rcases hs with (hs | hs | hs | hs | hs | hs | hs | hs | hs | hs) | hs | hs
  · rcases htitle hs with h | h <;> simp [h]
  · rcases hitemType hs with h | h <;> simp [h]
  · rcases hscope hs with h | h <;> simp [h]
  · rcases hworkspace hs with h | h <;> simp [h]
  · rcases hvisibility hs with h | h <;> simp [h]
  · simp [hs]
  · rcases hconfidence hs with h | h <;> simp [h]
  · rcases hexpires hs with h | h <;> simp [h]
  · simp [hs]
  · rcases hupdated hs with h | h <;> simp [h]
  · rcases htags hs with h | h <;> simp [h]
  · simp [hs]

/-! ### The marker in the output -/

theorem renderConflict_eq (T : CharTables) (ours theirs : Str) : ∃ label mid : Str,
    renderConflict T ours theirs =
      conflictMarker ++ label ++ trimEnd ours ++ mid ++ trimEnd theirs ++ "\n".toList := by
  refine ⟨"\n".toList ++ conflictNotice ++ "<!-- ours (provenance.actor: ".toList ++
    debug T (actorOf ours) ++ ") -->\n".toList, "\n\n<!-- theirs (provenance.actor: ".toList ++
    debug T (actorOf theirs) ++ ") -->\n".toList, ?_⟩
  simp only [renderConflict, List.append_assoc]

/-- A merge that does not fall back makes no marker up. -/
theorem not_infix_merge {T : CharTables} {base ours theirs : Str}
    (h : ¬ FallsBack T base ours theirs) (ho : ¬ conflictMarker <:+: ours)
    (ht : ¬ conflictMarker <:+: theirs) : ¬ conflictMarker <:+: merge T base ours theirs := by
  have hclean : ¬ Diverges base ours theirs := mt (fallsBack_iff T).2 h
  rw [merge_of_not_diverges T hclean]
  intro hm
  rcases infix_append_cons inValue_conflictMarker.lf hm with hm | hm
  · obtain ⟨s, hs, hm⟩ := inValue_conflictMarker.infix_of_infix_render hm
    rcases (merged_mergedOf hclean).allTexts hs with hs | hs
    · exact ho (hm.trans (infix_of_mem_allTexts s hs))
    · exact ht (hm.trans (infix_of_mem_allTexts s hs))
  · rcases selectBody_mem (parse base).body (parse ours).body (parse theirs).body with hs | hs <;>
      rw [hs] at hm
    · exact ho (hm.trans (body_suffix_parse ours).isInfix)
    · exact ht (hm.trans (body_suffix_parse theirs).isInfix)

/-- **The fallback is lossless and detectable.**  It starts with the marker and holds both
documents, one after the other, up to the whitespace at their ends; and of documents without the
marker, a merge holds it exactly when it fell back. -/
theorem merge_marked (T : CharTables) (base ours theirs : Str) :
    (FallsBack T base ours theirs → ∃ label mid : Str, merge T base ours theirs =
      conflictMarker ++ label ++ trimEnd ours ++ mid ++ trimEnd theirs ++ "\n".toList) ∧
    (¬ conflictMarker <:+: base → ¬ conflictMarker <:+: ours → ¬ conflictMarker <:+: theirs →
      (conflictMarker <:+: merge T base ours theirs ↔ FallsBack T base ours theirs)) := by
  have hlossless : FallsBack T base ours theirs → ∃ label mid : Str, merge T base ours theirs =
      conflictMarker ++ label ++ trimEnd ours ++ mid ++ trimEnd theirs ++ "\n".toList := by
    intro h
    rw [h]
    exact renderConflict_eq T ours theirs
  refine ⟨hlossless, fun _ ho ht => ⟨fun hm => ?_, fun h => ?_⟩⟩
  · by_contra h
    exact not_infix_merge h ho ht hm
  · obtain ⟨label, mid, hout⟩ := hlossless h
    rw [hout]
    simp only [List.append_assoc]
    exact (List.prefix_append _ _).isInfix

end Merge

end Wkp
