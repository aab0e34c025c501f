import Wkp.Core.Stable

/-!
# Which frontmatter reads back as it was

`Frontmatter.reparse` says what every field reads back as.  This file says when that is the field.

* `Frontmatter.reparseList_eq_self_iff` : a list survives when its items have no comma and
  no quotes.
* `Frontmatter.Worded` : what every parsed frontmatter satisfies besides `Frontmatter.Parsed`.
* `Frontmatter.Survives` : every value that is written with `{:?}` has nothing to escape, and every
  value that is written bare has nothing to lose.
* `Frontmatter.parse_render_eq_iff` : **a parsed frontmatter is read back from its rendering exactly
  if it survives.**
-/

namespace Wkp

open Rust

namespace Frontmatter

/-! ### Lists -/

theorem parseInlineList_eq (inner : Str) : parseInlineList ('[' :: (inner ++ [']'])) =
    some (if trim inner = [] then []
      else ((split ',' inner).map fun item => unquote (trim item)).filter (· ≠ [])) := by
  rw [parseInlineList, show '[' :: (inner ++ [']']) = ['['] ++ (inner ++ [']']) from rfl,
    stripPrefix_append]
  simp only [Option.bind_eq_bind, Option.bind_some, stripSuffix_append]
  split_ifs <;> rfl

theorem reparseList_of_commaFree {items : List Str} (hne : items ≠ [])
    (h : ∀ t ∈ items, ',' ∉ t) : reparseList items =
      if trim (join ", ".toList items) = [] then [] else (items.map unquote).filter (· ≠ []) := by
  rw [reparseList, if_neg hne, parseInlineList_eq, Option.getD_some]
  cases items with
  | nil => exact absurd rfl hne
  | cons t ts =>
    have hsplit : split ',' (join ", ".toList (t :: ts)) = t :: ts.map (' ' :: ·) :=
      @split_join ',' " ".toList (by decide) t ts h
    have hunquote : ((fun item => unquote (trim item)) ∘ fun s => ' ' :: s) = unquote := by
      funext s
      rw [Function.comp_apply, trim_cons_of_ws (by decide), unquote_trim]
    rw [hsplit, List.map_cons, List.map_map, List.map_cons, unquote_trim, hunquote]

theorem Unquoted.trim_ne_nil {t : Str} (h : Unquoted t) (hne : t ≠ []) : trim t ≠ [] := by
  intro htrim
  rw [Unquoted, ← unquote_trim, htrim] at h
  exact hne h.symm

theorem eq_of_filter_map_eq {α : Type*} {p : α → Bool} {f : α → α} {l : List α}
    (h : (l.map f).filter p = l) : ∀ a ∈ l, f a = a := by
  have hlen : ((l.map f).filter p).length = (l.map f).length := by
    rw [h, List.length_map]
  rw [List.filter_eq_self.2 (List.length_filter_eq_length_iff.1 hlen)] at h
  exact List.map_inj_left.1 (h.trans (List.map_id l).symm)

/-- A list that is written is the list that is read when its items have no comma, no quotes or
whitespace around them, and are not empty. -/
theorem reparseList_eq_self_iff {items : List Str} :
    reparseList items = items ↔ ∀ t ∈ items, Unquoted t ∧ t ≠ [] ∧ ',' ∉ t := by
  by_cases hne : items = []
  · rw [hne]
    exact ⟨fun _ t ht => absurd ht List.not_mem_nil, fun _ => if_pos rfl⟩
  constructor
  · intro h
    have hitem : ∀ t ∈ items, t ≠ [] ∧ ',' ∉ t := by
      intro t ht
      rw [← h, reparseList, if_neg hne, parseInlineList_eq, Option.getD_some] at ht
      split_ifs at ht
      · cases ht
      obtain ⟨hmem, htne⟩ := List.mem_filter.1 ht
      obtain ⟨item, hitem, rfl⟩ := List.mem_map.1 hmem
      exact ⟨of_decide_eq_true htne, fun hc => notMem_of_mem_split hitem
        (((unquote_isInfix _).trans (trim_isInfix _)).subset hc)⟩
    rw [reparseList_of_commaFree hne fun t ht => (hitem t ht).2] at h
    split_ifs at h
    · exact absurd h.symm hne
    · exact fun t ht => ⟨eq_of_filter_map_eq h t ht, hitem t ht⟩
  · intro h
    obtain ⟨t, ht⟩ := List.exists_mem_of_ne_nil items hne
    have htrim : trim (join ", ".toList items) ≠ [] := by
      intro hjoin
      refine (h t ht).1.trim_ne_nil (h t ht).2.1 (trim_eq_nil_iff.2 fun c hc => ?_)
      exact trim_eq_nil_iff.1 hjoin c ((infix_join_of_mem ht).subset hc)
    rw [reparseList_of_commaFree hne fun t ht => (h t ht).2.2, if_neg htrim,
      List.map_congr_left fun t ht => (h t ht).1, List.map_id', List.filter_eq_self]
    exact fun t ht => decide_eq_true (h t ht).2.1

/-! ### What a parsed frontmatter holds -/

/-- A known source is read as such, and no list item is empty. -/
structure Worded (fm : Frontmatter) : Prop where
  /-- The source of the provenance. -/
  source : ∀ s ∈ fm.provenance.source, SourceKind.parse s.display = s
  /-- The tags. -/
  tags : ∀ t ∈ fm.tags, t ≠ []
  /-- The references. -/
  refs : ∀ t ∈ fm.refs, t ≠ []

theorem Worded.applyProvenanceField {fm : Frontmatter} (h : Worded fm) (key value : Str) :
    Worded { fm with provenance := applyProvenanceField fm.provenance key value } := by
  refine ⟨?_, h.tags, h.refs⟩
  rw [Frontmatter.applyProvenanceField]
  exact ite_elim (motive := fun prov : Provenance =>
      ∀ s ∈ prov.source, SourceKind.parse s.display = s) h.source
    (ite_elim (motive := fun prov : Provenance =>
      ∀ s ∈ prov.source, SourceKind.parse s.display = s) h.source
    (ite_elim (motive := fun prov : Provenance =>
      ∀ s ∈ prov.source, SourceKind.parse s.display = s)
      (parse_display_map SourceKind.display_parse _) h.source))

theorem ne_nil_of_mem_listValue {value : Str} :
    ∀ t ∈ (parseInlineList value).getD (singleItem value), t ≠ [] := by
  intro t ht
  cases hl : parseInlineList value with
  | some items =>
    rw [hl, Option.getD_some] at ht
    obtain ⟨inner, h1, h2⟩ := Option.bind_eq_some_iff.1 hl
    obtain ⟨inner', h2, h3⟩ := Option.bind_eq_some_iff.1 h2
    rw [stripSuffix_eq_some_iff] at h2
    rw [stripPrefix_eq_some_iff, h2, List.singleton_append] at h1
    rw [h1, parseInlineList_eq] at hl
    rw [← Option.some.inj hl] at ht
    split_ifs at ht
    · cases ht
    · exact of_decide_eq_true (List.mem_filter.1 ht).2
  | none =>
    rw [hl, Option.getD_none, singleItem] at ht
    split_ifs at ht with hnull
    · cases ht
    · rintro rfl
      rw [← List.mem_singleton.1 ht] at hnull
      exact hnull rfl

theorem Worded.applyScalarValue {acc : Frontmatter × List Warning} (h : Worded acc.1)
    (key value : Str) : Worded (applyScalarValue acc key value).1 := by
  obtain ⟨fm, ws⟩ := acc
  have hlist := @ne_nil_of_mem_listValue (unquote value)
  refine applyScalarValue_elim (motive := fun r => Worded r.1) key ?_ ?_ ?_ ?_ ?_ ?_ ?_ ?_ ?_
    ⟨h.source, hlist, h.refs⟩ ⟨h.source, h.tags, hlist⟩ (h.applyProvenanceField key _) h <;>
    exact ⟨h.source, h.tags, h.refs⟩

theorem worded_default : Worded default where
  source s hs := by cases hs
  tags t ht := by cases ht
  refs t ht := by cases ht

theorem worded_parse (input : Str) : Worded (parse input).frontmatter :=
  parse_induct (fun _ key value h _ => h.applyScalarValue key value)
    (fun _ key _ h _ => h.applyProvenanceField key _)
    (fun _ _ h hitems => ⟨h.source, fun t ht => (hitems t ht).2, h.refs⟩)
    (fun _ _ h hitems => ⟨h.source, h.tags, fun t ht => (hitems t ht).2⟩) worded_default

/-! ### The whole frontmatter -/

/-- The values that are written with `{:?}`. -/
def quotedTexts (fm : Frontmatter) : List Str :=
  fm.title.toList ++ fm.provenance.actor.toList ++ fm.provenance.session.toList ++
    fm.expires.toList ++ fm.updated.toList

/-- The values that are written as they are, but for those of the lists. -/
def bareTexts (fm : Frontmatter) : List Str :=
  (fm.itemType.map ItemType.display).toList ++ (fm.scope.map Scope.display).toList ++
    fm.workspace.toList ++ (fm.visibility.map Visibility.display).toList ++
    (fm.provenance.source.map SourceKind.display).toList ++
    (fm.confidence.map Confidence.display).toList ++ fm.tokensRaw.toList

/-- What a frontmatter needs to be read back as it was. -/
structure Survives (T : CharTables) (fm : Frontmatter) : Prop where
  /-- `{:?}` has nothing to escape. -/
  quoted : ∀ s ∈ quotedTexts fm, ∀ c ∈ s, Plain T c
  /-- A bare value has neither whitespace nor one pair of quotes around it. -/
  bare : ∀ s ∈ bareTexts fm, Unquoted s
  /-- Nor has a list item, and no comma either. -/
  items : ∀ s ∈ fm.tags ++ fm.refs, Unquoted s ∧ ',' ∉ s

theorem reparse_eq_self_iff {T : CharTables} {fm : Frontmatter} : reparse T fm = fm ↔
    (reparse T fm).title = fm.title ∧ (reparse T fm).itemType = fm.itemType ∧
    (reparse T fm).scope = fm.scope ∧ (reparse T fm).workspace = fm.workspace ∧
    (reparse T fm).visibility = fm.visibility ∧ (reparse T fm).provenance = fm.provenance ∧
    (reparse T fm).confidence = fm.confidence ∧ (reparse T fm).expires = fm.expires ∧
    (reparse T fm).tokensRaw = fm.tokensRaw ∧ (reparse T fm).tokens = fm.tokens ∧
    (reparse T fm).tags = fm.tags ∧ (reparse T fm).refs = fm.refs ∧
    (reparse T fm).updated = fm.updated := by
  obtain ⟨title, itemType, scope, workspace, visibility, provenance, confidence, expires,
    tokensRaw, tokens, tags, refs, updated⟩ := fm
  exact Iff.of_eq (Frontmatter.mk.injEq ..)

theorem reparseProvenance_eq_self_iff {T : CharTables} {prov : Provenance} :
    reparseProvenance T prov = prov ↔
      (reparseProvenance T prov).actor = prov.actor ∧
      (reparseProvenance T prov).session = prov.session ∧
      (reparseProvenance T prov).source = prov.source := by
  obtain ⟨actor, session, source⟩ := prov
  exact Iff.of_eq (Provenance.mk.injEq ..)

theorem mem_texts_of_provenance {fm : Frontmatter} {s : Str}
    (hs : s ∈ provenanceTexts fm.provenance) : s ∈ texts fm := by
  rw [mem_texts]
  tauto

section

variable {fm : Frontmatter} (h : Parsed fm)
include h

theorem Parsed.reparse_updated_iff (T : CharTables) :
    (reparse T fm).updated = fm.updated ↔ ∀ s ∈ fm.updated, ∀ c ∈ s, Plain T c :=
  option_fixed_iff (f := fun v => v.bind fun s => reparseText (debug T s)) rfl fun s hs =>
    reparseText_debug_iff (h.isNull_eq_false (by rw [mem_texts]; tauto))

theorem Parsed.reparse_provenance_iff (hw : Worded fm) (T : CharTables) :
    (reparse T fm).provenance = fm.provenance ↔
      (∀ s ∈ fm.provenance.actor, ∀ c ∈ s, Plain T c) ∧
      (∀ s ∈ fm.provenance.session, ∀ c ∈ s, Plain T c) ∧
      ∀ s ∈ fm.provenance.source, Unquoted s.display := by
  have hnull : ∀ s ∈ provenanceTexts fm.provenance, isNull s = false := fun s hs =>
    h.isNull_eq_false (mem_texts_of_provenance hs)
  simp only [provenanceTexts, List.forall_mem_append, Option.mem_toList] at hnull
  obtain ⟨⟨hactor, hsession⟩, hsource⟩ := hnull
  refine reparseProvenance_eq_self_iff.trans (and_congr ?_ (and_congr ?_ ?_))
  · exact option_fixed_iff (f := fun v => v.bind fun s => reparseText (debug T s)) rfl
      fun s hs => reparseText_debug_iff (hactor s hs)
  · exact option_fixed_iff (f := fun v => v.bind fun s => reparseText (debug T s)) rfl
      fun s hs => reparseText_debug_iff (hsession s hs)
  · exact option_fixed_iff
      (f := fun v => (v.bind fun s : SourceKind => reparseText s.display).map SourceKind.parse) rfl
      fun s hs => map_reparseText_iff SourceKind.display_parse (hw.source s hs)
        (hsource _ (Option.mem_map_of_mem _ hs))

theorem Parsed.tokensText_eq : fm.tokensText = fm.tokensRaw := by
  rw [tokensText, h.tokens]
  cases fm.tokensRaw <;> rfl

/-- A parsed frontmatter is read back from its rendering exactly if its values survive. -/
theorem Parsed.reparse_eq_self_iff (hw : Worded fm) (T : CharTables) :
    reparse T fm = fm ↔ Survives T fm := by
  have htokens : (reparse T fm).tokensRaw = fm.tokensRaw ↔ ∀ s ∈ fm.tokensRaw, Unquoted s := by
    rw [← h.reparse_tokensRaw_iff]
    exact Iff.of_eq (congrArg (· = fm.tokensRaw)
      (congrArg (fun v => v.bind reparseText) h.tokensText_eq))
  -- the number follows the text
  have hnumber : (reparse T fm).tokensRaw = fm.tokensRaw →
      (reparse T fm).tokens = fm.tokens := fun heq => by
    rw [h.tokens, ← heq]
    rfl
  have htags : (reparse T fm).tags = fm.tags ↔ ∀ t ∈ fm.tags, Unquoted t ∧ ',' ∉ t :=
    reparseList_eq_self_iff.trans (forall₂_congr fun t ht =>
      and_congr_right fun _ => and_iff_right (hw.tags t ht))
  have hrefs : (reparse T fm).refs = fm.refs ↔ ∀ t ∈ fm.refs, Unquoted t ∧ ',' ∉ t :=
    reparseList_eq_self_iff.trans (forall₂_congr fun t ht =>
      and_congr_right fun _ => and_iff_right (hw.refs t ht))
  rw [Frontmatter.reparse_eq_self_iff, h.reparse_title_iff, h.reparse_itemType_iff,
    h.reparse_scope_iff, h.reparse_workspace_iff, h.reparse_visibility_iff,
    h.reparse_provenance_iff hw, h.reparse_confidence_iff, h.reparse_expires_iff, htags, hrefs,
    h.reparse_updated_iff]
  have hmem : ∀ {α : Type} {f : α → Str} {v : Option α} {P : Str → Prop},
      (∀ s ∈ v.map f, P s) ↔ ∀ a ∈ v, P (f a) := fun {α f v P} => by
    cases v <;> simp
  constructor
  · rintro ⟨title, itemType, scope, workspace, visibility, ⟨actor, session, source⟩, confidence,
      expires, tokens, -, tags, refs, updated⟩
    constructor
    · simp only [quotedTexts, List.forall_mem_append, Option.mem_toList]
      exact ⟨⟨⟨⟨title, actor⟩, session⟩, expires⟩, updated⟩
    · simp only [bareTexts, List.forall_mem_append, Option.mem_toList]
      exact ⟨⟨⟨⟨⟨⟨hmem.2 itemType, hmem.2 scope⟩, workspace⟩, hmem.2 visibility⟩,
        hmem.2 source⟩, hmem.2 confidence⟩, htokens.1 tokens⟩
    · exact List.forall_mem_append.2 ⟨tags, refs⟩
  · rintro ⟨hquoted, hbare, hitems⟩
    simp only [quotedTexts, List.forall_mem_append, Option.mem_toList] at hquoted
    simp only [bareTexts, List.forall_mem_append, Option.mem_toList] at hbare
    rw [List.forall_mem_append] at hitems
    obtain ⟨⟨⟨⟨title, actor⟩, session⟩, expires⟩, updated⟩ := hquoted
    obtain ⟨⟨⟨⟨⟨⟨itemType, scope⟩, workspace⟩, visibility⟩, source⟩, confidence⟩, tokens⟩ := hbare
    exact ⟨title, hmem.1 itemType, hmem.1 scope, workspace, hmem.1 visibility,
      ⟨actor, session, hmem.1 source⟩, hmem.1 confidence, expires, htokens.2 tokens,
      hnumber (htokens.2 tokens), hitems.1, hitems.2, updated⟩

end

/-- **What is parsed, rendered and parsed again is what it was exactly if it survives.** -/
theorem parse_render_eq_iff (T : CharTables) (input : Str) :
    (parse (render T (parse input).frontmatter)).frontmatter = (parse input).frontmatter ↔
      Survives T (parse input).frontmatter := by
  have hparsed := parsed_parse input
  have hread := parse_render hparsed.lineSafe T []
  rw [List.append_nil] at hread
  rw [hread]
  exact hparsed.reparse_eq_self_iff (worded_parse input) T

/-- A quotation mark in a title comes back with a backslash before it. -/
theorem not_parse_render_eq : ¬ ∀ (T : CharTables) (input : Str),
    (parse (render T (parse input).frontmatter)).frontmatter = (parse input).frontmatter := by
  intro h
  have htitle := congrArg Frontmatter.title
    (h CharTables.asciiOnly "---\ntitle: a\"b\n---\n".toList)
  exact absurd htitle (by decide)

end Frontmatter

end Wkp
