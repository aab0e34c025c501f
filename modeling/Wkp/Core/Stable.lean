import Wkp.Core.RoundTrip

/-!
# What a parsed frontmatter holds

* `Frontmatter.parse_induct` : the rule of the parser, for what every setter keeps.
* `Frontmatter.Parsed` : what every field of a parsed frontmatter satisfies, whatever the file.
* `Frontmatter.parsed_parse` : every parsed frontmatter satisfies it.
* `Frontmatter.reparseText_debug_iff`, `Frontmatter.reparseText_iff` : which values survive being
  rendered and parsed again.
-/

namespace Wkp

open Rust

namespace Frontmatter

/-! ### Where the values come from -/

theorem unquote_isInfix (value : Str) : unquote value <:+: value := by
  have htrim := trim_isInfix value
  have hinner : ∀ v : Str, v.tail.dropLast <:+: v := fun v =>
    (List.dropLast_prefix _).isInfix.trans (List.tail_suffix _).isInfix
  simp only [unquote]
  split_ifs
  · exact (hinner _).trans htrim
  · exact (hinner _).trans htrim
  · exact htrim

theorem infix_of_stripPrefix {s p r : Str} (h : stripPrefix s p = some r) : r <:+: s := by
  rw [stripPrefix_eq_some_iff.1 h]
  exact (List.suffix_append _ _).isInfix

theorem infix_of_stripSuffix {s p r : Str} (h : stripSuffix s p = some r) : r <:+: s := by
  rw [stripSuffix_eq_some_iff.1 h]
  exact (List.prefix_append _ _).isInfix

theorem infix_of_mem_parseInlineList {value t : Str} {items : List Str}
    (h : parseInlineList value = some items) (ht : t ∈ items) : t <:+: value := by
  simp only [parseInlineList, Option.bind_eq_bind, Option.bind_eq_some_iff] at h
  obtain ⟨inner, h1, inner', h2, h⟩ := h
  have hin : inner' <:+: value := (infix_of_stripSuffix h2).trans (infix_of_stripPrefix h1)
  split_ifs at h
  · obtain rfl : [] = items := by simpa using h
    simp at ht
  · obtain rfl := Option.some.inj h
    obtain ⟨item, hitem, rfl⟩ := List.mem_map.1 (List.mem_filter.1 ht).1
    exact (unquote_isInfix _).trans ((trim_isInfix _).trans ((infix_of_mem_split hitem).trans hin))

theorem infix_of_splitKeyValue {content k v : Str} (h : splitKeyValue content = some (k, v)) :
    v <:+: content := by
  rw [splitKeyValue] at h
  cases hs : splitOnce ':' content with
  | none => simp [hs] at h
  | some kr =>
    obtain ⟨key, rest⟩ := kr
    rw [hs] at h
    dsimp only at h
    split_ifs at h
    obtain ⟨rfl, rfl⟩ : trim key = k ∧ trim rest = v := by simpa using h
    obtain ⟨rfl, -⟩ := splitOnce_eq_some hs
    exact (trim_isInfix _).trans ((List.suffix_cons _ _).trans (List.suffix_append _ _)).isInfix

theorem content_infix_of_logicalLine {raw : Str} {line : Line} (h : logicalLine raw = some line) :
    line.content <:+: raw := by
  simp only [logicalLine] at h
  split_ifs at h
  obtain rfl := Option.some.inj h
  have htrim : trimEnd ((raw.rdropWhile (· = '\r')).dropWhile (· = ' ')) <:+: _ :=
    (List.rdropWhile_prefix (p := isWhitespace) _).isInfix
  exact htrim.trans ((List.dropWhile_suffix _).isInfix.trans
    (List.rdropWhile_prefix (p := (· = '\r')) raw).isInfix)

/-- The opening delimiter is cut off in front, the closing one and the body behind. -/
theorem block_isInfix {input afterOpen block body : Str}
    (hopen : stripOpeningDelimiter input = some afterOpen)
    (hclose : splitAtClosingDelimiter afterOpen = some (block, body)) : block <:+: input := by
  have loop : ∀ (ls : List Str) (above : Str),
      splitAtClosingDelimiterLoop above ls = some (block, body) →
        block <+: above ++ ls.flatten := by
    intro ls
    induction ls with
    | nil => intro above h; cases h
    | cons l ls ih =>
      intro above h
      rw [splitAtClosingDelimiterLoop] at h
      split_ifs at h
      · obtain ⟨rfl, -⟩ : above = block ∧ _ := by simpa using h
        exact List.prefix_append _ _
      · rw [List.flatten_cons, ← List.append_assoc]
        exact ih _ h
  have hblock : block <+: afterOpen := by
    have := loop _ [] hclose
    rwa [List.nil_append, flatten_splitInclusive] at this
  refine hblock.isInfix.trans ?_
  rw [stripOpeningDelimiter] at hopen
  cases hlines : splitInclusive input with
  | nil => rw [hlines] at hopen; cases hopen
  | cons first rest =>
    rw [hlines] at hopen
    dsimp only at hopen
    split_ifs at hopen
    obtain rfl := Option.some.inj hopen
    rw [← flatten_splitInclusive input, hlines, List.flatten_cons]
    exact (List.suffix_append _ _).isInfix

/-! ### The rule of the parser -/

/-- A part of one line of the input: every value that the parser reads is one. -/
def Piece (input s : Str) : Prop := s <:+: input ∧ '\n' ∉ s

theorem Piece.part {input s t : Str} (h : Piece input s) (hts : t <:+: s) : Piece input t :=
  ⟨hts.trans h.1, fun hm => h.2 (hts.subset hm)⟩

theorem piece_of_mem_logicalLines {input block : Str} (hblock : block <:+: input) {line : Line}
    (h : line ∈ logicalLines block) : Piece input line.content := by
  obtain ⟨raw, hraw, hline⟩ := List.mem_filterMap.1 h
  have hpiece : Piece input raw :=
    ⟨(infix_of_mem_lines hraw).trans hblock, notMem_of_mem_lines hraw⟩
  exact hpiece.part (content_infix_of_logicalLine hline)

theorem piece_of_mem_blockItems {input t : Str} {children : List Line}
    (hc : ∀ l ∈ children, Piece input l.content) (ht : t ∈ blockItems children) :
    Piece input t ∧ t ≠ [] := by
  obtain ⟨hmap, hne⟩ := List.mem_filter.1 ht
  obtain ⟨item, hitem, rfl⟩ := List.mem_map.1 hmap
  obtain ⟨l, hl, hstrip⟩ := List.mem_filterMap.1 hitem
  exact ⟨(hc l hl).part
    ((unquote_isInfix _).trans ((trim_isInfix _).trans (infix_of_stripPrefix hstrip))),
    of_decide_eq_true hne⟩

theorem ite_elim {α : Type} {motive : α → Prop} {c : Prop} [Decidable c] {a b : α}
    (ha : motive a) (hb : motive b) : motive (if c then a else b) := by
  split_ifs <;> assumption

section Rule

variable {P : Frontmatter → Prop} {input : Str}
  (scalar : ∀ (acc : Frontmatter × List Warning) (key value : Str), P acc.1 → Piece input value →
    P (applyScalarValue acc key value).1)
  (provenance : ∀ (fm : Frontmatter) (key value : Str), P fm → Piece input value →
    P { fm with provenance := applyProvenanceField fm.provenance key (unquote value) })
  (tags : ∀ (fm : Frontmatter) (items : List Str), P fm →
    (∀ t ∈ items, Piece input t ∧ t ≠ []) → P { fm with tags := items })
  (refs : ∀ (fm : Frontmatter) (items : List Str), P fm →
    (∀ t ∈ items, Piece input t ∧ t ≠ []) → P { fm with refs := items })

include provenance in
theorem foldl_applyProvenanceChild_induct {children : List Line}
    {acc : Frontmatter × List Warning} (h : P acc.1)
    (hc : ∀ l ∈ children, Piece input l.content) :
    P (children.foldl applyProvenanceChild acc).1 := by
  induction children generalizing acc with
  | nil => exact h
  | cons child children ih =>
    refine ih ?_ fun l hl => hc l (List.mem_cons_of_mem _ hl)
    rw [applyProvenanceChild]
    cases hkv : splitKeyValue child.content with
    | none => exact h
    | some kv =>
      exact provenance _ _ _ h ((hc child List.mem_cons_self).part
        (infix_of_splitKeyValue (k := kv.1) (v := kv.2) hkv))

include provenance tags refs in
theorem applyBlockValue_induct {acc : Frontmatter × List Warning} (h : P acc.1) (key : Str)
    {children : List Line} (hc : ∀ l ∈ children, Piece input l.content) :
    P (applyBlockValue acc key children).1 := by
  have hitems : ∀ t ∈ blockItems children, Piece input t ∧ t ≠ [] :=
    fun t ht => piece_of_mem_blockItems hc ht
  rw [applyBlockValue]
  exact ite_elim (motive := fun r : Frontmatter × List Warning => P r.1)
    (foldl_applyProvenanceChild_induct provenance h hc)
    (ite_elim (motive := fun r : Frontmatter × List Warning => P r.1) (tags _ _ h hitems)
      (ite_elim (motive := fun r : Frontmatter × List Warning => P r.1) (refs _ _ h hitems) h))

include scalar provenance tags refs in
theorem parseBlockLoop_induct (fuel : ℕ) {ls : List Line} {acc : Frontmatter × List Warning}
    (h : P acc.1) (hls : ∀ l ∈ ls, Piece input l.content) : P (parseBlockLoop fuel ls acc).1 := by
  induction fuel generalizing ls acc with
  | zero => exact h
  | succ fuel ih =>
    cases ls with
    | nil => exact h
    | cons line rest =>
      have hrest : ∀ l ∈ rest, Piece input l.content :=
        fun l hl => hls l (List.mem_cons_of_mem _ hl)
      rw [parseBlockLoop]
      split_ifs
      · exact ih h hrest
      · cases hkv : splitKeyValue line.content with
        | none => exact ih h hrest
        | some kv =>
          dsimp only
          split_ifs
          · exact ih (applyBlockValue_induct provenance tags refs h kv.1
              fun l hl => hrest l ((List.takeWhile_sublist _).subset hl))
              fun l hl => hrest l ((List.dropWhile_sublist _).subset hl)
          · exact ih (scalar _ kv.1 _ h ((hls line List.mem_cons_self).part
              (infix_of_splitKeyValue (k := kv.1) (v := kv.2) hkv))) hrest

include scalar provenance tags refs in
/-- **The rule of the parser**: what the default satisfies and every setter keeps, for values that
are pieces of the input, holds of what is parsed. -/
theorem parse_induct (h : P default) : P (parse input).frontmatter := by
  rw [parse]
  cases hopen : stripOpeningDelimiter input with
  | none => exact h
  | some afterOpen =>
    dsimp only
    cases hclose : splitAtClosingDelimiter afterOpen with
    | none => exact h
    | some bb =>
      obtain ⟨block, body⟩ := bb
      exact parseBlockLoop_induct scalar provenance tags refs _ h fun l hl =>
        piece_of_mem_logicalLines (block_isInfix hopen hclose) hl

end Rule

/-! ### The invariant of the parser -/

/-- The texts of a provenance. -/
def provenanceTexts (prov : Provenance) : List Str :=
  prov.actor.toList ++ prov.session.toList ++ (prov.source.map SourceKind.display).toList

/-- The texts of the optional fields. -/
def texts (fm : Frontmatter) : List Str :=
  fm.title.toList ++ (fm.itemType.map ItemType.display).toList ++
    (fm.scope.map Scope.display).toList ++ fm.workspace.toList ++
    (fm.visibility.map Visibility.display).toList ++ provenanceTexts fm.provenance ++
    (fm.confidence.map Confidence.display).toList ++ fm.expires.toList ++ fm.tokensRaw.toList ++
    fm.updated.toList

/-- No field holds a known word as an unknown one. -/
def Canonical (fm : Frontmatter) : Prop :=
  (∀ t ∈ fm.itemType, ItemType.parse t.display = t) ∧
    (∀ s ∈ fm.scope, Scope.parse s.display = s) ∧
    (∀ v ∈ fm.visibility, Visibility.parse v.display = v) ∧
    (∀ c ∈ fm.confidence, Confidence.parse c.display = c)

/-- What every parsed frontmatter satisfies. -/
structure Parsed (fm : Frontmatter) : Prop where
  /-- A value is one line, and never a spelling of null. -/
  text : ∀ s ∈ texts fm, '\n' ∉ s ∧ isNull s = false
  /-- A list item is one line. -/
  item : ∀ s ∈ fm.tags ++ fm.refs, '\n' ∉ s
  /-- The number is the one in the text. -/
  tokens : fm.tokens = fm.tokensRaw.bind parseTokens
  /-- A known word is read as such. -/
  canonical : Canonical fm

theorem optString_spec {value s : Str} (h : optString value = some s) :
    s = value ∧ isNull value = false := by
  rw [optString] at h
  split_ifs at h with hn
  exact ⟨(Option.some.inj h).symm, by simpa using hn⟩

theorem text_of_optString {value s : Str} (hv : '\n' ∉ value)
    (h : optString (unquote value) = some s) : '\n' ∉ s ∧ isNull s = false := by
  obtain ⟨rfl, hn⟩ := optString_spec h
  exact ⟨fun hm => hv ((unquote_isInfix value).subset hm), hn⟩

/-- Every text of `fm'` is a text of `fm` or the value just read. -/
def TextsFrom (fm fm' : Frontmatter) (value : Str) : Prop :=
  ∀ s ∈ texts fm', s ∈ texts fm ∨ optString (unquote value) = some s

theorem mem_provenanceTexts_field (prov : Provenance) (key value : Str) {s : Str}
    (h : s ∈ provenanceTexts (applyProvenanceField prov key value)) :
    s ∈ provenanceTexts prov ∨ optString value = some s := by
  rw [applyProvenanceField] at h
  simp only [provenanceTexts, List.mem_append, Option.mem_toList] at h ⊢
  split_ifs at h
  · rcases h with (h | h) | h
    · exact .inr h
    · exact .inl (.inl (.inr h))
    · exact .inl (.inr h)
  · rcases h with (h | h) | h
    · exact .inl (.inl (.inl h))
    · exact .inr h
    · exact .inl (.inr h)
  · rcases h with (h | h) | h
    · exact .inl (.inl (.inl h))
    · exact .inl (.inl (.inr h))
    · obtain ⟨k, hk, rfl⟩ := Option.map_eq_some_iff.1 h
      obtain ⟨v, hv, rfl⟩ := Option.map_eq_some_iff.1 hk
      exact .inr (by rw [SourceKind.display_parse]; exact hv)
  · exact .inl h

theorem map_display_parse {α : Type} {display : α → Str} {parse : Str → α}
    (h : ∀ raw, display (parse raw) = raw) (v : Option Str) :
    (v.map parse).map display = v := by
  rw [Option.map_map, show display ∘ parse = id from funext h, Option.map_id, id]

/-- What the setter of inline values can do, whatever the key. -/
theorem applyScalarValue_elim {motive : Frontmatter × List Warning → Prop} {fm : Frontmatter}
    {ws : List Warning} {value : Str} (key : Str)
    (title : motive ({ fm with title := optString (unquote value) }, ws))
    (itemType : motive ({ fm with
      itemType := (optString (unquote value)).map ItemType.parse }, ws))
    (scope : motive ({ fm with scope := (optString (unquote value)).map Scope.parse }, ws))
    (workspace : motive ({ fm with workspace := optString (unquote value) }, ws))
    (visibility : motive ({ fm with
      visibility := (optString (unquote value)).map Visibility.parse }, ws))
    (confidence : motive ({ fm with
      confidence := (optString (unquote value)).map Confidence.parse }, ws))
    (expires : motive ({ fm with expires := optString (unquote value) }, ws))
    (updated : motive ({ fm with updated := optString (unquote value) }, ws))
    (tokens : motive ({ fm with
      tokensRaw := optString (unquote value),
      tokens := (optString (unquote value)).bind parseTokens }, ws))
    (tags : motive ({ fm with
      tags := (parseInlineList (unquote value)).getD (singleItem (unquote value)) }, ws))
    (refs : motive ({ fm with
      refs := (parseInlineList (unquote value)).getD (singleItem (unquote value)) }, ws))
    (provenance : motive ({ fm with
      provenance := applyProvenanceField fm.provenance key (unquote value) },
      ws ++ [.topLevelProvenance key]))
    (unknown : motive (fm, ws)) : motive (applyScalarValue (fm, ws) key value) := by
  have htokens : motive (if isNull (unquote value) then
      ({ fm with tokensRaw := none, tokens := none }, ws)
      else ({ fm with
        tokensRaw := some (unquote value), tokens := parseTokens (unquote value) }, ws)) := by
    rw [optString] at tokens
    split_ifs at tokens ⊢ <;> exact tokens
  rw [applyScalarValue]
  exact ite_elim title (ite_elim itemType (ite_elim scope (ite_elim workspace
    (ite_elim visibility (ite_elim confidence (ite_elim expires (ite_elim updated
      (ite_elim htokens (ite_elim tags (ite_elim refs (ite_elim provenance unknown)))))))))))

theorem mem_texts {fm : Frontmatter} {s : Str} : s ∈ texts fm ↔
    fm.title = some s ∨ fm.itemType.map ItemType.display = some s ∨
      fm.scope.map Scope.display = some s ∨ fm.workspace = some s ∨
      fm.visibility.map Visibility.display = some s ∨ s ∈ provenanceTexts fm.provenance ∨
      fm.confidence.map Confidence.display = some s ∨ fm.expires = some s ∨
      fm.tokensRaw = some s ∨ fm.updated = some s := by
  simp only [texts, List.mem_append, Option.mem_toList, or_assoc]

theorem textsFrom_applyScalarValue (acc : Frontmatter × List Warning) (key value : Str) :
    TextsFrom acc.1 (applyScalarValue acc key value).1 value := by
  obtain ⟨fm, ws⟩ := acc
  intro s
  have hprov := mem_provenanceTexts_field fm.provenance key (unquote value) (s := s)
  refine applyScalarValue_elim (motive := fun r => s ∈ texts r.1 → s ∈ texts fm ∨
    optString (unquote value) = some s) key ?_ ?_ ?_ ?_ ?_ ?_ ?_ ?_ ?_ ?_ ?_ ?_ ?_ <;>
    simp only [mem_texts, map_display_parse ItemType.display_parse,
      map_display_parse Scope.display_parse, map_display_parse Visibility.display_parse,
      map_display_parse Confidence.display_parse] <;> grind

theorem infix_of_mem_listValue {value t : Str}
    (ht : t ∈ (parseInlineList (unquote value)).getD (singleItem (unquote value))) :
    t <:+: value := by
  refine List.IsInfix.trans ?_ (unquote_isInfix value)
  cases hl : parseInlineList (unquote value) with
  | some items =>
    rw [hl, Option.getD_some] at ht
    exact infix_of_mem_parseInlineList hl ht
  | none =>
    rw [hl, Option.getD_none, singleItem] at ht
    split_ifs at ht
    · simp at ht
    · rw [List.mem_singleton.1 ht]

theorem lf_notMem_listValue {value : Str} (hv : '\n' ∉ value) :
    ∀ t ∈ (parseInlineList (unquote value)).getD (singleItem (unquote value)), '\n' ∉ t :=
  fun _ ht hmem => hv ((infix_of_mem_listValue ht).subset hmem)

theorem parse_display_map {α : Type} {display : α → Str} {parse : Str → α}
    (h : ∀ raw, display (parse raw) = raw) (v : Option Str) :
    ∀ a ∈ v.map parse, parse (display a) = a := by
  intro a ha
  obtain ⟨raw, -, rfl⟩ := Option.map_eq_some_iff.1 ha
  rw [h]

theorem Parsed.applyScalarValue {acc : Frontmatter × List Warning} (h : Parsed acc.1) (key : Str)
    {value : Str} (hv : '\n' ∉ value) : Parsed (applyScalarValue acc key value).1 := by
  obtain ⟨fm, ws⟩ := acc
  refine ⟨fun s hs => ?_, ?_, ?_, ?_⟩
  · rcases textsFrom_applyScalarValue _ _ _ s hs with hs | hs
    · exact h.text s hs
    · exact text_of_optString hv hs
  · have hitem := h.item
    have hnew := lf_notMem_listValue hv
    simp only [List.forall_mem_append] at hitem ⊢
    refine applyScalarValue_elim (motive := fun r => (∀ t ∈ r.1.tags, '\n' ∉ t) ∧
      ∀ t ∈ r.1.refs, '\n' ∉ t) key ?_ ?_ ?_ ?_ ?_ ?_ ?_ ?_ ?_ ?_ ?_ ?_ ?_ <;>
      first | exact hitem | exact ⟨hnew, hitem.2⟩ | exact ⟨hitem.1, hnew⟩
  · exact applyScalarValue_elim (motive := fun r => r.1.tokens = r.1.tokensRaw.bind parseTokens)
      key h.tokens h.tokens h.tokens h.tokens h.tokens h.tokens h.tokens h.tokens rfl h.tokens
      h.tokens h.tokens h.tokens
  · obtain ⟨hi, hs, hv, hc⟩ := h.canonical
    refine applyScalarValue_elim (motive := fun r => Canonical r.1) key ⟨hi, hs, hv, hc⟩
      ⟨parse_display_map ItemType.display_parse _, hs, hv, hc⟩
      ⟨hi, parse_display_map Scope.display_parse _, hv, hc⟩ ⟨hi, hs, hv, hc⟩
      ⟨hi, hs, parse_display_map Visibility.display_parse _, hc⟩
      ⟨hi, hs, hv, parse_display_map Confidence.display_parse _⟩ ?_ ?_ ?_ ?_ ?_ ?_ ?_ <;>
      exact ⟨hi, hs, hv, hc⟩

theorem Parsed.applyProvenanceField {fm : Frontmatter} (h : Parsed fm) (key : Str) {value : Str}
    (hv : '\n' ∉ value) : Parsed { fm with
      provenance := applyProvenanceField fm.provenance key (unquote value) } := by
  refine ⟨fun s hs => ?_, h.item, h.tokens, h.canonical⟩
  have hprov := mem_provenanceTexts_field fm.provenance key (unquote value) (s := s)
  have hcases : s ∈ texts fm ∨ optString (unquote value) = some s := by
    rw [mem_texts] at hs ⊢
    tauto
  rcases hcases with hs | hs
  · exact h.text s hs
  · exact text_of_optString hv hs

theorem parsed_default : Parsed default where
  text s hs := by cases hs
  item s hs := by cases hs
  tokens := rfl
  canonical := by
    refine ⟨?_, ?_, ?_, ?_⟩ <;> intro a ha <;> cases ha

/-- **The invariant of the parser.** -/
theorem parsed_parse (input : Str) : Parsed (parse input).frontmatter := by
  refine parse_induct (fun _ key _ h hv => h.applyScalarValue key hv.2)
    (fun _ key _ h hv => h.applyProvenanceField key hv.2) ?_ ?_ parsed_default
  · intro fm items h hitems
    have hitem := List.forall_mem_append.1 h.item
    exact ⟨h.text, List.forall_mem_append.2 ⟨fun t ht => (hitems t ht).1.2, hitem.2⟩, h.tokens,
      h.canonical⟩
  · intro fm items h hitems
    have hitem := List.forall_mem_append.1 h.item
    exact ⟨h.text, List.forall_mem_append.2 ⟨hitem.1, fun t ht => (hitems t ht).1.2⟩, h.tokens,
      h.canonical⟩

theorem Parsed.lineSafe {fm : Frontmatter} (h : Parsed fm) : LineSafe fm := by
  have hmap : ∀ {α : Type} {f : α → Str} {v : Option α},
      (∀ s, v.map f = some s → s ∈ texts fm) → ∀ a ∈ v, '\n' ∉ f a :=
    fun hv a ha => (h.text _ (hv _ (by rw [ha]; rfl))).1
  have hitem := h.item
  rw [List.forall_mem_append] at hitem
  exact {
    itemType := hmap fun s hs => by rw [mem_texts]; tauto
    scope := hmap fun s hs => by rw [mem_texts]; tauto
    workspace := fun w hw => (h.text w (by rw [mem_texts]; tauto)).1
    visibility := hmap fun s hs => by rw [mem_texts]; tauto
    source := hmap fun s hs => by
      rw [mem_texts, provenanceTexts, List.mem_append, Option.mem_toList]; tauto
    confidence := hmap fun s hs => by rw [mem_texts]; tauto
    tokensRaw := fun t ht => (h.text t (by rw [mem_texts]; tauto)).1
    tags := hitem.1
    refs := hitem.2 }

/-! ### What survives a round trip -/

theorem unquote_debug (T : CharTables) (s : Str) :
    unquote (debug T s) = s.flatMap (escapeDebug T) := by
  have htrim : trim (debug T s) = debug T s := by
    refine trim_eq_self ⟨fun c hc => ?_, fun c hc => ?_⟩
    · obtain rfl : '"' = c := by simpa [debug] using hc
      decide
    · obtain rfl : '"' = c := by
        rw [debug, ← List.cons_append, List.getLast?_append] at hc; simpa using hc
      decide
  have hquoted : quotedBy '"' (debug T s) = true := by
    simp only [quotedBy, debug, ← List.cons_append, List.getLast?_append]
    simp
  rw [unquote, htrim]
  rw [if_pos hquoted, debug, List.tail_cons, List.dropLast_concat]

theorem optString_eq_some_iff {value s : Str} (hs : isNull s = false) :
    optString value = some s ↔ value = s := by
  constructor
  · exact fun h => (optString_spec h).1.symm
  · rintro rfl
    rw [optString, if_neg (by simp [hs])]

theorem reparseText_debug_iff {T : CharTables} {s : Str} (hs : isNull s = false) :
    reparseText (debug T s) = some s ↔ ∀ c ∈ s, Plain T c := by
  rw [reparseText, optString_eq_some_iff hs, unquote_debug, flatMap_escapeDebug_eq_self]

/-- The text has no quotes to lose. -/
def Unquoted (s : Str) : Prop := unquote s = s

instance (s : Str) : Decidable (Unquoted s) := inferInstanceAs (Decidable (_ = _))

theorem reparseText_iff {s : Str} (hs : isNull s = false) :
    reparseText s = some s ↔ Unquoted s := by
  rw [reparseText, optString_eq_some_iff hs, Unquoted]

theorem map_reparseText_iff {α : Type} {display : α → Str} {parse : Str → α}
    (hd : ∀ raw, display (parse raw) = raw) {a : α} (ha : parse (display a) = a)
    (hs : isNull (display a) = false) :
    (reparseText (display a)).map parse = some a ↔ Unquoted (display a) := by
  rw [← reparseText_iff hs]
  constructor
  · intro h
    obtain ⟨s, hs, rfl⟩ := Option.map_eq_some_iff.1 h
    rw [hd] at hs ⊢
    exact hs
  · intro h
    rw [h, Option.map_some, ha]

theorem option_fixed_iff {α : Type} {f : Option α → Option α} {P : α → Prop} {v : Option α}
    (hnone : f none = none) (hsome : ∀ a ∈ v, f (some a) = some a ↔ P a) :
    f v = v ↔ ∀ a ∈ v, P a := by
  cases v with
  | none => simp [hnone]
  | some a => simpa using hsome a rfl

section Fields

variable {fm : Frontmatter} (h : Parsed fm)
include h

theorem Parsed.isNull_eq_false {s : Str} (hs : s ∈ texts fm) : isNull s = false := (h.text s hs).2

theorem Parsed.reparse_title_iff (T : CharTables) :
    (reparse T fm).title = fm.title ↔ ∀ s ∈ fm.title, ∀ c ∈ s, Plain T c :=
  option_fixed_iff (f := fun v => v.bind fun s => reparseText (debug T s)) rfl fun s hs =>
    reparseText_debug_iff (h.isNull_eq_false (by rw [mem_texts]; tauto))

theorem Parsed.reparse_expires_iff (T : CharTables) :
    (reparse T fm).expires = fm.expires ↔ ∀ s ∈ fm.expires, ∀ c ∈ s, Plain T c :=
  option_fixed_iff (f := fun v => v.bind fun s => reparseText (debug T s)) rfl fun s hs =>
    reparseText_debug_iff (h.isNull_eq_false (by rw [mem_texts]; tauto))

theorem Parsed.reparse_workspace_iff (T : CharTables) :
    (reparse T fm).workspace = fm.workspace ↔ ∀ s ∈ fm.workspace, Unquoted s :=
  option_fixed_iff (f := fun v => v.bind reparseText) rfl fun s hs =>
    reparseText_iff (h.isNull_eq_false (by rw [mem_texts]; tauto))

theorem Parsed.reparse_tokensRaw_iff :
    fm.tokensRaw.bind reparseText = fm.tokensRaw ↔ ∀ s ∈ fm.tokensRaw, Unquoted s :=
  option_fixed_iff (f := fun v => v.bind reparseText) rfl fun s hs =>
    reparseText_iff (h.isNull_eq_false (by rw [mem_texts]; tauto))

theorem Parsed.reparse_itemType_iff (T : CharTables) :
    (reparse T fm).itemType = fm.itemType ↔ ∀ t ∈ fm.itemType, Unquoted t.display :=
  option_fixed_iff
    (f := fun v => (v.bind fun t : ItemType => reparseText t.display).map ItemType.parse) rfl
    fun t ht => map_reparseText_iff ItemType.display_parse (h.canonical.1 t ht)
      (h.isNull_eq_false (by rw [mem_texts, show fm.itemType = some t from ht]; simp))

theorem Parsed.reparse_scope_iff (T : CharTables) :
    (reparse T fm).scope = fm.scope ↔ ∀ s ∈ fm.scope, Unquoted s.display :=
  option_fixed_iff (f := fun v => (v.bind fun s : Scope => reparseText s.display).map Scope.parse)
    rfl fun s hs => map_reparseText_iff Scope.display_parse (h.canonical.2.1 s hs)
      (h.isNull_eq_false (by rw [mem_texts, show fm.scope = some s from hs]; simp))

theorem Parsed.reparse_visibility_iff (T : CharTables) :
    (reparse T fm).visibility = fm.visibility ↔ ∀ v ∈ fm.visibility, Unquoted v.display :=
  option_fixed_iff
    (f := fun v => (v.bind fun w : Visibility => reparseText w.display).map Visibility.parse) rfl
    fun v hv => map_reparseText_iff Visibility.display_parse (h.canonical.2.2.1 v hv)
      (h.isNull_eq_false (by rw [mem_texts, show fm.visibility = some v from hv]; simp))

theorem Parsed.reparse_confidence_iff (T : CharTables) :
    (reparse T fm).confidence = fm.confidence ↔ ∀ c ∈ fm.confidence, Unquoted c.display :=
  option_fixed_iff
    (f := fun v => (v.bind fun c : Confidence => reparseText c.display).map Confidence.parse) rfl
    fun c hc => map_reparseText_iff Confidence.display_parse (h.canonical.2.2.2 c hc)
      (h.isNull_eq_false (by rw [mem_texts, show fm.confidence = some c from hc]; simp))

end Fields

end Frontmatter

end Wkp
