import Wkp.Core.Frontmatter

/-!
# Reading a rendered frontmatter back

`Frontmatter.parse_render` : parsing `render fm ++ rest` gives exactly the body `rest` and the
frontmatter `reparse fm`, in which every field is what its own text reads back as.  A field
survives when its text does (`reparse_title` and the lemmas after it): a title whose characters
`{:?}` leaves alone, a workspace that `unquote` leaves alone, a list whose items hold no comma.
-/

namespace Wkp

open Rust

namespace Frontmatter

/-! ### One line at a time -/

theorem parseBlockLoop_eq {n : ℕ} {ls : List Line} (h : ls.length ≤ n)
    (acc : Frontmatter × List Warning) : parseBlockLoop n ls acc = parseLines ls acc := by
  suffices key : ∀ n m (ls : List Line) acc, ls.length ≤ n → ls.length ≤ m →
      parseBlockLoop n ls acc = parseBlockLoop m ls acc from key _ _ _ _ h le_rfl
  clear h
  intro n
  induction n with
  | zero =>
    intro m ls acc hn _
    obtain rfl := List.eq_nil_of_length_eq_zero (Nat.le_zero.1 hn)
    cases m <;> rfl
  | succ n ih =>
    intro m ls acc hn hm
    cases ls with
    | nil => cases m <;> rfl
    | cons line rest =>
      obtain ⟨m, rfl⟩ : ∃ k, m = k + 1 := ⟨m - 1, by simp at hm; omega⟩
      simp only [List.length_cons, Nat.add_le_add_iff_right] at hn hm
      have hdrop := (List.dropWhile_sublist (fun l : Line => decide (0 < l.indent))
        (l := rest)).length_le
      simp only [parseBlockLoop]
      split_ifs
      · exact ih _ _ _ hn hm
      · cases splitKeyValue line.content with
        | none => exact ih _ _ _ hn hm
        | some kv =>
          dsimp only
          split_ifs
          · exact ih _ _ _ (hdrop.trans hn) (hdrop.trans hm)
          · exact ih _ _ _ hn hm

@[simp] theorem parseLines_nil (acc : Frontmatter × List Warning) : parseLines [] acc = acc := rfl

theorem parseLines_scalar {line : Line} {key value : Str} (hi : line.indent = 0)
    (hkv : splitKeyValue line.content = some (key, value)) (hv : value ≠ []) (rest : List Line)
    (acc : Frontmatter × List Warning) :
    parseLines (line :: rest) acc = parseLines rest (applyScalarValue acc key value) := by
  rw [parseLines, List.length_cons, parseBlockLoop, if_neg (by simp [hi]), hkv]
  simp only [hv, ↓reduceIte]
  rfl

theorem parseLines_block {line : Line} {key : Str} (hi : line.indent = 0)
    (hkv : splitKeyValue line.content = some (key, [])) (rest : List Line)
    (acc : Frontmatter × List Warning) :
    parseLines (line :: rest) acc = parseLines (rest.dropWhile fun l => 0 < l.indent)
      (applyBlockValue acc key (rest.takeWhile fun l => 0 < l.indent)) := by
  rw [parseLines, List.length_cons, parseBlockLoop, if_neg (by simp [hi]), hkv]
  simp only [↓reduceIte]
  exact parseBlockLoop_eq (List.dropWhile_sublist _).length_le _

/-! ### A rendered line -/

/-- A key as `renderLines` writes it: what the scanner needs to read it back. -/
def keyOk (k : Str) : Bool :=
  match k with
  | [] => false
  | c :: _ => c != ' ' && c != '#' && k.all fun d => d != ':' && !isWhitespace d

theorem keyOk_spec {k : Str} (h : keyOk k = true) :
    (∃ c l, k = c :: l ∧ c ≠ ' ' ∧ c ≠ '#') ∧
      ∀ c ∈ k, c ≠ ':' ∧ isWhitespace c = false := by
  cases k with
  | nil => simp [keyOk] at h
  | cons c l =>
    simp only [keyOk, Bool.and_eq_true, bne_iff_ne, List.all_eq_true, Bool.not_eq_true'] at h
    exact ⟨⟨c, l, rfl, h.1.1, h.1.2⟩, h.2⟩

theorem keyLine_eq (key : String) (s : Str) : keyLine key s = key.toList ++ ':' :: ' ' :: s := by
  simp [keyLine]

/-- The line `key: value`, indented by `n`, without its trailing whitespace. -/
def lineOf (n : ℕ) (key s : Str) : Line := ⟨n, key ++ ':' :: trimEnd (' ' :: s)⟩

theorem splitKeyValue_lineOf {n : ℕ} {key : Str} (hk : keyOk key = true) (s : Str) :
    splitKeyValue (lineOf n key s).content = some (key, trim s) := by
  obtain ⟨⟨c, l, rfl, -⟩, hall⟩ := keyOk_spec hk
  have htrim : trim (c :: l) = c :: l := trim_eq_self
    ⟨fun d hd => (hall d (List.mem_of_mem_head? hd)).2,
      fun d hd => (hall d (List.mem_of_mem_getLast? hd)).2⟩
  rw [splitKeyValue, lineOf, splitOnce_append fun h => (hall _ h).1 rfl]
  simp only [htrim, reduceCtorEq, ↓reduceIte, trim_trimEnd]
  rw [trim_cons_of_ws (by decide)]

theorem logicalLine_spaces {key : Str} (hk : keyOk key = true) (n : ℕ) (t : Str) :
    logicalLine (List.replicate n ' ' ++ (key ++ ':' :: t)) =
      some ⟨n, key ++ ':' :: trimEnd t⟩ := by
  obtain ⟨⟨c, l, rfl, hsp, hhash⟩, -⟩ := keyOk_spec hk
  have hcr : (List.replicate n ' ' ++ (c :: l ++ ':' :: t)).rdropWhile (fun d => d = '\r') =
      List.replicate n ' ' ++ (c :: l ++ ':' :: t.rdropWhile fun d => d = '\r') := by
    rw [← List.append_assoc, rdropWhile_append_cons (by decide), List.append_assoc]
  have hdrop : ∀ t : Str, (List.replicate n ' ' ++ (c :: l ++ t)).dropWhile (fun d => d = ' ') =
      c :: l ++ t := by
    intro t
    rw [List.dropWhile_append_of_pos fun d hd => by simp [List.eq_of_mem_replicate hd],
      List.cons_append, List.dropWhile_cons_of_neg (by simpa using hsp)]
  have htrim : trimEnd (c :: l ++ ':' :: t.rdropWhile fun d => d = '\r') =
      c :: l ++ ':' :: trimEnd t := by
    rw [trimEnd_append_cons (by decide), trimEnd_rdropWhile]
    intro d hd
    rw [of_decide_eq_true hd]; decide
  simp only [logicalLine, hcr, hdrop, htrim]
  rw [if_neg (by simpa using hhash)]
  simp

/-- A trailing carriage return, which `lines` strips, is invisible to `logicalLine`. -/
theorem logicalLine_stripSuffix_cr (l : Str) :
    logicalLine ((stripSuffix l ['\r']).getD l) = logicalLine l := by
  cases h : stripSuffix l ['\r'] with
  | none => rfl
  | some r =>
    rw [stripSuffix_eq_some_iff] at h
    subst h
    simp only [Option.getD_some, logicalLine]
    rw [List.rdropWhile_concat_pos _ _ _ (by decide)]

theorem logicalLines_flatMap {ls : List Str} (h : ∀ l ∈ ls, '\n' ∉ l) :
    logicalLines (ls.flatMap (· ++ ['\n'])) = ls.filterMap logicalLine := by
  have hsplit := splitInclusive_lines h []
  simp only [List.append_nil, splitInclusive] at hsplit
  rw [logicalLines, lines, hsplit, List.filterMap_map, List.filterMap_map]
  refine List.filterMap_congr fun l _ => ?_
  simp only [Function.comp_apply, stripLineEnding_lf, logicalLine_stripSuffix_cr]

theorem filterMap_optLine {n : ℕ} {key : String} {k : Str}
    (hkey : key.toList = List.replicate n ' ' ++ k) (hk : keyOk k = true) (v : Option Str) :
    (optLine key v).filterMap logicalLine = (v.map (lineOf n k)).toList := by
  cases v with
  | none => rfl
  | some s =>
    have := logicalLine_spaces hk n (' ' :: s)
    simp only [optLine, Option.map_some, Option.toList_some, keyLine_eq, hkey,
      List.append_assoc, List.filterMap_cons, this, List.filterMap_nil]
    rfl

/-! ### Reading the fields back -/

/-- What a rendered value reads back as. -/
def reparseText (s : Str) : Option Str := optString (unquote s)

/-- What a rendered list reads back as. -/
def reparseList (items : List Str) : List Str :=
  if items = [] then []
  else (parseInlineList ('[' :: (join ", ".toList items ++ [']']))).getD []

/-- What a rendered provenance reads back as. -/
def reparseProvenance (T : CharTables) (prov : Provenance) : Provenance where
  actor := prov.actor.bind fun s => reparseText (debug T s)
  session := prov.session.bind fun s => reparseText (debug T s)
  source := (prov.source.bind fun s => reparseText s.display).map SourceKind.parse

/-- What a rendered frontmatter reads back as, field by field. -/
def reparse (T : CharTables) (fm : Frontmatter) : Frontmatter where
  title := fm.title.bind fun s => reparseText (debug T s)
  itemType := (fm.itemType.bind fun t => reparseText t.display).map ItemType.parse
  scope := (fm.scope.bind fun s => reparseText s.display).map Scope.parse
  workspace := fm.workspace.bind reparseText
  visibility := (fm.visibility.bind fun v => reparseText v.display).map Visibility.parse
  provenance := reparseProvenance T fm.provenance
  confidence := (fm.confidence.bind fun c => reparseText c.display).map Confidence.parse
  expires := fm.expires.bind fun s => reparseText (debug T s)
  tokensRaw := fm.tokensText.bind reparseText
  tokens := (fm.tokensText.bind reparseText).bind parseTokens
  tags := reparseList fm.tags
  refs := reparseList fm.refs
  updated := fm.updated.bind fun s => reparseText (debug T s)

theorem unquote_trim (s : Str) : unquote (trim s) = unquote s := by
  simp only [unquote, trim_trim]

/-- Apply an optional field as it comes out of its rendered line. -/
def applyField (acc : Frontmatter × List Warning) (key : Str) (v : Option Str) :
    Frontmatter × List Warning :=
  match v with
  | none => acc
  | some s => if trim s = [] then applyBlockValue acc key [] else applyScalarValue acc key (trim s)

/-- The first line, if any, is not indented: it does not continue the field before it. -/
def NotIndented (ls : List Line) : Prop := ∀ l ∈ ls.head?, l.indent = 0

theorem notIndented_field {rest : List Line} (h : NotIndented rest) (key : Str) (v : Option Str) :
    NotIndented ((v.map (lineOf 0 key)).toList ++ rest) := by
  cases v with
  | none => exact h
  | some s => intro l hl; obtain rfl : lineOf 0 key s = l := by simpa using hl
              rfl

theorem takeWhile_notIndented {rest : List Line} (h : NotIndented rest) :
    (rest.takeWhile fun l => 0 < l.indent) = [] ∧
      (rest.dropWhile fun l => 0 < l.indent) = rest := by
  cases rest with
  | nil => simp
  | cons l rest => simp [h l (by simp)]

theorem parseLines_field {key : Str} (hk : keyOk key = true) {rest : List Line}
    (hrest : NotIndented rest) (v : Option Str) (acc : Frontmatter × List Warning) :
    parseLines ((v.map (lineOf 0 key)).toList ++ rest) acc =
      parseLines rest (applyField acc key v) := by
  cases v with
  | none => rfl
  | some s =>
    have hkv := splitKeyValue_lineOf (n := 0) hk s
    simp only [Option.map_some, Option.toList_some, List.cons_append, List.nil_append, applyField]
    split_ifs with hs
    · rw [hs] at hkv
      rw [parseLines_block rfl hkv, (takeWhile_notIndented hrest).1,
        (takeWhile_notIndented hrest).2]
    · exact parseLines_scalar rfl hkv hs _ _

/-- The logical lines of a run of optional fields. -/
def fieldLines (fields : List (Str × Option Str)) : List Line :=
  fields.flatMap fun f => (f.2.map (lineOf 0 f.1)).toList

theorem fieldLines_cons (f : Str × Option Str) (fields : List (Str × Option Str)) :
    fieldLines (f :: fields) = (f.2.map (lineOf 0 f.1)).toList ++ fieldLines fields := rfl

theorem notIndented_fieldLines {rest : List Line} (h : NotIndented rest)
    (fields : List (Str × Option Str)) : NotIndented (fieldLines fields ++ rest) := by
  induction fields with
  | nil => exact h
  | cons f fields ih =>
    rw [fieldLines_cons, List.append_assoc]
    exact notIndented_field ih _ _

theorem parseLines_fields {rest : List Line} (hrest : NotIndented rest)
    {fields : List (Str × Option Str)} (hk : ∀ f ∈ fields, keyOk f.1 = true)
    (acc : Frontmatter × List Warning) :
    parseLines (fieldLines fields ++ rest) acc =
      parseLines rest (fields.foldl (fun acc f => applyField acc f.1 f.2) acc) := by
  induction fields generalizing acc with
  | nil => rfl
  | cons f fields ih =>
    rw [fieldLines_cons, List.append_assoc, parseLines_field (hk f (by simp))
      (notIndented_fieldLines hrest fields)]
    exact ih (fun g hg => hk g (List.mem_cons_of_mem _ hg)) _

/-- A field whose setter gets the unquoted value, on a frontmatter that does not have it yet. -/
theorem applyField_of {key : Str} {fm : Frontmatter} (set : Option Str → Frontmatter)
    (hscalar : ∀ ws value, applyScalarValue (fm, ws) key value =
      (set (optString (unquote value)), ws))
    (hblock : ∀ ws, applyBlockValue (fm, ws) key [] = (fm, ws)) (hnone : set none = fm)
    (ws : List Warning) (v : Option Str) :
    applyField (fm, ws) key v = (set (v.bind reparseText), ws) := by
  cases v with
  | none => rw [applyField, Option.bind_none, hnone]
  | some s =>
    simp only [applyField, Option.bind_some, reparseText]
    split_ifs with hs
    · rw [hblock, ← unquote_trim, hs, ← hnone]; rfl
    · rw [hscalar, unquote_trim]

/-! ### One field at a time -/

/-- The text of a list field. -/
def listText (items : List Str) : Option Str :=
  if items = [] then none else some ('[' :: (join ", ".toList items ++ [']']))

section Fields

variable (fm : Frontmatter) (ws : List Warning) (v : Option Str)

theorem applyBlockValue_nil {key : Str}
    (h : key ≠ "provenance".toList ∧ key ≠ "tags".toList ∧ key ≠ "refs".toList) :
    applyBlockValue (fm, ws) key [] = (fm, ws) := by
  rw [applyBlockValue, if_neg h.1, if_neg h.2.1, if_neg h.2.2]

theorem applyField_title (h : fm.title = none) : applyField (fm, ws) "title".toList v =
    ({ fm with title := v.bind reparseText }, ws) :=
  applyField_of (fun v => { fm with title := v })
    (fun ws value => by
      rw [applyScalarValue]
      rw [if_pos rfl])
    (fun ws => applyBlockValue_nil fm ws (by decide)) (by rw [← h]) ws v

theorem applyField_itemType (h : fm.itemType = none) : applyField (fm, ws) "type".toList v =
    ({ fm with itemType := (v.bind reparseText).map ItemType.parse }, ws) :=
  applyField_of (fun v => { fm with itemType := v.map ItemType.parse })
    (fun ws value => by
      rw [applyScalarValue]; iterate 1 rw [if_neg (by decide)]
      rw [if_pos rfl])
    (fun ws => applyBlockValue_nil fm ws (by decide)) (by rw [Option.map_none, ← h]) ws v

theorem applyField_scope (h : fm.scope = none) : applyField (fm, ws) "scope".toList v =
    ({ fm with scope := (v.bind reparseText).map Scope.parse }, ws) :=
  applyField_of (fun v => { fm with scope := v.map Scope.parse })
    (fun ws value => by
      rw [applyScalarValue]; iterate 2 rw [if_neg (by decide)]
      rw [if_pos rfl])
    (fun ws => applyBlockValue_nil fm ws (by decide)) (by rw [Option.map_none, ← h]) ws v

theorem applyField_workspace (h : fm.workspace = none) : applyField (fm, ws) "workspace".toList v =
    ({ fm with workspace := v.bind reparseText }, ws) :=
  applyField_of (fun v => { fm with workspace := v })
    (fun ws value => by
      rw [applyScalarValue]; iterate 3 rw [if_neg (by decide)]
      rw [if_pos rfl])
    (fun ws => applyBlockValue_nil fm ws (by decide)) (by rw [← h]) ws v

theorem applyField_visibility (h : fm.visibility = none) : applyField (fm, ws) "visibility".toList v =
    ({ fm with visibility := (v.bind reparseText).map Visibility.parse }, ws) :=
  applyField_of (fun v => { fm with visibility := v.map Visibility.parse })
    (fun ws value => by
      rw [applyScalarValue]; iterate 4 rw [if_neg (by decide)]
      rw [if_pos rfl])
    (fun ws => applyBlockValue_nil fm ws (by decide)) (by rw [Option.map_none, ← h]) ws v

theorem applyField_confidence (h : fm.confidence = none) : applyField (fm, ws) "confidence".toList v =
    ({ fm with confidence := (v.bind reparseText).map Confidence.parse }, ws) :=
  applyField_of (fun v => { fm with confidence := v.map Confidence.parse })
    (fun ws value => by
      rw [applyScalarValue]; iterate 5 rw [if_neg (by decide)]
      rw [if_pos rfl])
    (fun ws => applyBlockValue_nil fm ws (by decide)) (by rw [Option.map_none, ← h]) ws v

theorem applyField_expires (h : fm.expires = none) : applyField (fm, ws) "expires".toList v =
    ({ fm with expires := v.bind reparseText }, ws) :=
  applyField_of (fun v => { fm with expires := v })
    (fun ws value => by
      rw [applyScalarValue]; iterate 6 rw [if_neg (by decide)]
      rw [if_pos rfl])
    (fun ws => applyBlockValue_nil fm ws (by decide)) (by rw [← h]) ws v

theorem applyField_updated (h : fm.updated = none) : applyField (fm, ws) "updated".toList v =
    ({ fm with updated := v.bind reparseText }, ws) :=
  applyField_of (fun v => { fm with updated := v })
    (fun ws value => by
      rw [applyScalarValue]; iterate 7 rw [if_neg (by decide)]
      rw [if_pos rfl])
    (fun ws => applyBlockValue_nil fm ws (by decide)) (by rw [← h]) ws v

theorem applyField_tokens (h : fm.tokensRaw = none) (h' : fm.tokens = none) :
    applyField (fm, ws) "tokens".toList v = ({ fm with
      tokensRaw := v.bind reparseText, tokens := (v.bind reparseText).bind parseTokens }, ws) :=
  applyField_of (fun v => { fm with tokensRaw := v, tokens := v.bind parseTokens })
    (fun ws value => by
      rw [applyScalarValue]; iterate 8 rw [if_neg (by decide)]
      rw [if_pos rfl, optString]
      split_ifs <;> rfl)
    (fun ws => applyBlockValue_nil fm ws (by decide)) (by rw [Option.bind_none, ← h', ← h]) ws v

/-- A bracketed text is a value as it stands: neither trimmed nor unquoted. -/
theorem unquote_bracketed (t : Str) :
    trim ('[' :: (t ++ [']'])) = '[' :: (t ++ [']']) ∧
      unquote ('[' :: (t ++ [']'])) = '[' :: (t ++ [']']) := by
  have htrim : trim ('[' :: (t ++ [']'])) = '[' :: (t ++ [']']) := by
    refine trim_eq_self ⟨fun c hc => ?_, fun c hc => ?_⟩
    · obtain rfl : '[' = c := by simpa using hc
      decide
    · obtain rfl : ']' = c := by
        rw [← List.cons_append, List.getLast?_append] at hc; simpa using hc
      decide
  refine ⟨htrim, ?_⟩
  rw [unquote, htrim]
  simp [quotedBy]

theorem parseInlineList_bracketed (t : Str) :
    (parseInlineList ('[' :: (t ++ [']']))).isSome := by
  rw [parseInlineList, show '[' :: (t ++ [']']) = ['['] ++ (t ++ [']']) from rfl,
    stripPrefix_append]
  simp only [Option.bind_eq_bind, Option.bind_some, stripSuffix_append]
  split_ifs <;> rfl

theorem getD_parseInlineList (items : List Str) (h : items ≠ []) (d : List Str) :
    (parseInlineList ('[' :: (join ", ".toList items ++ [']']))).getD d = reparseList items := by
  rw [reparseList, if_neg h]
  obtain ⟨l, hl⟩ := Option.isSome_iff_exists.1 (parseInlineList_bracketed (join ", ".toList items))
  rw [hl, Option.getD_some, Option.getD_some]

theorem applyField_tags (h : fm.tags = []) (items : List Str) :
    applyField (fm, ws) "tags".toList (listText items) =
      ({ fm with tags := reparseList items }, ws) := by
  rw [listText]
  split_ifs with hi
  · rw [applyField, reparseList, if_pos hi, ← h]
  · rw [applyField, (unquote_bracketed _).1, if_neg (List.cons_ne_nil _ _), applyScalarValue]
    iterate 9 rw [if_neg (by decide)]
    rw [if_pos rfl, (unquote_bracketed _).2, getD_parseInlineList _ hi]

theorem applyField_refs (h : fm.refs = []) (items : List Str) :
    applyField (fm, ws) "refs".toList (listText items) =
      ({ fm with refs := reparseList items }, ws) := by
  rw [listText]
  split_ifs with hi
  · rw [applyField, reparseList, if_pos hi, ← h]
  · rw [applyField, (unquote_bracketed _).1, if_neg (List.cons_ne_nil _ _), applyScalarValue]
    iterate 10 rw [if_neg (by decide)]
    rw [if_pos rfl, (unquote_bracketed _).2, getD_parseInlineList _ hi]

end Fields

/-! ### Provenance -/

theorem applyProvenanceChild_lineOf {key : Str} (hk : keyOk key = true) (fm : Frontmatter)
    (ws : List Warning) (s : Str) :
    applyProvenanceChild (fm, ws) (lineOf 2 key s) =
      ({ fm with provenance := applyProvenanceField fm.provenance key (unquote s) }, ws) := by
  rw [applyProvenanceChild, splitKeyValue_lineOf hk]
  simp only [unquote_trim]

/-- The logical lines under a rendered `provenance:`. -/
def provenanceChildren (T : CharTables) (prov : Provenance) : List Line :=
  ((prov.actor.map (debug T)).map (lineOf 2 "actor".toList)).toList ++
    ((prov.session.map (debug T)).map (lineOf 2 "session".toList)).toList ++
    ((prov.source.map SourceKind.display).map (lineOf 2 "source".toList)).toList

theorem indent_of_mem_provenanceChildren {T : CharTables} {prov : Provenance} {l : Line}
    (h : l ∈ provenanceChildren T prov) : l.indent = 2 := by
  simp only [provenanceChildren, List.mem_append, Option.mem_toList,
    Option.map_eq_some_iff] at h
  rcases h with (⟨s, -, rfl⟩ | ⟨s, -, rfl⟩) | ⟨s, -, rfl⟩ <;> rfl

theorem applyProvenanceField_actor (prov : Provenance) (value : Str) :
    applyProvenanceField prov "actor".toList value = { prov with actor := optString value } := by
  rw [applyProvenanceField, if_pos rfl]

theorem applyProvenanceField_session (prov : Provenance) (value : Str) :
    applyProvenanceField prov "session".toList value =
      { prov with session := optString value } := by
  rw [applyProvenanceField, if_neg (by decide), if_pos rfl]

theorem applyProvenanceField_source (prov : Provenance) (value : Str) :
    applyProvenanceField prov "source".toList value =
      { prov with source := (optString value).map SourceKind.parse } := by
  rw [applyProvenanceField, if_neg (by decide), if_neg (by decide), if_pos rfl]

theorem foldl_provenanceChildren (T : CharTables) (prov : Provenance) (fm : Frontmatter)
    (ws : List Warning) (hfm : fm.provenance = {}) :
    (provenanceChildren T prov).foldl applyProvenanceChild (fm, ws) =
      ({ fm with provenance := reparseProvenance T prov }, ws) := by
  have hactor : keyOk "actor".toList = true := by decide
  have hsession : keyOk "session".toList = true := by decide
  have hsource : keyOk "source".toList = true := by decide
  obtain ⟨actor, session, source⟩ := prov
  obtain ⟨title, itemType, scope, workspace, visibility, provenance⟩ := fm
  obtain rfl : provenance = {} := hfm
  rw [provenanceChildren, List.foldl_append, List.foldl_append]
  cases actor <;> cases session <;> cases source <;>
    simp only [Option.map_some, Option.map_none, Option.toList_some, Option.toList_none,
      List.foldl_cons, List.foldl_nil, applyProvenanceChild_lineOf hactor,
      applyProvenanceChild_lineOf hsession, applyProvenanceChild_lineOf hsource,
      applyProvenanceField_actor, applyProvenanceField_session, applyProvenanceField_source,
      reparseProvenance, reparseText, Option.bind_some, Option.bind_none]

/-! ### The whole block -/

theorem listLine_eq (key : String) (items : List Str) :
    listLine key items = optLine key (listText items) := by
  rw [listLine, listText]
  split_ifs <;> rfl

/-- The fields rendered before `provenance:`. -/
def headFields (T : CharTables) (fm : Frontmatter) : List (Str × Option Str) :=
  [("title".toList, fm.title.map (debug T)),
    ("type".toList, fm.itemType.map ItemType.display),
    ("scope".toList, fm.scope.map Scope.display),
    ("workspace".toList, fm.workspace),
    ("visibility".toList, fm.visibility.map Visibility.display)]

/-- The fields rendered after it. -/
def tailFields (T : CharTables) (fm : Frontmatter) : List (Str × Option Str) :=
  [("confidence".toList, fm.confidence.map Confidence.display),
    ("expires".toList, fm.expires.map (debug T)),
    ("tokens".toList, fm.tokensText),
    ("tags".toList, listText fm.tags),
    ("refs".toList, listText fm.refs),
    ("updated".toList, fm.updated.map (debug T))]

theorem keyOk_headFields (T : CharTables) (fm : Frontmatter) :
    ∀ f ∈ headFields T fm, keyOk f.1 = true := by
  simp only [headFields, List.forall_mem_cons, List.not_mem_nil, false_imp_iff, implies_true,
    and_true]
  decide

theorem keyOk_tailFields (T : CharTables) (fm : Frontmatter) :
    ∀ f ∈ tailFields T fm, keyOk f.1 = true := by
  simp only [tailFields, List.forall_mem_cons, List.not_mem_nil, false_imp_iff, implies_true,
    and_true]
  decide

/-- The logical lines of a rendered `provenance:`. -/
def provenanceBlock (T : CharTables) (prov : Provenance) : List Line :=
  if prov.actor.isSome ∨ prov.session.isSome ∨ prov.source.isSome then
    ⟨0, "provenance:".toList⟩ :: provenanceChildren T prov
  else []

theorem filterMap_provenanceLines (T : CharTables) (prov : Provenance) :
    (provenanceLines T prov).filterMap logicalLine = provenanceBlock T prov := by
  have hline : logicalLine "provenance:".toList = some ⟨0, "provenance:".toList⟩ := by decide
  rw [provenanceLines, provenanceBlock]
  split_ifs
  · rw [List.filterMap_cons, hline]
    simp only [List.filterMap_append, provenanceChildren]
    rw [filterMap_optLine (n := 2) (k := "actor".toList) rfl (by decide),
      filterMap_optLine (n := 2) (k := "session".toList) rfl (by decide),
      filterMap_optLine (n := 2) (k := "source".toList) rfl (by decide)]
  · rfl

theorem filterMap_renderLines (T : CharTables) (fm : Frontmatter) :
    (renderLines T fm).filterMap logicalLine =
      fieldLines (headFields T fm) ++
        (provenanceBlock T fm.provenance ++ fieldLines (tailFields T fm)) := by
  have field : ∀ (key : String) (v : Option Str), keyOk key.toList = true →
      (optLine key v).filterMap logicalLine = (v.map (lineOf 0 key.toList)).toList :=
    fun key v hk => filterMap_optLine (n := 0) rfl hk v
  simp only [renderLines, listLine_eq, List.filterMap_append, filterMap_provenanceLines]
  rw [field "title" _ (by decide), field "type" _ (by decide), field "scope" _ (by decide),
    field "workspace" _ (by decide), field "visibility" _ (by decide),
    field "confidence" _ (by decide), field "expires" _ (by decide),
    field "tokens" _ (by decide), field "tags" _ (by decide), field "refs" _ (by decide),
    field "updated" _ (by decide)]
  simp only [fieldLines, headFields, tailFields, List.flatMap_cons, List.flatMap_nil,
    List.append_nil, List.append_assoc]

theorem foldl_headFields (T : CharTables) (fm : Frontmatter) (ws : List Warning) :
    (headFields T fm).foldl (fun acc f => applyField acc f.1 f.2) (default, ws) =
      ({ title := (reparse T fm).title, itemType := (reparse T fm).itemType,
         scope := (reparse T fm).scope, workspace := (reparse T fm).workspace,
         visibility := (reparse T fm).visibility }, ws) := by
  simp only [headFields, List.foldl_cons, List.foldl_nil]
  rw [applyField_title _ _ _ rfl, applyField_itemType _ _ _ rfl, applyField_scope _ _ _ rfl,
    applyField_workspace _ _ _ rfl, applyField_visibility _ _ _ rfl]
  simp only [reparse, Option.bind_map]
  rfl

theorem parseLines_provenanceBlock (T : CharTables) (prov : Provenance) {rest : List Line}
    (hrest : NotIndented rest) (fm : Frontmatter) (ws : List Warning) (hfm : fm.provenance = {}) :
    parseLines (provenanceBlock T prov ++ rest) (fm, ws) =
      parseLines rest ({ fm with provenance := reparseProvenance T prov }, ws) := by
  rw [provenanceBlock]
  split_ifs with hp
  · have hkv : splitKeyValue "provenance:".toList = some ("provenance".toList, []) := by decide
    have htake : (provenanceChildren T prov ++ rest).takeWhile (fun l => 0 < l.indent) =
        provenanceChildren T prov := by
      rw [List.takeWhile_append_of_pos fun l hl => by
        simp [indent_of_mem_provenanceChildren hl], (takeWhile_notIndented hrest).1,
        List.append_nil]
    have hdrop : (provenanceChildren T prov ++ rest).dropWhile (fun l => 0 < l.indent) = rest := by
      rw [List.dropWhile_append_of_pos fun l hl => by
        simp [indent_of_mem_provenanceChildren hl], (takeWhile_notIndented hrest).2]
    rw [List.cons_append, parseLines_block rfl hkv, htake, hdrop, applyBlockValue, if_pos rfl,
      foldl_provenanceChildren _ _ _ _ hfm]
  · obtain ⟨actor, session, source⟩ := prov
    obtain ⟨rfl, rfl, rfl⟩ : actor = none ∧ session = none ∧ source = none := by
      simpa [not_or, Option.not_isSome_iff_eq_none] using hp
    rw [List.nil_append]
    obtain ⟨title, itemType, scope, workspace, visibility, provenance⟩ := fm
    obtain rfl : provenance = {} := hfm
    rfl

/-- The lines of a rendered block read back, without a warning. -/
theorem parseLines_renderLines (T : CharTables) (fm : Frontmatter) :
    parseLines ((renderLines T fm).filterMap logicalLine) (default, []) = (reparse T fm, []) := by
  have hnil : NotIndented ([] : List Line) := fun l hl => by simp at hl
  have htail : NotIndented (fieldLines (tailFields T fm)) := by
    simpa using notIndented_fieldLines hnil (tailFields T fm)
  have hprov : NotIndented (provenanceBlock T fm.provenance ++ fieldLines (tailFields T fm)) := by
    rw [provenanceBlock]
    split_ifs
    · intro l hl
      obtain rfl : (⟨0, "provenance:".toList⟩ : Line) = l := by simpa using hl
      rfl
    · exact htail
  rw [filterMap_renderLines, parseLines_fields hprov (keyOk_headFields T fm), foldl_headFields,
    parseLines_provenanceBlock _ _ htail _ _ rfl, ← List.append_nil (fieldLines _),
    parseLines_fields hnil (keyOk_tailFields T fm), parseLines_nil]
  simp only [tailFields, List.foldl_cons, List.foldl_nil]
  rw [applyField_confidence _ _ _ rfl, applyField_expires _ _ _ rfl,
    applyField_tokens _ _ _ rfl rfl, applyField_tags _ _ rfl, applyField_refs _ _ rfl,
    applyField_updated _ _ _ rfl]
  simp only [reparse, Option.bind_map]
  rfl

/-! ### Between the delimiters -/

/-- Nothing that `render` writes as it is holds a line feed. -/
structure LineSafe (fm : Frontmatter) : Prop where
  /-- The type. -/
  itemType : ∀ t ∈ fm.itemType, '\n' ∉ t.display
  /-- The scope. -/
  scope : ∀ s ∈ fm.scope, '\n' ∉ s.display
  /-- The workspace. -/
  workspace : ∀ w ∈ fm.workspace, '\n' ∉ w
  /-- The visibility. -/
  visibility : ∀ v ∈ fm.visibility, '\n' ∉ v.display
  /-- The source of the provenance. -/
  source : ∀ s ∈ fm.provenance.source, '\n' ∉ s.display
  /-- The confidence. -/
  confidence : ∀ c ∈ fm.confidence, '\n' ∉ c.display
  /-- The tokens. -/
  tokensRaw : ∀ t ∈ fm.tokensRaw, '\n' ∉ t
  /-- The tags. -/
  tags : ∀ t ∈ fm.tags, '\n' ∉ t
  /-- The references. -/
  refs : ∀ r ∈ fm.refs, '\n' ∉ r

/-- A line between the delimiters: one line, and not a delimiter itself. -/
def InnerLine (l : Str) : Prop := '\n' ∉ l ∧ ':' ∈ l

theorem InnerLine.not_isDelimiterLine {l : Str} (h : InnerLine l) :
    isDelimiterLine (l ++ ['\n']) = false := by
  rw [isDelimiterLine, decide_eq_false_iff_not, List.rdropWhile_concat_pos _ _ _ (by decide)]
  intro htrim
  have hmem : ':' ∈ l.rdropWhile fun c => c = '\n' ∨ c = '\r' := by
    have h2 := h.2
    rw [← List.rdropWhile_append_rtakeWhile (p := fun c => decide (c = '\n' ∨ c = '\r')) (l := l),
      List.mem_append] at h2
    rcases h2 with h2 | h2
    · exact h2
    · exact absurd (List.mem_rtakeWhile_imp h2) (by decide)
  rcases mem_trim_or_isWhitespace hmem with hin | hws
  · rw [htrim] at hin
    exact absurd hin (by decide)
  · exact absurd hws (by decide)

theorem splitAtClosingDelimiterLoop_innerLines {ls : List Str} (h : ∀ l ∈ ls, InnerLine l)
    (block : Str) (rest : List Str) :
    splitAtClosingDelimiterLoop block (ls.map (· ++ ['\n']) ++ "---\n".toList :: rest) =
      some (block ++ ls.flatMap (· ++ ['\n']), rest.flatten) := by
  induction ls generalizing block with
  | nil =>
    rw [List.map_nil, List.nil_append, splitAtClosingDelimiterLoop, if_pos (by decide),
      List.flatMap_nil, List.append_nil]
  | cons l ls ih =>
    rw [List.map_cons, List.cons_append, splitAtClosingDelimiterLoop,
      if_neg (by simp [(h l (by simp)).not_isDelimiterLine]),
      ih (fun m hm => h m (List.mem_cons_of_mem _ hm)), List.flatMap_cons, List.append_assoc]

theorem splitAtClosingDelimiter_innerLines {ls : List Str} (h : ∀ l ∈ ls, InnerLine l)
    (rest : Str) :
    splitAtClosingDelimiter (ls.flatMap (· ++ ['\n']) ++ ("---\n".toList ++ rest)) =
      some (ls.flatMap (· ++ ['\n']), rest) := by
  rw [splitAtClosingDelimiter, splitInclusive_lines (fun l hl => (h l hl).1),
    show "---\n".toList ++ rest = ("---".toList : Str) ++ '\n' :: rest from rfl,
    splitInclusive_line (by decide), show ("---".toList : Str) ++ ['\n'] = "---\n".toList from rfl,
    splitAtClosingDelimiterLoop_innerLines h, flatten_splitInclusive, List.nil_append]

theorem innerLine_optLine {key : String} (hk : '\n' ∉ key.toList) {v : Option Str}
    (hv : ∀ s ∈ v, '\n' ∉ s) : ∀ l ∈ optLine key v, InnerLine l := by
  intro l hl
  cases v with
  | none => simp [optLine] at hl
  | some s =>
    obtain rfl : l = keyLine key s := by simpa [optLine] using hl
    refine ⟨?_, by simp [keyLine_eq]⟩
    have hs : '\n' ∉ s := hv s rfl
    simp only [keyLine_eq, List.mem_append, List.mem_cons, not_or]
    exact ⟨hk, by decide, by decide, hs⟩

theorem lf_notMem_map {α : Type} {f : α → Str} {v : Option α} (h : ∀ a ∈ v, '\n' ∉ f a) :
    ∀ s ∈ v.map f, '\n' ∉ s := by
  intro s hs
  obtain ⟨a, ha, rfl⟩ := Option.map_eq_some_iff.1 hs
  exact h a ha

theorem lf_notMem_listText {items : List Str} (h : ∀ t ∈ items, '\n' ∉ t) :
    ∀ s ∈ listText items, '\n' ∉ s := by
  intro s hs
  rw [listText] at hs
  split_ifs at hs with hi
  · simp at hs
  · obtain rfl : '[' :: (join ", ".toList items ++ [']']) = s := by simpa using hs
    simp only [List.mem_cons, List.mem_append, List.not_mem_nil, or_false, not_or]
    exact ⟨by decide, notMem_join (by decide) h, by decide⟩

theorem lf_notMem_decimal (n : ℕ) : '\n' ∉ decimal n :=
  fun h => absurd (isDigit_of_mem_decimal h) (by decide)

theorem lf_notMem_tokensText {fm : Frontmatter} (h : ∀ t ∈ fm.tokensRaw, '\n' ∉ t) :
    ∀ s ∈ fm.tokensText, '\n' ∉ s := by
  rw [tokensText]
  cases ht : fm.tokensRaw with
  | some t => simpa using h t ht
  | none => exact lf_notMem_map fun n _ => lf_notMem_decimal n

theorem innerLine_provenanceLines (T : CharTables) {prov : Provenance}
    (h : ∀ s ∈ prov.source, '\n' ∉ s.display) : ∀ l ∈ provenanceLines T prov, InnerLine l := by
  intro l hl
  rw [provenanceLines] at hl
  split_ifs at hl
  · simp only [List.mem_cons, List.mem_append] at hl
    rcases hl with rfl | (hl | hl) | hl
    · exact ⟨by decide, by decide⟩
    · exact innerLine_optLine (by decide) (lf_notMem_map fun s _ => lf_notMem_debug s) _ hl
    · exact innerLine_optLine (by decide) (lf_notMem_map fun s _ => lf_notMem_debug s) _ hl
    · exact innerLine_optLine (by decide) (lf_notMem_map h) _ hl
  · simp at hl

theorem LineSafe.innerLine_renderLines {fm : Frontmatter} (h : LineSafe fm) (T : CharTables) :
    ∀ l ∈ renderLines T fm, InnerLine l := by
  have hdebug : ∀ v : Option Str, ∀ s ∈ v.map (debug T), '\n' ∉ s :=
    fun v => lf_notMem_map fun s _ => lf_notMem_debug s
  intro l hl
  simp only [renderLines, listLine_eq, List.mem_append] at hl
  rcases hl with ((((((((((hl | hl) | hl) | hl) | hl) | hl) | hl) | hl) | hl) | hl) | hl) | hl
  · exact innerLine_optLine (by decide) (hdebug _) _ hl
  · exact innerLine_optLine (by decide) (lf_notMem_map h.itemType) _ hl
  · exact innerLine_optLine (by decide) (lf_notMem_map h.scope) _ hl
  · exact innerLine_optLine (by decide) h.workspace _ hl
  · exact innerLine_optLine (by decide) (lf_notMem_map h.visibility) _ hl
  · exact innerLine_provenanceLines T h.source _ hl
  · exact innerLine_optLine (by decide) (lf_notMem_map h.confidence) _ hl
  · exact innerLine_optLine (by decide) (hdebug _) _ hl
  · exact innerLine_optLine (by decide) (lf_notMem_tokensText h.tokensRaw) _ hl
  · exact innerLine_optLine (by decide) (lf_notMem_listText h.tags) _ hl
  · exact innerLine_optLine (by decide) (lf_notMem_listText h.refs) _ hl
  · exact innerLine_optLine (by decide) (hdebug _) _ hl

theorem stripOpeningDelimiter_append (rest : Str) :
    stripOpeningDelimiter ("---\n".toList ++ rest) = some rest := by
  rw [stripOpeningDelimiter,
    show "---\n".toList ++ rest = ("---".toList : Str) ++ '\n' :: rest from rfl,
    splitInclusive_line (by decide)]
  simp only [flatten_splitInclusive]
  rw [if_pos (by decide)]

theorem stripOpeningDelimiter_render (T : CharTables) (fm : Frontmatter) (rest : Str) :
    stripOpeningDelimiter (render T fm ++ rest) =
      some ((renderLines T fm).flatMap (· ++ ['\n']) ++ ("---\n".toList ++ rest)) := by
  rw [render, List.append_assoc, List.append_assoc, stripOpeningDelimiter_append]

theorem split_render {fm : Frontmatter} (h : LineSafe fm) (T : CharTables) (rest : Str) :
    (stripOpeningDelimiter (render T fm ++ rest)).bind splitAtClosingDelimiter =
      some ((renderLines T fm).flatMap (· ++ ['\n']), rest) := by
  rw [stripOpeningDelimiter_render, Option.bind_some,
    splitAtClosingDelimiter_innerLines (h.innerLine_renderLines T)]

theorem parse_of_split {input block body : Str}
    (h : (stripOpeningDelimiter input).bind splitAtClosingDelimiter = some (block, body)) :
    parse input = ⟨(parseBlock block).1, body, (parseBlock block).2⟩ := by
  obtain ⟨afterOpen, h1, h2⟩ := Option.bind_eq_some_iff.1 h
  rw [parse, h1]
  dsimp only
  rw [h2]

theorem logicalLines_render {fm : Frontmatter} (h : LineSafe fm) (T : CharTables) :
    logicalLines ((renderLines T fm).flatMap (· ++ ['\n'])) =
      (renderLines T fm).filterMap logicalLine :=
  logicalLines_flatMap fun l hl => (h.innerLine_renderLines T l hl).1

/-- **A rendered block reads back.**  The body is what follows it, character for character, the
frontmatter is `reparse fm`, and nothing is warned about. -/
theorem parse_render {fm : Frontmatter} (h : LineSafe fm) (T : CharTables) (rest : Str) :
    parse (render T fm ++ rest) = ⟨reparse T fm, rest, []⟩ := by
  rw [parse_of_split (split_render h T rest), parseBlock, logicalLines_render h,
    parseLines_renderLines]

end Frontmatter

end Wkp
