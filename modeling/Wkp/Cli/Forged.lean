import Wkp.Cli.Remembered
import Wkp.Git.DeviceBranch

/-!
# What the arguments of `wkp remember` can forge

* `Cli.Unforged` : each argument gives its own key of the frontmatter, and no other.
* `Cli.writeMemory_unforged_iff` : a type and a scope are written as they are, so this holds exactly
  when none of their lines closes the frontmatter or gives another key.
-/

namespace Wkp

open Rust Frontmatter

namespace Cli

/-! ### The texts between the delimiters -/

namespace RememberOptions

variable (T : CharTables) (opts : RememberOptions)

/-- The provenance of the item. -/
def provenance : Provenance := ⟨some opts.principal, opts.session, some .conversation⟩

/-- The texts of the fields before the provenance. -/
def headTexts : List Str :=
  optLine "title" (some (debug T opts.titleOrType)) ++ optLine "type" (some opts.itemType) ++
    optLine "scope" opts.scope

/-- The lines from the provenance on. -/
def tailLines : List Str :=
  provenanceLines T opts.provenance ++ optLine "confidence" (some "proposed".toList)

/-- The texts between the delimiters. -/
def texts : List Str := opts.headTexts T ++ opts.tailLines T

/-- The lines of the scope. -/
def scopeBlock : List Line :=
  (opts.scope.map fun scope => logicalLines (fieldText "scope" scope)).getD []

/-- The lines from the provenance on, as they are read. -/
def tailBlock : List Line :=
  provenanceBlock T opts.provenance ++ [lineOf 0 "confidence".toList "proposed".toList]

theorem frontmatterBlock_eq : opts.frontmatterBlock T =
    "---\n".toList ++ ((opts.texts T).flatMap (· ++ ['\n']) ++ "---\n".toList) := by
  have hopen : "---\ntitle: ".toList = "---\n".toList ++ ("title".toList ++ ": ".toList) := rfl
  have htype : "\ntype: ".toList = ['\n'] ++ ("type".toList ++ ": ".toList) := rfl
  have hscope : "scope: ".toList = "scope".toList ++ ": ".toList := rfl
  have hprov : "provenance:\n".toList = "provenance:".toList ++ ['\n'] := rfl
  have hactor : "  actor: ".toList = "  actor".toList ++ ": ".toList := rfl
  have hsession : "  session: ".toList = "  session".toList ++ ": ".toList := rfl
  have hsource : "  source: conversation\n".toList =
      "  source".toList ++ (": ".toList ++ (SourceKind.conversation.display ++ ['\n'])) := rfl
  have hclose : "confidence: proposed\n---\n".toList =
      "confidence".toList ++ (": ".toList ++ ("proposed".toList ++ (['\n'] ++ "---\n".toList))) :=
    rfl
  have hlf : "\n".toList = ['\n'] := rfl
  unfold frontmatterBlock rememberFrontmatterBlock texts headTexts tailLines
  unfold RememberOptions.provenance provenanceLines
  cases opts.scope <;> cases opts.session <;>
    simp only [hopen, htype, hscope, hprov, hactor, hsession, hsource, hclose, hlf, optLine, keyLine,
      Option.isSome_some, true_or, ↓reduceIte, Option.map_some, Option.map_none,
      Option.toList_some, Option.toList_none, Option.getD_some, Option.getD_none,
      List.flatMap_append, List.flatMap_cons, List.flatMap_nil, List.append_assoc, List.append_nil]

/-! ### What the item should say -/

/-- The frontmatter in which each argument says what its own text says when it is read alone. -/
def ownFrontmatter : Frontmatter where
  title := reparseText (debug T opts.titleOrType)
  itemType := (parseBlock (fieldText "type" opts.itemType)).1.itemType
  scope := opts.scope.bind fun scope => (parseBlock (fieldText "scope" scope)).1.scope
  provenance := reparseProvenance T opts.provenance
  confidence := some .proposed

end RememberOptions

/-- The times that the text of a field gives its own key. -/
def ownKeys (key : String) (value : Str) : List Str :=
  (topKeys (fieldText key value)).filter (· = key.toList)

/-- A file that says what the arguments of `wkp remember` say, each under its own key. -/
structure Unforged (T : CharTables) (opts : RememberOptions) (body input : Str) : Prop where
  /-- The body. -/
  body : (parse input).body = "\n".toList ++ trim body ++ "\n".toList
  /-- The frontmatter. -/
  frontmatter : (parse input).frontmatter = opts.ownFrontmatter T
  /-- The keys that are in the file. -/
  keys : keysOf input = ["title".toList] ++ ownKeys "type" opts.itemType ++
    (opts.scope.map (ownKeys "scope")).getD [] ++ ["provenance".toList, "confidence".toList]

/-- The text of a field closes no frontmatter, and gives no key but its own. -/
def Contained (key : String) (value : Str) : Prop :=
  DelimiterFree (fieldText key value) ∧ ∀ k ∈ topKeys (fieldText key value), k = key.toList

instance (key : String) (value : Str) : Decidable (Contained key value) :=
  inferInstanceAs (Decidable (_ ∧ _))

/-! ### The parts of the file -/

section Parts

variable {T : CharTables} {opts : RememberOptions}

theorem innerLine_title : InnerLine (keyLine "title" (debug T opts.titleOrType)) :=
  innerLine_optLine (v := some _) (by decide) (fun s hs => by
    obtain rfl := Option.some.inj hs
    exact lf_notMem_debug _) _ (List.mem_singleton_self _)

theorem innerLine_tailLines : ∀ l ∈ opts.tailLines T, InnerLine l := by
  intro l hl
  rcases List.mem_append.1 hl with hl | hl
  · exact innerLine_provenanceLines T (fun s hs => by
      obtain rfl := Option.some.inj hs
      decide) l hl
  · obtain rfl := List.mem_singleton.1 hl
    exact ⟨by decide, by decide⟩

/-- Only the type and the scope can close the frontmatter. -/
theorem delimiterFree_texts_iff : DelimiterFree ((opts.texts T).flatMap (· ++ ['\n'])) ↔
    DelimiterFree (fieldText "type" opts.itemType) ∧
      ∀ scope ∈ opts.scope, DelimiterFree (fieldText "scope" scope) := by
  have htitle := (@innerLine_title T opts).delimiterFree
  have htail : ∀ p ∈ opts.tailLines T, DelimiterFree (p ++ ['\n']) :=
    fun p hp => (innerLine_tailLines p hp).delimiterFree
  have hscope : (∀ p ∈ optLine "scope" opts.scope, DelimiterFree (p ++ ['\n'])) ↔
      ∀ scope ∈ opts.scope, DelimiterFree (fieldText "scope" scope) := by
    cases opts.scope with
    | none => exact iff_of_true nofun nofun
    | some scope => simp [optLine, fieldText]
  rw [delimiterFree_flatMap_lf, RememberOptions.texts, RememberOptions.headTexts,
    List.forall_mem_append, List.forall_mem_append, List.forall_mem_append, hscope]
  constructor
  · rintro ⟨⟨⟨-, htype⟩, hscope⟩, -⟩
    exact ⟨htype _ (List.mem_singleton_self _), hscope⟩
  · rintro ⟨htype, hscope⟩
    refine ⟨⟨⟨fun p hp => ?_, fun p hp => ?_⟩, hscope⟩, htail⟩
    · rw [List.mem_singleton.1 hp]
      exact htitle
    · rw [List.mem_singleton.1 hp]
      exact htype

theorem logicalLines_tailLines :
    logicalLines ((opts.tailLines T).flatMap (· ++ ['\n'])) = opts.tailBlock T := by
  rw [logicalLines_flatMap fun l hl => (innerLine_tailLines l hl).1, RememberOptions.tailLines,
    List.filterMap_append, filterMap_provenanceLines]
  rfl

theorem logicalLines_texts : logicalLines ((opts.texts T).flatMap (· ++ ['\n'])) =
    lineOf 0 "title".toList (debug T opts.titleOrType) ::
      (logicalLines (fieldText "type" opts.itemType) ++ (opts.scopeBlock ++ opts.tailBlock T)) := by
  have htitle : logicalLines (keyLine "title" (debug T opts.titleOrType) ++ ['\n']) =
      [lineOf 0 "title".toList (debug T opts.titleOrType)] := by
    have hone : ∀ l ∈ [keyLine "title" (debug T opts.titleOrType)], '\n' ∉ l := fun l hl => by
      rw [List.mem_singleton.1 hl]
      exact innerLine_title.1
    have hline := logicalLines_flatMap hone
    rw [List.flatMap_singleton] at hline
    exact hline.trans (filterMap_optLine (n := 0) (k := "title".toList) rfl (by decide) (some _))
  rw [RememberOptions.texts, RememberOptions.headTexts, logicalLines_flatMap_lf, List.flatMap_append,
    ← logicalLines_flatMap_lf (opts.tailLines T), logicalLines_tailLines, List.flatMap_append,
    List.flatMap_append]
  simp only [optLine, Option.map_some, Option.toList_some, List.flatMap_cons, List.flatMap_nil,
    List.append_nil, htitle, List.append_assoc, List.cons_append, List.nil_append]
  rw [RememberOptions.scopeBlock]
  cases opts.scope with
  | none => rfl
  | some scope => simp only [Option.map_some, Option.toList_some, List.flatMap_cons,
      List.flatMap_nil, List.append_nil, Option.getD_some, fieldText]

theorem topKeys_texts : topKeys ((opts.texts T).flatMap (· ++ ['\n'])) =
    ["title".toList] ++ topKeys (fieldText "type" opts.itemType) ++
      (opts.scope.map fun scope => topKeys (fieldText "scope" scope)).getD [] ++
        ["provenance".toList, "confidence".toList] := by
  have hprov : (provenanceBlock T opts.provenance).filterMap topKey = ["provenance".toList] := by
    have hchildren : (provenanceChildren T opts.provenance).filterMap topKey = [] := by
      rw [List.filterMap_eq_nil_iff]
      intro l hl
      rw [topKey, if_neg (by rw [indent_of_mem_provenanceChildren hl]; decide)]
    have hfirst : topKey ⟨0, "provenance:".toList⟩ = some "provenance".toList := by decide
    rw [provenanceBlock, if_pos (.inl rfl), List.filterMap_cons, hfirst, hchildren]
  have hconf : [lineOf 0 "confidence".toList "proposed".toList].filterMap topKey =
      ["confidence".toList] := by
    rw [List.filterMap_cons, topKey_lineOf (by decide), List.filterMap_nil]
  have hscope : opts.scopeBlock.filterMap topKey =
      (opts.scope.map fun scope => topKeys (fieldText "scope" scope)).getD [] := by
    rw [RememberOptions.scopeBlock]
    cases opts.scope <;> rfl
  rw [topKeys, logicalLines_texts, List.filterMap_cons, topKey_lineOf (by decide),
    List.filterMap_append, List.filterMap_append, RememberOptions.tailBlock, List.filterMap_append,
    hprov, hconf, hscope]
  simp only [topKeys, List.cons_append, List.nil_append, List.append_assoc]

theorem exists_content_eq (body : Str) :
    ∃ block, (opts.texts T).flatMap (· ++ ['\n']) = block ++ ['\n'] ∧
      opts.content T body = "---\n".toList ++ (block ++ '\n' ::
        ("---\n".toList ++ ("\n".toList ++ trim body ++ "\n".toList))) := by
  have htexts : opts.texts T ≠ [] := by
    rw [RememberOptions.texts, RememberOptions.headTexts]
    exact List.cons_ne_nil _ _
  obtain ⟨block, hblock⟩ := exists_flatMap_lf htexts
  refine ⟨block, hblock, ?_⟩
  rw [RememberOptions.content, RememberOptions.frontmatterBlock_eq, hblock]
  simp only [List.append_assoc, List.cons_append, List.nil_append]

theorem parseLines_type {value : Str} (h : Contained "type" value) {fm : Frontmatter}
    (hfm : fm.itemType = none) (ws : List Warning) :
    ∃ ws', parseLines (logicalLines (fieldText "type" value)) (fm, ws) =
      ({ fm with itemType := (parseBlock (fieldText "type" value)).1.itemType }, ws') := by
  obtain ⟨v, hv⟩ := @exists_set_of_topKeys "type".toList
    (fun v fm => { fm with itemType := v.map ItemType.parse })
    (fun fm ws value => by rw [applyScalarValue, if_neg (by decide), if_pos rfl])
    (fun fm ws children => by
      rw [applyBlockValue, if_neg (by decide), if_neg (by decide), if_neg (by decide)])
    (fun _ _ _ => rfl) _ h.2
  obtain ⟨ws', h'⟩ := hv fm ws
  obtain ⟨ws₀, h₀⟩ := hv default []
  refine ⟨ws', h'.trans ?_⟩
  rw [parseBlock, h₀]
  cases v with
  | some v => rfl
  | none =>
    obtain ⟨title, itemType⟩ := fm
    obtain rfl : itemType = none := hfm
    rfl

theorem parseLines_scope {value : Str} (h : Contained "scope" value) {fm : Frontmatter}
    (hfm : fm.scope = none) (ws : List Warning) :
    ∃ ws', parseLines (logicalLines (fieldText "scope" value)) (fm, ws) =
      ({ fm with scope := (parseBlock (fieldText "scope" value)).1.scope }, ws') := by
  obtain ⟨v, hv⟩ := @exists_set_of_topKeys "scope".toList
    (fun v fm => { fm with scope := v.map Scope.parse })
    (fun fm ws value => by
      rw [applyScalarValue, if_neg (by decide), if_neg (by decide), if_pos rfl])
    (fun fm ws children => by
      rw [applyBlockValue, if_neg (by decide), if_neg (by decide), if_neg (by decide)])
    (fun _ _ _ => rfl) _ h.2
  obtain ⟨ws', h'⟩ := hv fm ws
  obtain ⟨ws₀, h₀⟩ := hv default []
  refine ⟨ws', h'.trans ?_⟩
  rw [parseBlock, h₀]
  cases v with
  | some v => rfl
  | none =>
    obtain ⟨title, itemType, scope⟩ := fm
    obtain rfl : scope = none := hfm
    rfl

theorem notIndented_tailBlock : NotIndented (opts.tailBlock T) := by
  rw [RememberOptions.tailBlock, provenanceBlock, if_pos (.inl rfl)]
  intro l hl
  obtain rfl := Option.some.inj hl
  rfl

theorem notIndented_scopeBlock : NotIndented (opts.scopeBlock ++ opts.tailBlock T) := by
  rw [RememberOptions.scopeBlock]
  cases opts.scope with
  | none => exact notIndented_tailBlock
  | some scope => exact notIndented_fieldText (by decide) (by decide) scope _

theorem parseLines_scopeBlock (hscope : ∀ scope ∈ opts.scope, Contained "scope" scope)
    {fm : Frontmatter} (hfm : fm.scope = none) (ws : List Warning) :
    ∃ ws', parseLines (opts.scopeBlock ++ opts.tailBlock T) (fm, ws) =
      parseLines (opts.tailBlock T) ({ fm with scope := opts.scope.bind fun scope =>
        (parseBlock (fieldText "scope" scope)).1.scope }, ws') := by
  rw [RememberOptions.scopeBlock]
  cases hs : opts.scope with
  | none =>
    obtain ⟨title, itemType, scope⟩ := fm
    obtain rfl : scope = none := hfm
    exact ⟨ws, rfl⟩
  | some scope =>
    obtain ⟨ws', h'⟩ := parseLines_scope (hscope scope hs) hfm ws
    refine ⟨ws', ?_⟩
    rw [Option.map_some, Option.getD_some, parseLines_append notIndented_tailBlock, h',
      Option.bind_some]

theorem parseLines_tailBlock {fm : Frontmatter} (hprov : fm.provenance = {})
    (hconf : fm.confidence = none) (ws : List Warning) :
    parseLines (opts.tailBlock T) (fm, ws) =
      ({ fm with provenance := reparseProvenance T opts.provenance,
                 confidence := some .proposed }, ws) := by
  have hnil : NotIndented ([] : List Line) := nofun
  have hlast : NotIndented [lineOf 0 "confidence".toList "proposed".toList] := fun l hl => by
    obtain rfl := Option.some.inj hl
    rfl
  have hfield := @parseLines_field "confidence".toList (by decide) _ hnil
    (some "proposed".toList) ({ fm with provenance := reparseProvenance T opts.provenance }, ws)
  have happly := applyField_confidence { fm with provenance := reparseProvenance T opts.provenance }
    ws (some "proposed".toList) hconf
  have hproposed : ((some "proposed".toList).bind reparseText).map Confidence.parse =
      some .proposed := by decide
  rw [happly, hproposed, parseLines_nil] at hfield
  rw [RememberOptions.tailBlock, parseLines_provenanceBlock T _ hlast _ _ hprov]
  exact hfield

theorem parseBlock_texts (htype : Contained "type" opts.itemType)
    (hscope : ∀ scope ∈ opts.scope, Contained "scope" scope) :
    (parseBlock ((opts.texts T).flatMap (· ++ ['\n']))).1 = opts.ownFrontmatter T := by
  have hnext : NotIndented (logicalLines (fieldText "type" opts.itemType) ++
      (opts.scopeBlock ++ opts.tailBlock T)) := notIndented_fieldText (by decide) (by decide) _ _
  have htitle := @parseLines_field "title".toList (by decide) _ hnext
    (some (debug T opts.titleOrType)) (default, [])
  rw [applyField_title _ _ _ rfl] at htitle
  obtain ⟨ws₁, h₁⟩ := @parseLines_type _ htype
    { (default : Frontmatter) with title := reparseText (debug T opts.titleOrType) } rfl []
  obtain ⟨ws₂, h₂⟩ := @parseLines_scopeBlock T opts hscope
    { (default : Frontmatter) with
      title := reparseText (debug T opts.titleOrType)
      itemType := (parseBlock (fieldText "type" opts.itemType)).1.itemType } rfl ws₁
  rw [parseBlock, logicalLines_texts]
  refine (congrArg Prod.fst htitle).trans ?_
  rw [parseLines_append notIndented_scopeBlock]
  refine (congrArg (fun acc => (parseLines (opts.scopeBlock ++ opts.tailBlock T) acc).1) h₁).trans ?_
  rw [h₂, parseLines_tailBlock rfl rfl]
  rfl

/-- A text is contained when what it gives its own key is all that it gives. -/
theorem contained_iff {key : String} {value : Str} : Contained key value ↔
    DelimiterFree (fieldText key value) ∧ ownKeys key value = topKeys (fieldText key value) := by
  rw [Contained, ownKeys, List.filter_eq_self]
  simp only [decide_eq_true_eq]

theorem length_ownKeys_le (key : String) (value : Str) :
    (ownKeys key value).length ≤ (topKeys (fieldText key value)).length :=
  List.length_filter_le _ _

theorem ownKeys_eq_of_keys
    (h : ["title".toList] ++ topKeys (fieldText "type" opts.itemType) ++
        (opts.scope.map fun scope => topKeys (fieldText "scope" scope)).getD [] ++
          ["provenance".toList, "confidence".toList] =
      ["title".toList] ++ ownKeys "type" opts.itemType ++
        (opts.scope.map (ownKeys "scope")).getD [] ++
          ["provenance".toList, "confidence".toList]) :
    ownKeys "type" opts.itemType = topKeys (fieldText "type" opts.itemType) ∧
      ∀ scope ∈ opts.scope, ownKeys "scope" scope = topKeys (fieldText "scope" scope) := by
  have hown : ∀ {key : String} {value : Str},
      (topKeys (fieldText key value)).length ≤ (ownKeys key value).length →
        ownKeys key value = topKeys (fieldText key value) :=
    fun hle => List.filter_sublist.eq_of_length_le hle
  have hlen := congrArg List.length h
  simp only [List.length_append] at hlen
  have htype := length_ownKeys_le "type" opts.itemType
  cases hs : opts.scope with
  | none =>
    rw [hs] at hlen
    simp only [Option.map_none, Option.getD_none] at hlen
    exact ⟨hown (by omega), nofun⟩
  | some scope =>
    rw [hs] at hlen
    simp only [Option.map_some, Option.getD_some] at hlen
    have hscope := length_ownKeys_le "scope" scope
    refine ⟨hown (by omega), fun scope' hscope' => ?_⟩
    obtain rfl := Option.some.inj hscope'
    exact hown (by omega)

/-- The file says what the arguments say exactly when the type and the scope are contained. -/
theorem unforged_content_iff (body : Str) : Unforged T opts body (opts.content T body) ↔
    Contained "type" opts.itemType ∧ ∀ scope ∈ opts.scope, Contained "scope" scope := by
  obtain ⟨block, hblock, hcontent⟩ := @exists_content_eq T opts body
  have hfree := @delimiterFree_texts_iff T opts
  rw [hblock] at hfree
  by_cases hclosed : DelimiterFree (block ++ ['\n'])
  · have hsplit := splitAtClosingDelimiter_of_free hclosed ("\n".toList ++ trim body ++ "\n".toList)
    have hparts : (stripOpeningDelimiter (opts.content T body)).bind splitAtClosingDelimiter =
        some (block ++ ['\n'], "\n".toList ++ trim body ++ "\n".toList) := by
      rw [hcontent, stripOpeningDelimiter_append, Option.bind_some, hsplit]
    have hparse := parse_of_split hparts
    have hkeys : keysOf (opts.content T body) = topKeys ((opts.texts T).flatMap (· ++ ['\n'])) := by
      rw [keysOf, hparts, hblock]
    obtain ⟨htypeFree, hscopeFree⟩ := hfree.1 hclosed
    constructor
    · intro h
      obtain ⟨htype, hscope⟩ := ownKeys_eq_of_keys
        ((topKeys_texts (T := T)).symm.trans (hkeys.symm.trans h.keys))
      exact ⟨contained_iff.2 ⟨htypeFree, htype⟩, fun scope hs =>
        contained_iff.2 ⟨hscopeFree scope hs, hscope scope hs⟩⟩
    · rintro ⟨htype, hscope⟩
      refine ⟨by rw [hparse], ?_, ?_⟩
      · rw [hparse, ← hblock]
        exact parseBlock_texts htype hscope
      · rw [hkeys, topKeys_texts, (contained_iff.1 htype).2]
        cases hs : opts.scope with
        | none => rfl
        | some scope =>
          rw [Option.map_some, Option.map_some, Option.getD_some, Option.getD_some,
            (contained_iff.1 (hscope scope hs)).2]
  · -- a line that closes the frontmatter early leaves more to the body
    obtain ⟨block', body', hsplit, hlt⟩ := length_lt_of_not_free hclosed
      ("\n".toList ++ trim body ++ "\n".toList)
    have hparts : (stripOpeningDelimiter (opts.content T body)).bind splitAtClosingDelimiter =
        some (block', body') := by
      rw [hcontent, stripOpeningDelimiter_append, Option.bind_some, hsplit]
    constructor
    · intro h
      have hbody := h.body
      rw [parse_of_split hparts] at hbody
      dsimp only at hbody
      rw [hbody] at hlt
      exact absurd hlt (lt_irrefl _)
    · rintro ⟨htype, hscope⟩
      exact absurd (hfree.2 ⟨htype.1, fun scope hs => (hscope scope hs).1⟩) hclosed

end Parts

/-! ### What is written -/

/-- **A written item is unforged exactly when its type and its scope are contained**: no line of the
type closes the frontmatter or gives a key other than `type`, and none of the scope does or gives
one other than `scope`. -/
theorem writeMemory_unforged_iff {H : Git.Host} {T : CharTables} {S : Secrets.Scanner} {nanos : Str}
    {opts : RememberOptions} {body : Str} {r r' : Git.Repo} {path : Str}
    (h : Effect.exec (writeMemory H T S nanos opts body) r = (.ok path, r')) :
    ∃ content, r'.fileAt (Git.target H.root path) = some (.text content) ∧
      (Unforged T opts body content ↔
        Contained "type" opts.itemType ∧ ∀ scope ∈ opts.scope, Contained "scope" scope) :=
  ⟨_, (fileAt_of_writeMemory h).2.2, unforged_content_iff body⟩

/-- A store without a commit. -/
def emptyStore : Git.Repo := { head := none, index := ∅, worktree := ∅ }

/-- An item of the given type. -/
def exampleMemory (itemType : Str) : RememberOptions :=
  ⟨itemType, some "project".toList, some "Tabs".toList, "agent:a".toList, "key".toList, none⟩

/-- Write an item of the given type to an empty store. -/
def exampleWrite (itemType : Str) : Effect Git.Repo Str Str :=
  writeMemory Git.plainHost .asciiOnly .plain "1".toList (exampleMemory itemType) "Use tabs.".toList

theorem unforged_exampleWrite : ∃ path r' content,
    Effect.exec (exampleWrite "knowledge".toList) emptyStore = (.ok path, r') ∧
      r'.fileAt (Git.target Git.plainHost.root path) = some (.text content) ∧
        Unforged .asciiOnly (exampleMemory "knowledge".toList) "Use tabs.".toList content := by
  obtain ⟨path, h⟩ := Effect.exists_exec_eq_ok (m := exampleWrite "knowledge".toList)
    (s := emptyStore) (by decide +kernel)
  obtain ⟨content, hfile, hiff⟩ := writeMemory_unforged_iff h
  exact ⟨path, _, content, h, hfile, hiff.2 (by decide +kernel)⟩

/-- A type of two lines gives the item a visibility. -/
theorem not_unforged_exampleWrite : ∃ path r' content,
    Effect.exec (exampleWrite "knowledge\nvisibility: shared".toList) emptyStore = (.ok path, r') ∧
      r'.fileAt (Git.target Git.plainHost.root path) = some (.text content) ∧
        (parse content).frontmatter.visibility = some .shared ∧
          ¬ Unforged .asciiOnly (exampleMemory "knowledge\nvisibility: shared".toList)
            "Use tabs.".toList content := by
  obtain ⟨path, h⟩ := Effect.exists_exec_eq_ok
    (m := exampleWrite "knowledge\nvisibility: shared".toList) (s := emptyStore) (by decide +kernel)
  refine ⟨path, _, _, h, (fileAt_of_writeMemory h).2.2, by decide +kernel, fun hu => ?_⟩
  exact absurd ((unforged_content_iff _).1 hu) (by decide +kernel)

end Cli

end Wkp
