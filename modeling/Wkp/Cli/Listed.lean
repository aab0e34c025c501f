import Wkp.Cli.Signed
import Wkp.Core.Spliced
import Wkp.Lib.Toml

/-!
# Who is listed

The list of those who may promote is read by lines, not as TOML.  Both readings of a configuration
are followed here, expression by expression.

* `Cli.ReadsTrue` : a list on a line says what the expression says.
* `Cli.listsOf` : the lists that the loop reads, each with the expression that it is in.
* `Cli.mem_promoteAutoList_iff`, `Cli.mem_stringsAt_of_readsTrue` : whom the loop takes from where.
* `Cli.promoteAutoList_listed_iff` : **nobody is on the list of the command who is not in the array**,
  exactly if the lists that are misread name nobody else, and then nobody else promotes but people.
* `Cli.not_promoteAutoList_listed` : a comment keeps an agent on it.
-/

namespace Wkp

open Rust

namespace Cli

/-- The array that holds the list. -/
def autoPath : List Str := ["promote".toList, "auto".toList]

/-- The header that the loop looks for. -/
def promoteHeader : Str := "[promote]".toList

/-- The table of that header. -/
def promoteTable : Toml.Table := ⟨false, ["promote".toList]⟩

/-! ### The loop line by line -/

/-- What is between the brackets of a line `auto = [...]`. -/
def autoInner (line : Str) : Option Str := do
  let rest ← stripPrefix line "auto".toList
  let rest ← stripPrefix (trimStart rest) ['=']
  let rest ← stripPrefix (trim rest) ['[']
  stripSuffix rest [']']

/-- A piece between two commas without its quotes. -/
def unquoted (piece : Str) : Str := trimMatches '\'' (trimMatches '"' (trim piece))

/-- Whether the loop is in the section after a line. -/
def inSection (before : Bool) (line : Str) : Bool :=
  if (trim line).head? = some '[' then decide (trim line = promoteHeader) else before

/-- The list on a line, when the loop reads it. -/
def lineList (before : Bool) (line : Str) : Option Str :=
  if (trim line).head? ≠ some '[' ∧ before = true then autoInner (trim line) else none

/-- The principals on a list. -/
def listEntries (inner : Str) : List Str := ((split ',' inner).map unquoted).filter (· ≠ [])

theorem autoEntries_eq (line : Str) :
    autoEntries line = ((autoInner line).map listEntries).getD [] := by
  unfold autoEntries autoInner
  dsimp only
  split
  case h_1 h => rw [h, Option.map_none, Option.getD_none]
  case h_2 inner h =>
    rw [h, Option.map_some, Option.getD_some]
    rfl

theorem mem_listEntries_iff {inner p : Str} :
    p ∈ listEntries inner ↔ p ≠ [] ∧ ∃ piece ∈ split ',' inner, unquoted piece = p := by
  rw [listEntries, List.mem_filter, List.mem_map, decide_eq_true_eq, and_comm]

/-- The lists that the loop reads on some lines, and whether it is in the section after them. -/
def scanned (before : Bool) : List Str → List Str × Bool
  | [] => ([], before)
  | line :: rest =>
    let (lists, after) := scanned (inSection before line) rest
    ((lineList before line).toList ++ lists, after)

theorem scanned_cons (before : Bool) (l : Str) (ls : List Str) : scanned before (l :: ls) =
    ((lineList before l).toList ++ (scanned (inSection before l) ls).1,
      (scanned (inSection before l) ls).2) := rfl

theorem promoteAutoLoop_eq (before : Bool) (ls : List Str) :
    promoteAutoLoop before ls = (scanned before ls).1.flatMap listEntries := by
  induction ls generalizing before with
  | nil => rfl
  | cons line rest ih =>
    rw [scanned_cons, List.flatMap_append, promoteAutoLoop, lineList, inSection]
    by_cases hhead : (trim line).head? = some '['
    · rw [if_pos hhead, if_neg fun h => h.1 hhead, if_pos hhead]
      exact ih _
    · rw [if_neg hhead, if_neg hhead]
      cases before with
      | false =>
        rw [if_pos (by decide), if_neg fun h => absurd h.2 Bool.false_ne_true]
        exact ih _
      | true =>
        rw [if_neg (by decide), if_pos ⟨hhead, rfl⟩, autoEntries_eq, ih]
        cases autoInner (trim line) with
        | none => rfl
        | some inner =>
          rw [Option.map_some, Option.getD_some, Option.toList_some, List.flatMap_singleton]

theorem scanned_append (before : Bool) (ls ls' : List Str) : scanned before (ls ++ ls') =
    ((scanned before ls).1 ++ (scanned (scanned before ls).2 ls').1,
      (scanned (scanned before ls).2 ls').2) := by
  induction ls generalizing before with
  | nil => rfl
  | cons l ls ih =>
    rw [List.cons_append, scanned_cons, scanned_cons, ih, List.append_assoc]

theorem scanned_map_trim (before : Bool) (ls : List Str) :
    scanned before (ls.map trim) = scanned before ls := by
  induction ls generalizing before with
  | nil => rfl
  | cons l ls ih =>
    rw [List.map_cons, scanned_cons, scanned_cons, ih]
    simp only [lineList, inSection, trim_trim]

theorem scanned_lf (before : Bool) (s : Str) :
    scanned before (lines (s ++ ['\n'])) = scanned before (lines s) := by
  rw [← scanned_map_trim, ← scanned_map_trim before (lines s), map_trim_lines, map_trim_lines]
  rcases splitInclusive_lf s with heq | ⟨ls, l, hs, heq⟩
  · have hblank : ∀ b, scanned b ([['\n']].map trim) = ([], b) := by decide
    rw [heq, List.map_append, scanned_append, hblank, List.append_nil]
  · rw [hs, heq, List.map_append, List.map_append, List.map_singleton, List.map_singleton,
      trim_concat (by decide)]

theorem scanned_append_lf (before : Bool) (a b : Str) : scanned before (lines (a ++ '\n' :: b)) =
    ((scanned before (lines a)).1 ++ (scanned (scanned before (lines a)).2 (lines b)).1,
      (scanned (scanned before (lines a)).2 (lines b)).2) := by
  have happend := scanned_append before (lines (a ++ ['\n'])) (lines b)
  rw [scanned_lf] at happend
  rw [lines, splitInclusive_append_lf, List.map_append]
  exact happend

theorem scanned_line {text : Str} (h : '\n' ∉ text) (before : Bool) :
    scanned before (lines text) = ((lineList before text).toList, inSection before text) := by
  by_cases hnil : text = []
  · rw [hnil]
    cases before <;> decide
  · rw [lines, splitInclusive_of_notMem h hnil, List.map_singleton, stripLineEnding_of_notMem h,
      scanned_cons]
    exact congrArg₂ Prod.mk (List.append_nil _) rfl

/-! ### The lines and the expressions -/

/-- A piece between two commas is blank, or a string that reads as it does without its quotes. -/
def PieceReadsTrue (piece : Str) : Prop :=
  trim piece = [] ∨ Toml.string (trim piece) = some (unquoted piece, [])

instance (piece : Str) : Decidable (PieceReadsTrue piece) :=
  inferInstanceAs (Decidable (_ ∨ _))

/-- **A list on a line says what the expression says**: the expression is that one line, it is in the
table, and the pieces between the commas are strings that read as they do without their quotes. -/
def ReadsTrue (item : Toml.Item) (inner : Str) : Prop :=
  '\n' ∉ item.text ∧ item.table = promoteTable ∧ ∀ piece ∈ split ',' inner, PieceReadsTrue piece

instance (item : Toml.Item) (inner : Str) : Decidable (ReadsTrue item inner) :=
  inferInstanceAs (Decidable (_ ∧ _ ∧ _))

theorem autoInner_eq_some {line inner : Str} (h : autoInner line = some inner) :
    ∃ w₁ w₂ w₃, line = "auto".toList ++ (w₁ ++ '=' :: (w₂ ++ '[' :: (inner ++ ']' :: w₃))) ∧
      (∀ c ∈ w₁, isWhitespace c = true) ∧ ∀ c ∈ w₂, isWhitespace c = true := by
  obtain ⟨rest, hkey, h⟩ := Option.bind_eq_some_iff.1 h
  obtain ⟨rest₂, hequals, h⟩ := Option.bind_eq_some_iff.1 h
  obtain ⟨rest₃, hopen, hclose⟩ := Option.bind_eq_some_iff.1 h
  rw [stripPrefix_eq_some_iff] at hkey hequals hopen
  rw [stripSuffix_eq_some_iff] at hclose
  obtain ⟨w₂, w₃, hrest₂, hw₂, -⟩ := exists_eq_append_trim rest₂
  refine ⟨rest.takeWhile isWhitespace, w₂, w₃, ?_, fun c hc => List.mem_takeWhile_imp hc, hw₂⟩
  have hrest : rest = rest.takeWhile isWhitespace ++ trimStart rest :=
    (List.takeWhile_append_dropWhile (p := isWhitespace)).symm
  rw [hopen, hclose] at hrest₂
  rw [hequals, hrest₂] at hrest
  simp only [List.append_assoc, List.cons_append, List.nil_append] at hrest
  rw [hkey]
  conv_lhs => rw [hrest]

theorem head?_of_autoInner {line inner : Str} (h : autoInner line = some inner) :
    line.head? = some 'a' := by
  obtain ⟨w₁, w₂, w₃, rfl, -, -⟩ := autoInner_eq_some h
  rfl

theorem head?_trim {s : Str} {c : Char} (h : (Toml.skipBlanks s).head? = some c)
    (hc : isWhitespace c = false) : (trim s).head? = some c := by
  obtain ⟨t, ht⟩ : ∃ t, Toml.skipBlanks s = c :: t := by
    cases hskip : Toml.skipBlanks s with
    | nil =>
      rw [hskip] at h
      cases h
    | cons d t =>
      rw [hskip] at h
      exact ⟨t, by rw [Option.some.inj h]⟩
  have hsplit : s.takeWhile Toml.isBlank ++ c :: t = s := by
    rw [← ht]
    exact List.takeWhile_append_dropWhile
  have hblank : ∀ d ∈ s.takeWhile Toml.isBlank, isWhitespace d = true := by
    intro d hd
    have hd := List.mem_takeWhile_imp hd
    simp only [Toml.isBlank, Bool.or_eq_true, decide_eq_true_eq] at hd
    rcases hd with rfl | rfl <;> decide
  have hstart : trimStart (c :: t) = c :: t := List.dropWhile_cons_of_neg (by simp [hc])
  obtain ⟨r, hr⟩ := exists_rdropWhile_cons hc t
  rw [← hsplit, trim, trimStart_append_of_all hblank, hstart, trimEnd, hr]
  rfl

/-- A line with nothing but a comment is neither a header nor a list. -/
theorem head?_trim_of_isTail {line : Str} (h : Toml.isTail line = true) :
    ∀ c ∈ (trim line).head?, c = '#' := by
  have htrim : trim line = trim (line.rdropWhile (· = '\r')) := by
    have hsplit := List.rdropWhile_append_rtakeWhile (p := fun c => decide (c = '\r')) (l := line)
    conv_lhs => rw [← hsplit]
    refine trim_append_of_all fun c hc => ?_
    have heq := List.mem_rtakeWhile_imp (p := fun c => decide (c = '\r')) hc
    rw [of_decide_eq_true heq]
    decide
  rw [Toml.isTail] at h
  rw [htrim]
  cases hskip : Toml.skipBlanks (line.rdropWhile (· = '\r')) with
  | nil =>
    have hnil : trim (line.rdropWhile (· = '\r')) = [] := by
      rw [trim_eq_nil_iff]
      intro c hc
      have hc := List.dropWhile_eq_nil_iff.1 hskip c hc
      simp only [Toml.isBlank, Bool.or_eq_true, decide_eq_true_eq] at hc
      rcases hc with rfl | rfl <;> decide
    rw [hnil]
    exact fun c hc => absurd hc (Option.not_mem_none c)
  | cons d t =>
    rw [hskip] at h
    obtain rfl : d = '#' := of_decide_eq_true h
    have hhead : (Toml.skipBlanks (line.rdropWhile (· = '\r'))).head? = some '#' := by
      rw [hskip]
      rfl
    rw [head?_trim hhead (by decide)]
    exact fun c hc => (Option.some.inj hc).symm

/-- **The entries of a list that reads true are strings of the array.** -/
theorem mem_strings_of_mem_listEntries {text rest inner : Str} {n : ℕ} {path : List Str}
    {v : Toml.Value} {r : Str} (h : Toml.keyVal n (text ++ rest) = some (path, v, r))
    (hinner : autoInner (trim text) = some inner)
    (htrue : ∀ piece ∈ split ',' inner, PieceReadsTrue piece) {p : Str}
    (hp : p ∈ listEntries inner) : path = ["auto".toList] ∧ p ∈ v.strings ∧ ∃ vs, v = .array vs := by
  obtain ⟨hne, piece, hpiece, hunquoted⟩ := mem_listEntries_iff.1 hp
  obtain ⟨w₁, w₂, w₃, hline, hw₁, hw₂⟩ := autoInner_eq_some hinner
  obtain ⟨w, w', htext, hw, -⟩ := exists_eq_append_trim text
  have hsplit : text ++ rest = w ++ ("auto".toList ++
      (w₁ ++ '=' :: (w₂ ++ '[' :: (inner ++ ']' :: (w₃ ++ (w' ++ rest)))))) := by
    conv_lhs => rw [htext, hline]
    simp only [List.append_assoc, List.cons_append]
  rw [hsplit] at h
  obtain ⟨hpath, m, vs, harray, hv⟩ :=
    Toml.keyVal_array (by decide) (List.all_eq_true.1 (by decide)) hw hw₁ hw₂ h
  have hjoin : join [','] (split ',' inner) = inner := List.intercalate_splitOn ..
  rw [← hjoin] at harray
  have hnonempty : split ',' inner ≠ [] := List.ne_nil_of_mem hpiece
  have hblank : trim piece ≠ [] := by
    intro hblank
    rw [unquoted, hblank] at hunquoted
    exact hne hunquoted.symm
  have hmem := Toml.array_pieces hnonempty htrue harray piece hpiece hblank
  refine ⟨hpath, ?_, vs, hv⟩
  rw [hv, Toml.Value.strings, List.mem_filterMap]
  exact ⟨_, hmem, by rw [hunquoted]⟩

/-! ### Both readings of a document -/

/-- The lists that the loop reads in a document, each with the expression that it is in. -/
def listsOf : Bool → List Toml.Item → List (Toml.Item × Str)
  | _, [] => []
  | before, item :: doc =>
    let (lists, after) := scanned before (lines item.text)
    lists.map (item, ·) ++ listsOf after doc

theorem listsOf_cons (before : Bool) (item : Toml.Item) (doc : List Toml.Item) :
    listsOf before (item :: doc) = (scanned before (lines item.text)).1.map (item, ·) ++
      listsOf (scanned before (lines item.text)).2 doc := rfl

theorem stringsAt_cons (path : List Str) (item : Toml.Item) (doc : List Toml.Item) :
    Toml.stringsAt path (item :: doc) = Toml.stringsAt path [item] ++ Toml.stringsAt path doc := by
  rw [Toml.stringsAt, Toml.stringsAt, Toml.stringsAt, List.flatMap_cons, List.flatMap_singleton]

/-- The lines of a document are the lines of its expressions. -/
theorem scanned_of_items {n : ℕ} {table : Toml.Table} {s : Str} {doc : List Toml.Item}
    (h : Toml.items n table s = some doc) (before : Bool) :
    (scanned before (lines s)).1 = (listsOf before doc).map Prod.snd := by
  have hone : ∀ (item : Toml.Item) (ls : List Str), (ls.map (item, ·)).map Prod.snd = ls := by
    intro item ls
    rw [List.map_map]
    exact List.map_id _
  induction n generalizing table s doc before with
  | zero => cases h
  | succ n ih =>
    obtain ⟨e, len, -, ⟨hs, rfl⟩ | ⟨rest, more, hs, hmore, rfl⟩⟩ := Toml.items_eq_some h
    · rw [listsOf_cons, listsOf, List.append_nil, hone, ← hs]
    · rw [listsOf_cons, List.map_append, hone, ← ih hmore]
      conv_lhs => rw [hs, scanned_append_lf]

/-- **Whom the loop takes, and from where.** -/
theorem mem_promoteAutoList_iff {text : Str} {doc : List Toml.Item} (h : Toml.parse text = some doc)
    {p : Str} : p ∈ promoteAutoList text ↔ ∃ l ∈ listsOf false doc, p ∈ listEntries l.2 := by
  rw [promoteAutoList, promoteAutoLoop_eq, scanned_of_items h, List.flatMap_map, List.mem_flatMap]

/-- **The lists of one expression**: those that read true name strings of the array. -/
theorem mem_stringsAt_of_expr {n len : ℕ} {s rest : Str} {table : Toml.Table} {e : Toml.Expr}
    (hexpr : Toml.expr n s = some (e, len)) (hs : s = s.take len ++ rest) {before : Bool}
    {inner : Str} (hinner : inner ∈ (scanned before (lines (s.take len))).1)
    (htrue : ReadsTrue ⟨s.take len, table, e⟩ inner) :
    ∀ p ∈ listEntries inner, p ∈ Toml.stringsAt autoPath [⟨s.take len, table, e⟩] := by
  obtain ⟨hlf, rfl, hpieces⟩ := htrue
  rw [scanned_line hlf, Option.mem_toList, lineList] at hinner
  split_ifs at hinner with hin
  · have hhead := head?_of_autoInner hinner
    rcases Toml.expr_eq_some hexpr with ⟨rfl, -, htail⟩ | ⟨t, rfl, -, hbracket, -⟩ |
      ⟨path, v, r, rfl, hkey⟩
    · exact absurd (head?_trim_of_isTail htail _ hhead) (by decide)
    · exact absurd (head?_trim hbracket (by decide)) hin.1
    · rw [hs] at hkey
      intro p hp
      obtain ⟨rfl, hstrings, vs, rfl⟩ := mem_strings_of_mem_listEntries hkey hinner hpieces hp
      refine List.mem_flatMap.2 ⟨_, List.mem_singleton.2 rfl, ?_⟩
      exact List.mem_flatMap.2 ⟨_, List.mem_filter.2 ⟨List.mem_cons_self, rfl⟩, hstrings⟩

/-- The run over a document. -/
theorem mem_stringsAt_of_readsTrue {n : ℕ} {table : Toml.Table} {s : Str} {doc : List Toml.Item}
    (h : Toml.items n table s = some doc) {before : Bool} {l : Toml.Item × Str}
    (hl : l ∈ listsOf before doc) (htrue : ReadsTrue l.1 l.2) :
    ∀ p ∈ listEntries l.2, p ∈ Toml.stringsAt autoPath doc := by
  induction n generalizing table s doc before with
  | zero => cases h
  | succ n ih =>
    intro p hp
    obtain ⟨e, len, hexpr, ⟨hs, rfl⟩ | ⟨rest, more, hs, hmore, rfl⟩⟩ := Toml.items_eq_some h
    · rw [listsOf_cons, listsOf, List.append_nil] at hl
      obtain ⟨inner, hinner, rfl⟩ := List.mem_map.1 hl
      exact mem_stringsAt_of_expr hexpr (hs.trans (List.append_nil _).symm) hinner htrue p hp
    · rw [listsOf_cons] at hl
      rw [stringsAt_cons, List.mem_append]
      rcases List.mem_append.1 hl with hl | hl
      · obtain ⟨inner, hinner, rfl⟩ := List.mem_map.1 hl
        exact .inl (mem_stringsAt_of_expr hexpr hs hinner htrue p hp)
      · exact .inr (ih hmore hl p hp)

/-- Whoever promotes is human, or on the list of a configuration. -/
theorem mayPromote_of_runPromote {H : Git.Host} {opts : PromoteOptions} {r : Git.Repo}
    (h : (Effect.exec (runPromote H opts) r).1.isOk = true) : mayPromote opts r = true := by
  obtain ⟨summary, h⟩ := Effect.exists_exec_eq_ok h
  obtain ⟨contents, dest, source, hplan, -⟩ := headTree_of_runPromote h
  unfold planPromote at hplan
  split_ifs at hplan with hinbox hmay
  rwa [Bool.not_eq_true', Bool.not_eq_false] at hmay

/-- The lists that are misread name nobody, piece by piece, who is not in the array. -/
def MisreadsNobody (doc : List Toml.Item) : Prop :=
  ∀ l ∈ listsOf false doc, ¬ ReadsTrue l.1 l.2 →
    ∀ piece ∈ split ',' l.2, unquoted piece = [] ∨ unquoted piece ∈ Toml.stringsAt autoPath doc

instance (doc : List Toml.Item) : Decidable (MisreadsNobody doc) :=
  inferInstanceAs (Decidable (∀ _ ∈ _, _))

theorem listed_of_misreadsNobody {text : Str} {doc : List Toml.Item}
    (h : Toml.parse text = some doc) (hmisread : MisreadsNobody doc) :
    ∀ p ∈ promoteAutoList text, p ∈ Toml.stringsAt autoPath doc := by
  intro p hp
  obtain ⟨l, hl, hp⟩ := (mem_promoteAutoList_iff h).1 hp
  by_cases htrue : ReadsTrue l.1 l.2
  · exact mem_stringsAt_of_readsTrue h hl htrue p hp
  · obtain ⟨hne, piece, hpiece, rfl⟩ := mem_listEntries_iff.1 hp
    exact (hmisread l hl htrue piece hpiece).resolve_left hne

/-- **The list of the command names nobody who is not in the array, and only those and people promote,
exactly if the lists that are misread name nobody else.** -/
theorem promoteAutoList_listed_iff {text : Str} {doc : List Toml.Item}
    (h : Toml.parse text = some doc) :
    ((∀ p ∈ promoteAutoList text, p ∈ Toml.stringsAt autoPath doc) ∧
      ∀ (H : Git.Host) (opts : PromoteOptions) (r : Git.Repo),
        r.worktree.readToString configFilename = .ok text →
        (Effect.exec (runPromote H opts) r).1.isOk = true →
        Git.SignerRole.fromPrincipal opts.principal = .human ∨
          opts.principal ∈ Toml.stringsAt autoPath doc) ↔ MisreadsNobody doc := by
  constructor
  · rintro ⟨hlist, -⟩ l hl - piece hpiece
    refine (em (unquoted piece = [])).imp id fun hne => hlist _ ?_
    exact (mem_promoteAutoList_iff h).2 ⟨l, hl, mem_listEntries_iff.2 ⟨hne, piece, hpiece, rfl⟩⟩
  · intro hmisread
    have hlist := listed_of_misreadsNobody h hmisread
    refine ⟨hlist, fun H opts r hread hok => ?_⟩
    have hmay := mayPromote_of_runPromote hok
    rw [mayPromote, Bool.or_eq_true, decide_eq_true_eq, readPromoteAutoList, hread,
      List.any_eq_true] at hmay
    refine hmay.imp id ?_
    rintro ⟨p, hp, heq⟩
    rw [← of_decide_eq_true heq]
    exact hlist p hp

/-- A configuration with a list. -/
def exampleConfig : Str := "# who may\n[promote]\nauto = [\"agent:a\", 'agent:b',]\n".toList

/-- A configuration with an agent in a comment, who was in the list before. -/
def exampleComment : Str :=
  "[promote]\nauto = [\"agent:a\"] # was [\"agent:a\", \"agent:b\"]\n".toList

/-- The second agent promotes the item of the example. -/
def exampleAgent : PromoteOptions := { examplePromotion with principal := "agent:b".toList }

theorem listed_exampleConfig :
    "agent:b".toList ∈ Toml.stringsAt autoPath ((Toml.parse exampleConfig).getD []) := by
  have hparse : Toml.parse exampleConfig = some ((Toml.parse exampleConfig).getD []) := by
    have hsome : (Toml.parse exampleConfig).isSome = true := by decide +kernel
    obtain ⟨doc, hdoc⟩ := Option.isSome_iff_exists.1 hsome
    rw [hdoc, Option.getD_some]
  have hmisread : MisreadsNobody ((Toml.parse exampleConfig).getD []) := by decide +kernel
  have hpromote := ((promoteAutoList_listed_iff hparse).2 hmisread).2 exampleHost exampleAgent
    (exampleInbox (AList.singleton configFilename (.text exampleConfig))) (by decide +kernel)
    (by decide +kernel)
  exact hpromote.resolve_left (by decide)

/-- Whoever was taken off the list, with the old list in a comment, still promotes. -/
theorem not_promoteAutoList_listed :
    (Toml.parse exampleComment).isSome = true ∧
      Toml.stringsAt autoPath ((Toml.parse exampleComment).getD []) = ["agent:a".toList] ∧
      (¬ ∀ p ∈ promoteAutoList exampleComment,
        p ∈ Toml.stringsAt autoPath ((Toml.parse exampleComment).getD [])) ∧
      Git.SignerRole.fromPrincipal exampleAgent.principal ≠ .human ∧
      (Effect.exec (runPromote exampleHost exampleAgent)
        (exampleInbox (AList.singleton configFilename (.text exampleComment)))).1.isOk = true := by
  decide +kernel

end Cli

end Wkp
