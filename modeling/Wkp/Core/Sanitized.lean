import Wkp.Core.Search
import Wkp.Lib.Words

/-!
# What a query means to the full-text index

SQLite reads the text of a query in a grammar of its own, with operators and column filters.

* `Fts5.lex` : the tokens of an expression.
* `Index.sanitizeFtsQuery_lexes` : **the words of a query are all that it sees of the query.**
-/

namespace Wkp

open Rust

namespace Fts5

/-! ### The lexer -/

/-- A token of an expression. -/
inductive Token
  /-- A text in quotes. -/
  | phrase (text : Str)
  /-- A text without quotes. -/
  | bareword (text : Str)
  | and
  | or
  | not
  /-- One of `( ) { } : , + * - ^`. -/
  | mark (c : Char)
  deriving DecidableEq

/-- What the lexer is in. -/
inductive Mode
  | between
  /-- A text in quotes. -/
  | phrase (text : Str)
  /-- Such a text, after a quote that ends it unless another follows. -/
  | quote (text : Str)
  /-- A text without quotes. -/
  | bareword (text : Str)
  deriving DecidableEq

/-- Whitespace between tokens. -/
def isSpace (c : Char) : Bool := c ∈ [' ', '\t', '\n', '\r']

/-- A character of texts without quotes. -/
def isBareword (c : Char) : Bool :=
  decide (128 ≤ c.toNat) || c.isAlphanum || c == '_' || c == '\x1a'

/-- The token of a text without quotes. -/
def keyword (text : Str) : Token :=
  if text = "AND".toList then .and else if text = "OR".toList then .or
  else if text = "NOT".toList then .not else .bareword text

/-- The first character of a token, with the token if it is one by itself. -/
def start (c : Char) : Option (Mode × List Token) :=
  if isSpace c then some (.between, [])
  else if c = '"' then some (.phrase [], [])
  else if c ∈ "(){}:,+*-^".toList then some (.between, [.mark c])
  else if isBareword c then some (.bareword [c], [])
  else none

/-- One character, with the token that it ends or is. -/
def step : Mode → Char → Option (Mode × List Token)
  | .between, c => start c
  | .phrase text, c => some (if c = '"' then .quote text else .phrase (text ++ [c]), [])
  | .quote text, c =>
    if c = '"' then some (.phrase (text ++ ['"']), [])
    else (start c).map fun r => (r.1, .phrase text :: r.2)
  | .bareword text, c =>
    if isBareword c then some (.bareword (text ++ [c]), [])
    else (start c).map fun r => (r.1, keyword text :: r.2)

/-- The token that the end of the expression ends; a text in quotes has to be closed. -/
def finish : Mode → Option (List Token)
  | .between => some []
  | .phrase _ => none
  | .quote text => some [.phrase text]
  | .bareword text => some [keyword text]

/-- The tokens of the rest of an expression. -/
def lexFrom : Mode → Str → Option (List Token)
  | mode, [] => finish mode
  | mode, c :: s => (step mode c).bind fun r => (lexFrom r.1 s).map (r.2 ++ ·)

/-- The tokens of an expression, which a null character ends; none when it is malformed. -/
def lex (s : Str) : Option (List Token) := lexFrom .between (s.takeWhile (· ≠ '\x00'))

/-- The text of a phrase. -/
def Token.phrase? : Token → Option Str
  | .phrase text => some text
  | _ => none

/-! ### Quoted words -/

/-- A text with its quotes doubled. -/
def escape (word : Str) : Str := word.flatMap fun c => if c = '"' then ['"', '"'] else [c]

/-- A phrase for the words that begin with a text. -/
def prefixPhrase (word : Str) : List Token := [.phrase word, .mark '*']

theorem lexFrom_cons {mode next : Mode} {c : Char} {out : List Token}
    (h : step mode c = some (next, out)) (s : Str) :
    lexFrom mode (c :: s) = (lexFrom next s).map (out ++ ·) := by
  rw [lexFrom, h, Option.bind_some]

theorem lexFrom_cons_nil {mode next : Mode} {c : Char} (h : step mode c = some (next, [])) (s : Str) :
    lexFrom mode (c :: s) = lexFrom next s := by
  rw [lexFrom_cons h]
  exact congrFun Option.map_id _

theorem lexFrom_escape (text word rest : Str) :
    lexFrom (.phrase text) (escape word ++ '"' :: rest) = lexFrom (.quote (text ++ word)) rest := by
  induction word generalizing text with
  | nil => simp [escape, lexFrom, step]
  | cons c word ih =>
    have hcons : escape (c :: word) = (if c = '"' then ['"', '"'] else [c]) ++ escape word :=
      List.flatMap_cons ..
    have happend : text ++ c :: word = (text ++ [c]) ++ word := by simp
    rw [hcons, happend, ← ih]
    by_cases hc : c = '"'
    · subst hc
      rw [if_pos rfl, List.append_assoc, List.cons_append, List.cons_append, List.nil_append,
        lexFrom_cons_nil (by rfl), lexFrom_cons_nil (by rfl)]
    · have hstep : step (.phrase text) c = some (.phrase (text ++ [c]), []) := by
        rw [step, if_neg hc]
      rw [if_neg hc, List.append_assoc, List.singleton_append, lexFrom_cons_nil hstep]

theorem lexFrom_quoted (word rest : Str) :
    lexFrom .between ('"' :: (escape word ++ "\"*".toList) ++ rest) =
      (lexFrom .between rest).map (prefixPhrase word ++ ·) := by
  have hopen : lexFrom .between ('"' :: (escape word ++ "\"*".toList) ++ rest) =
      lexFrom (.phrase []) (escape word ++ '"' :: '*' :: rest) := by
    simp [lexFrom, step, start, isSpace]
  rw [hopen, lexFrom_escape]
  simp [lexFrom, step, start, isSpace, prefixPhrase]

/-- A text between two phrases that stands for some tokens. -/
def Glues (sep : Str) (glue : List Token) : Prop :=
  ∀ rest, lexFrom .between (sep ++ rest) = (lexFrom .between rest).map (glue ++ ·)

theorem glues_space : Glues [' '] [] := by
  intro rest
  simp [lexFrom, step, start, isSpace]

theorem glues_or : Glues " OR ".toList [.or] := by
  intro rest
  show lexFrom .between (' ' :: 'O' :: 'R' :: ' ' :: rest) = _
  rw [lexFrom_cons_nil (show step .between ' ' = some (.between, []) by decide),
    lexFrom_cons_nil (show step .between 'O' = some (.bareword ['O'], []) by decide),
    lexFrom_cons_nil (show step (.bareword ['O']) 'R' = some (.bareword ['O', 'R'], []) by decide),
    lexFrom_cons (show step (.bareword ['O', 'R']) ' ' = some (.between, [.or]) by decide)]

theorem lexFrom_join {sep : Str} {glue : List Token} (h : Glues sep glue) (words : List Str) :
    lexFrom .between (join sep (words.map fun word => '"' :: (escape word ++ "\"*".toList))) =
      some (glue.intercalate (words.map prefixPhrase)) := by
  induction words with
  | nil => rfl
  | cons word words ih =>
    cases words with
    | nil =>
      have hone := lexFrom_quoted word []
      rw [List.append_nil] at hone
      rw [List.map_singleton, join, List.intercalate_singleton, hone, List.map_singleton,
        List.intercalate_singleton]
      simp [lexFrom, finish]
    | cons word' words =>
      have hglue : glue.intercalate ((word :: word' :: words).map prefixPhrase) =
          prefixPhrase word ++ glue ++ glue.intercalate ((word' :: words).map prefixPhrase) :=
        List.intercalate_cons_cons
      rw [List.map_cons, join_cons _ _ (by simp), lexFrom_quoted, h, ih, hglue, Option.map_some,
        Option.map_some, List.append_assoc]

/-! ### No null characters -/

theorem mem_of_mem_escape {d : Char} {word : Str} (h : d ∈ escape word) : d ∈ word := by
  obtain ⟨c, hc, hd⟩ := List.mem_flatMap.1 h
  split_ifs at hd with hquote
  · rw [hquote] at hc
    simp only [List.mem_cons, List.not_mem_nil, or_false, or_self] at hd
    rwa [hd]
  · rwa [List.mem_singleton.1 hd]

theorem lex_of_notMem {s : Str} (h : '\x00' ∉ s) : lex s = lexFrom .between s := by
  have hwhole : s.takeWhile (fun c => decide (c ≠ '\x00')) = s := by
    refine List.takeWhile_eq_self_iff.2 fun c hc => decide_eq_true ?_
    rintro rfl
    exact h hc
  rw [lex, hwhole]

end Fts5

namespace Index

open Fts5 (Token prefixPhrase)

/-! ### The words of a query -/

/-- The words of a query, null characters removed. -/
def queryWords (raw : Str) : List Str := splitWhitespace (raw.filter (· ≠ '\x00'))

theorem notMem_queryWords (raw : Str) {word : Str} (h : word ∈ queryWords raw) : '\x00' ∉ word := by
  intro hc
  have hmem := (List.mem_filter.1 (mem_of_mem_splitOnP (List.mem_filter.1 h).1 hc).1).2
  exact absurd rfl (of_decide_eq_true hmem)

/-- An expression of a query is its words as phrases, with what stands between them. -/
theorem lex_sanitizeFtsQueryJoined {sep : Str} {glue : List Token} (hglue : Fts5.Glues sep glue)
    (hsep : '\x00' ∉ sep) (raw : Str) : Fts5.lex (sanitizeFtsQueryJoined raw sep) =
      some (glue.intercalate ((queryWords raw).map prefixPhrase)) := by
  have hnull : '\x00' ∉ sanitizeFtsQueryJoined raw sep := by
    refine notMem_join hsep fun p hp => ?_
    obtain ⟨word, hword, rfl⟩ := List.mem_map.1 hp
    rw [List.mem_cons, List.mem_append, not_or, not_or]
    refine ⟨by decide, fun hc => ?_, by decide⟩
    exact notMem_queryWords raw hword (Fts5.mem_of_mem_escape hc)
  rw [Fts5.lex_of_notMem hnull]
  exact Fts5.lexFrom_join hglue (queryWords raw)

theorem sanitizeFtsQueryJoined_eq_nil_iff (raw sep : Str) :
    sanitizeFtsQueryJoined raw sep = [] ↔ queryWords raw = [] := by
  rw [sanitizeFtsQueryJoined, ← queryWords]
  cases queryWords raw with
  | nil => exact iff_of_true rfl rfl
  | cons word words =>
    refine iff_of_false (fun h => ?_) (List.cons_ne_nil _ _)
    rw [List.map_cons] at h
    have hfirst := List.infix_nil.1 (h ▸ infix_join_of_mem List.mem_cons_self)
    cases hfirst

theorem nil_intercalate {α : Type} (ls : List (List α)) : [].intercalate ls = ls.flatten := by
  induction ls with
  | nil => rfl
  | cons l ls ih =>
    cases ls with
    | nil => rw [List.intercalate_singleton, List.flatten_singleton]
    | cons l' ls =>
      rw [List.intercalate_cons_of_ne_nil (by simp), List.append_nil, ih]
      rfl

theorem filterMap_phrase_intercalate {glue : List Token} (h : glue.filterMap Token.phrase? = [])
    (words : List Str) :
    (glue.intercalate (words.map prefixPhrase)).filterMap Token.phrase? = words := by
  induction words with
  | nil => rfl
  | cons word words ih =>
    cases words with
    | nil => rfl
    | cons word' words =>
      rw [List.map_cons, List.intercalate_cons_of_ne_nil (by simp), List.filterMap_append,
        List.filterMap_append, h, ih]
      rfl

/-- **The expression of a query is read as its words**, each the beginning of a word of the text, with
nothing between them or with `OR`; both expressions have the same phrases, and they are empty exactly
when there is no word. -/
theorem sanitizeFtsQuery_lexes (raw : Str) : ∃ tokens tokensAny,
    Fts5.lex (sanitizeFtsQuery raw) = some tokens ∧
    Fts5.lex (sanitizeFtsQueryAny raw) = some tokensAny ∧
    tokens = (queryWords raw).flatMap prefixPhrase ∧
    tokensAny = [Token.or].intercalate ((queryWords raw).map prefixPhrase) ∧
    tokens.filterMap Token.phrase? = queryWords raw ∧
    tokensAny.filterMap Token.phrase? = queryWords raw ∧
    (sanitizeFtsQuery raw = [] ↔ queryWords raw = []) ∧
    (sanitizeFtsQueryAny raw = [] ↔ queryWords raw = []) := by
  have hflat : (queryWords raw).flatMap prefixPhrase =
      ([] : List Token).intercalate ((queryWords raw).map prefixPhrase) := by
    rw [nil_intercalate, List.flatMap_def]
  refine ⟨_, _, lex_sanitizeFtsQueryJoined Fts5.glues_space (by decide) raw,
    lex_sanitizeFtsQueryJoined Fts5.glues_or (by decide) raw, hflat.symm, rfl,
    filterMap_phrase_intercalate rfl _, filterMap_phrase_intercalate rfl _,
    sanitizeFtsQueryJoined_eq_nil_iff raw _, sanitizeFtsQueryJoined_eq_nil_iff raw _⟩

example : Fts5.lex (sanitizeFtsQueryAny "title:x NOT \"y".toList) =
    some [.phrase "title:x".toList, .mark '*', .or, .phrase "NOT".toList, .mark '*', .or,
      .phrase "\"y".toList, .mark '*'] := by
  decide +kernel

end Index

end Wkp
