import Wkp.Core.Traversed

/-!
# Search

* `Index.FullText` : the full-text index of the `items` table.
* `Index.search` : the matches of a query that a filter admits, the best first.
* `Index.applyBudget` : as many of them as fit in a number of tokens, and at least one.
* `Index.context` : the matches of a topic, and the items near the first three of them.
-/

namespace Wkp

open Rust

namespace Index

/-- What a search is restricted to. -/
structure SearchFilter where
  /-- The type. -/
  itemType : Option Str := none
  /-- The workspace. -/
  workspace : Option Str := none
  /-- The visibility. -/
  visibility : Option Str := none
  /-- The scope. -/
  scope : Option Str := none
  /-- The highest tier. -/
  tier : Option ℕ := none
  /-- The number of tokens that the results may have together. -/
  budget : Option ℕ := none
  /-- The number of results. -/
  limit : Option ℕ := none

/-- The four conditions on columns that are compared for equality.  A null column equals no
value. -/
def SearchFilter.metadata (filter : SearchFilter) (row : Row) : Bool :=
  filter.itemType.all (fun v => row.itemType == some v) &&
    filter.workspace.all (fun v => row.workspace == some v) &&
    filter.visibility.all (fun v => row.visibility == some v) &&
    filter.scope.all fun v => row.scope == some v

/-- The condition on a tier. -/
def SearchFilter.withinTier (filter : SearchFilter) (tier : ℕ) : Bool :=
  filter.tier.all fun highest => decide (tier ≤ highest)

/-- The conditions of the query. -/
def SearchFilter.admits (filter : SearchFilter) (row : Row) : Bool :=
  filter.metadata row && filter.withinTier row.tier

/-- The full-text index that SQLite keeps of the `items` table. -/
structure FullText where
  /-- The rows that match an expression, in the order of the table, each with its score. -/
  matching : Str → List (ℕ × Row) → Except Failure (List (ℚ × Row))
  /-- The matches are rows of the table, each at most once. -/
  rows : ∀ expr items found, matching expr items = .ok found →
    (found.map Prod.snd).Sublist (items.map Prod.snd)

/-- Every word of the query as a quoted prefix. -/
def sanitizeFtsQueryJoined (raw joiner : Str) : Str :=
  join joiner ((splitWhitespace (raw.filter (· ≠ '\x00'))).map fun word =>
    '"' :: (word.flatMap (fun c => if c = '"' then ['"', '"'] else [c]) ++ "\"*".toList))

/-- The expression of a query all of whose words have to match. -/
def sanitizeFtsQuery (raw : Str) : Str := sanitizeFtsQueryJoined raw [' ']

/-- The expression of a query any of whose words has to match. -/
def sanitizeFtsQueryAny (raw : Str) : Str := sanitizeFtsQueryJoined raw " OR ".toList

/-- The loop of `applyBudget`. -/
def applyBudgetLoop (budget : ℕ) : List SearchHit → ℕ → List SearchHit → List SearchHit
  | [], _, kept => kept
  | hit :: hits, spent, kept =>
    let wouldSpend := spent + hit.tokens
    if kept ≠ [] ∧ budget < wouldSpend then kept
    else applyBudgetLoop budget hits wouldSpend (kept ++ [hit])

/-- The first hits whose tokens together are within the budget; the very first is always kept. -/
def applyBudget (hits : List SearchHit) : Option ℕ → List SearchHit
  | none => hits
  | some budget => applyBudgetLoop budget hits 0 []

/-- `LIMIT`, with a limit of 64 bits read as a signed number; a negative one is none. -/
def limitRows {α : Type} (limit : Option ℕ) (rows : List α) : List α :=
  match limit with
  | none => rows
  | some limit => if limit < 2 ^ 63 then rows.take limit else rows

/-- The hit of a matching row. -/
def matchHit (r : ℚ × Row) : SearchHit :=
  ⟨r.2.path, r.2.title, r.1, r.2.tier, r.2.tokensEstimate, 0⟩

/-- The matches of an expression that the filter admits, the highest score first. -/
def runBm25Query (fts : FullText) (db : Db) (sanitized : Str) (filter : SearchFilter) :
    Except Failure (List SearchHit) :=
  -- an empty expression is a syntax error
  if sanitized = [] then .ok []
  else do
    let found ← fts.matching sanitized db.items
    let rows := (found.filter fun r => filter.admits r.2).mergeSort fun a b => decide (b.1 ≤ a.1)
    return applyBudget ((limitRows filter.limit rows).map matchHit) filter.budget

/-- Search for all the words of a query. -/
def search (fts : FullText) (db : Db) (query : Str) (filter : SearchFilter) :
    Except Failure (List SearchHit) :=
  runBm25Query fts db (sanitizeFtsQuery query) filter

/-- Search for any of the words of a query. -/
def searchAnyTerm (fts : FullText) (db : Db) (query : Str) (filter : SearchFilter) :
    Except Failure (List SearchHit) :=
  runBm25Query fts db (sanitizeFtsQueryAny query) filter

/-- Add a hit, unless its path was seen. -/
def pushUnseen (combined : List SearchHit) (hit : SearchHit) : List SearchHit :=
  if hit.path ∈ combined.map SearchHit.path then combined else combined ++ [hit]

/-- The filter of the search that `context` begins with. -/
def directFilter (filter : SearchFilter) : SearchFilter :=
  { filter with budget := none, limit := some 20 }

/-- The matches of a topic, then the items within two hops of the first three of them, within the
budget. -/
def context (fts : FullText) (db : Db) (topic : Str) (filter : SearchFilter) :
    Except Failure (List SearchHit) := do
  let combined := (← search fts db topic (directFilter filter)).foldl pushUnseen []
  let seeds := (combined.take 3).map SearchHit.path
  let combined := seeds.foldl (fun combined seed =>
    ((traverse db seed 2).filter fun neighbor => filter.withinTier neighbor.tier).foldl
      pushUnseen combined) combined
  return applyBudget combined filter.budget

end Index

end Wkp
