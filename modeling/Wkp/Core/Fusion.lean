import Wkp.Core.Search
import Wkp.Lib.Ranking

/-!
# Hybrid search

A search by words and a search by similarity, fused into one ranking.

* `Index.Arithmetic` : the arithmetic of the scores, floating point or exact.
* `Index.IterationOrder` : the order in which a hash map gives its entries.
* `Index.reciprocalRankFusion` : the paths of ranked lists, by the sum of their reciprocal ranks.
* `Index.hybridSearch` : the hits of both searches, fused.
-/

namespace Wkp

open Rust

namespace Index

/-! ### Fusion of ranked lists -/

/-- The arithmetic of the scores. -/
structure Arithmetic where
  /-- Addition. -/
  add : ℚ → ℚ → ℚ
  /-- Division. -/
  div : ℚ → ℚ → ℚ

/-- Exact arithmetic. -/
def Arithmetic.exact : Arithmetic := ⟨(· + ·), (· / ·)⟩

/-- `K`. -/
def fusionK : ℚ := 60

/-- What a rank, counted from one, adds to a score. -/
def Arithmetic.reciprocal (A : Arithmetic) (rank : ℕ) : ℚ := A.div 1 (A.add fusionK rank)

/-- The order in which a hash map gives its entries, from the order they were inserted in. -/
structure IterationOrder where
  /-- The entries in that order. -/
  arrange : List (Str × ℚ) → List (Str × ℚ)
  /-- All of them, each once. -/
  perm : ∀ entries, (arrange entries).Perm entries

/-- Add what a rank gives to the score of a path, which is zero at first. -/
def addScore (A : Arithmetic) (scores : List (Str × ℚ)) (path : Str) (rank : ℕ) :
    List (Str × ℚ) :=
  if path ∈ scores.map Prod.fst then
    scores.map fun e => if e.1 = path then (e.1, A.add e.2 (A.reciprocal rank)) else e
  else scores ++ [(path, A.add 0 (A.reciprocal rank))]

/-- The scores of the paths of ranked lists, in the order in which the paths first occur. -/
def scores (A : Arithmetic) (rankedLists : List (List Str)) : List (Str × ℚ) :=
  rankedLists.foldl (fun scores list =>
    list.zipIdx.foldl (fun scores e => addScore A scores e.1 (e.2 + 1)) scores) []

/-- The paths of ranked lists with their scores, the highest first. -/
def reciprocalRankFusion (A : Arithmetic) (order : IterationOrder) (rankedLists : List (List Str)) :
    List (Str × ℚ) :=
  Ranking.rank Prod.snd (order.arrange (scores A rankedLists))

/-! ### The search -/

/-- Why there is no fused result. -/
inductive HybridSearchError
  | index (e : Failure)
  | noMatchingEmbeddingDimension (queryDim : ℕ) (storedDims : List ℕ)
  deriving DecidableEq

/-- Every length of a stored embedding, as an unsigned 32-bit number. -/
def knownEmbeddingDims (db : Db) : List ℕ :=
  ((db.items.filterMap fun r => r.2.embeddingDim).dedup.mergeSort (· ≤ ·)).map (· % 2 ^ 32)

/-- The filter of the search by words. -/
def bm25Filter (filter : SearchFilter) : SearchFilter :=
  { filter with limit := some 40, budget := none }

/-- The similarity of two embeddings, in 32-bit floating point; none when it is not a number. -/
abbrev CosineSimilarity : Type := List UInt32 → List UInt32 → Option ℚ

/-- A row with its similarity.  A null embedding cannot be read. -/
def scoredRow (similarity : CosineSimilarity) (queryEmbedding : List UInt32) (row : Row) :
    Except HybridSearchError (Str × Option ℚ) :=
  match row.embedding with
  | none => .error (.index (.sqlite row.path))
  | some embedding => .ok (row.path, similarity embedding queryEmbedding)

/-- The rows that the filter admits and whose embedding has the length of the query's, each with its
similarity. -/
def scoredRows (similarity : CosineSimilarity) (db : Db) (queryEmbedding : List UInt32)
    (filter : SearchFilter) : Except HybridSearchError (List (Str × Option ℚ)) :=
  ((db.items.map Prod.snd).filter fun row =>
    decide (row.embeddingDim = some queryEmbedding.length) && filter.admits row).mapM
      (scoredRow similarity queryEmbedding)

/-- `b.1.partial_cmp(&a.1).unwrap_or(Equal)` is not greater. -/
def scoredLe (a b : Str × Option ℚ) : Bool :=
  match a.2, b.2 with
  | some x, some y => decide (y ≤ x)
  | _, _ => true

/-- The forty most similar paths, the most similar first. -/
def vecRanked (similarity : CosineSimilarity) (db : Db) (queryEmbedding : List UInt32)
    (filter : SearchFilter) : Except HybridSearchError (List Str) := do
  let scored ← scoredRows similarity db queryEmbedding filter
  if scored = [] then
    .error (.noMatchingEmbeddingDimension queryEmbedding.length (knownEmbeddingDims db))
  else
    return ((scored.mergeSort scoredLe).take 40).map Prod.fst

/-- The title, the tier and the estimated tokens of a path. -/
def fetchItemMetadata (db : Db) (path : Str) : Option (Str × ℕ × ℕ) :=
  ((db.items.map Prod.snd).find? (·.path = path)).map fun row =>
    (row.title, row.tier, row.tokensEstimate)

/-- The hit of a fused path: that of the search by words with the fused score, or else that of the
row.  The map by path has the last hit of each path; no path is looked up twice. -/
def fusedHit (db : Db) (bm25Hits : List SearchHit) (e : Str × ℚ) : Option SearchHit :=
  match bm25Hits.reverse.find? (·.path = e.1) with
  | some hit => some { hit with score := e.2 }
  | none => (fetchItemMetadata db e.1).map fun (title, tier, tokens) =>
      ⟨e.1, title, e.2, tier, tokens, 0⟩

/-- The hits that are left of ranked ones by the limit and the budget of a filter. -/
def cutHits (filter : SearchFilter) (hits : List SearchHit) : List SearchHit :=
  applyBudget (match filter.limit with
    | none => hits
    | some limit => hits.take limit) filter.budget

/-- Search by words and by similarity. -/
def hybridSearch (fts : FullText) (A : Arithmetic) (similarity : CosineSimilarity)
    (order : IterationOrder) (db : Db) (query : Str) (queryEmbedding : List UInt32)
    (filter : SearchFilter) : Except HybridSearchError (List SearchHit) := do
  let bm25Hits ← (search fts db query (bm25Filter filter)).mapError .index
  let vecRanked ← vecRanked similarity db queryEmbedding filter
  let fused := reciprocalRankFusion A order [bm25Hits.map SearchHit.path, vecRanked]
  let hits := fused.filterMap (fusedHit db bm25Hits)
  return cutHits filter (Ranking.rank SearchHit.score hits)

end Index

end Wkp
