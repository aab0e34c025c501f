import Wkp.Core.Graph
import Wkp.Core.Tier
import Wkp.Lib.Table
import Mathlib.Data.Rat.Defs
import Mathlib.Data.Char
import Mathlib.Data.List.Lex

/-!
# The index database

* `Index.Db` : the four tables of `index.db`.
* `Index.buildIndex`, `Index.updateIndex` : a full build, and an incremental change in one
  transaction.
* `Index.materialize`, `Index.traverse` : the rows of a tier, and the items within some hops of
  one.
-/

namespace Wkp

open Rust

namespace Index

/-! ### Schema -/

/-- One store item: its path, its frontmatter and its body. -/
structure Item where
  /-- The path from the store root. -/
  path : Str
  /-- The parsed frontmatter. -/
  frontmatter : Frontmatter
  /-- The body, the frontmatter block removed. -/
  body : Str
  /-- The embedding of the content, as the bits of its 32-bit floats. -/
  embedding : Option (List UInt32) := none
  /-- Its last commit is signed by a human. -/
  humanSigned : Bool
  deriving DecidableEq

/-- A row of `items`. -/
structure Row where
  /-- The path. -/
  path : Str
  /-- The title, empty when there is none. -/
  title : Str
  /-- The body. -/
  content : Str
  /-- The tags, joined by spaces. -/
  tags : Str
  /-- The type. -/
  itemType : Option Str
  /-- The workspace. -/
  workspace : Option Str
  /-- The visibility. -/
  visibility : Option Str
  /-- The scope. -/
  scope : Option Str
  /-- The confidence. -/
  confidence : Option Str
  /-- The source of the provenance. -/
  provenanceSource : Option Str
  /-- The tokens of the frontmatter. -/
  tokens : Option ℕ
  /-- The date of the last update. -/
  updated : Option Str
  /-- The expiry date, as written. -/
  expires : Option Str
  /-- The references, joined by spaces. -/
  refs : Str
  /-- The tier when the row was written. -/
  tier : ℕ
  /-- The estimated tokens. -/
  tokensEstimate : ℕ
  /-- The embedding. -/
  embedding : Option (List UInt32)
  /-- The length of the embedding. -/
  embeddingDim : Option ℕ
  deriving DecidableEq

/-- A row of `items_trigram`. -/
structure TrigramRow where
  /-- The path. -/
  path : Str
  /-- The path, the title and the body, a line each. -/
  content : Str
  deriving DecidableEq

/-- Why an edge is there. -/
inductive EdgeType
  | refs | mentions
  deriving DecidableEq

/-- A row of `edges`. -/
structure Edge where
  /-- The item with the reference. -/
  source : Str
  /-- The path it refers to. -/
  target : Str
  /-- A `refs` entry or a `[[wikilink]]`. -/
  edgeType : EdgeType
  deriving DecidableEq

/-- The tables of `index.db`; all but `edges` have a row identifier. -/
structure Db where
  /-- The paths. -/
  paths : List (ℕ × Str)
  /-- The items. -/
  items : List (ℕ × Row)
  /-- The items once more, for substring search. -/
  itemsTrigram : List (ℕ × TrigramRow)
  /-- The edges. -/
  edges : List Edge
  deriving DecidableEq

/-- What can go wrong. -/
inductive Failure
  | sqlite (path : Str)
  | panic
  deriving DecidableEq

/-- A database with its schema and no rows. -/
def createSchema : Db := ⟨[], [], [], []⟩

/-! ### Writing -/

/-- The row of an item on a day; none when computing its tier panics. -/
def itemRow (today : ℕ) (item : Item) : Option Row :=
  (Tier.computeTier today item.path item.frontmatter item.humanSigned).map fun tier => {
    path := item.path
    title := item.frontmatter.title.getD []
    content := item.body
    tags := join [' '] item.frontmatter.tags
    itemType := item.frontmatter.itemType.map ItemType.display
    workspace := item.frontmatter.workspace
    visibility := item.frontmatter.visibility.map Visibility.display
    scope := item.frontmatter.scope.map Scope.display
    confidence := item.frontmatter.confidence.map Confidence.display
    provenanceSource := item.frontmatter.provenance.source.map SourceKind.display
    tokens := item.frontmatter.tokens
    updated := item.frontmatter.updated
    expires := item.frontmatter.expires
    refs := join [' '] item.frontmatter.refs
    tier := tier
    tokensEstimate := Tier.estimateTokens item.frontmatter item.body
    embedding := item.embedding
    embeddingDim := item.embedding.map List.length }

/-- The `items_trigram` row that goes with an `items` row. -/
def trigramRow (row : Row) : TrigramRow :=
  ⟨row.path, row.path ++ '\n' :: (row.title ++ '\n' :: row.content)⟩

/-- The row identifier of the next insertion. -/
def nextRowid (paths : List (ℕ × Str)) : ℕ := (paths.map Prod.fst).foldl max 0 + 1

/-- Insert the rows of an item, all with the row identifier that `paths` assigns.  A path that is
there already violates its primary key. -/
def insertItem (today : ℕ) (db : Db) (item : Item) : Except Failure Db :=
  match itemRow today item with
  | none => .error .panic
  | some row =>
    let rowid := nextRowid db.paths
    if item.path ∈ db.paths.map Prod.snd then .error (.sqlite item.path)
    else if rowid ∈ db.items.map Prod.fst ∨ rowid ∈ db.itemsTrigram.map Prod.fst then
      .error (.sqlite item.path)
    else .ok { db with
      paths := db.paths ++ [(rowid, item.path)]
      items := db.items ++ [(rowid, row)]
      itemsTrigram := db.itemsTrigram ++ [(rowid, trigramRow row)] }

/-- Delete the outgoing edges of a path. -/
def deleteEdgesFrom (db : Db) (sourcePath : Str) : Db :=
  { db with edges := db.edges.filter fun e => e.source ≠ sourcePath }

/-- `INSERT OR IGNORE INTO edges`. -/
def insertEdge (db : Db) (e : Edge) : Db :=
  if e ∈ db.edges then db else { db with edges := db.edges ++ [e] }

/-- A pattern of SQL `LIKE`: `%` is any text and `_` any character, and the letters of ASCII match
in either case. -/
def like : Str → Str → Bool
  | [], s => decide (s = [])
  | p :: ps, s =>
    if p = '%' then s.tails.any (like ps)
    else match s with
      | [] => false
      | c :: cs => (p == '_' || p.toLower == c.toLower) && like ps cs

/-- The path that a wikilink names: the first, in path order, that is `name.md` or that `LIKE`
finds to end in `/name.md`. -/
def resolveWikilink (paths : List Str) (name : Str) : Option Str :=
  let exact := name ++ ".md".toList
  let suffix := "%/".toList ++ exact
  (paths.filter fun path => decide (path = exact) || like suffix path).min?

/-- The edges of an item, among the given paths. -/
def itemEdges (paths : List Str) (item : Item) : List Edge :=
  ((item.frontmatter.refs.filterMap (Graph.normalizeRef item.path)).map
      fun target => ⟨item.path, target, .refs⟩) ++
    (((Graph.extractWikilinkNames item.body).filterMap (resolveWikilink paths)).map
      fun target => ⟨item.path, target, .mentions⟩)

/-- Recompute the outgoing edges of an item against the current paths. -/
def insertEdgesForItem (db : Db) (item : Item) : Db :=
  (itemEdges (db.paths.map Prod.snd) item).foldl insertEdge (deleteEdgesFrom db item.path)

/-- Insert every item, and then the edges of every item. -/
def populate (today : ℕ) (db : Db) (items : List Item) : Except Failure Db := do
  let db ← items.foldlM (insertItem today) db
  return items.foldl insertEdgesForItem db

/-- Delete the rows of a path by its row identifier, and its outgoing edges.  Edges that point at
it stay. -/
def deleteItem (db : Db) (path : Str) : Db :=
  let db := match db.paths.find? (·.2 = path) with
    | none => db
    | some (rowid, _) => { db with
      paths := db.paths.filter (·.1 ≠ rowid)
      items := db.items.filter (·.1 ≠ rowid)
      itemsTrigram := db.itemsTrigram.filter (·.1 ≠ rowid) }
  deleteEdgesFrom db path

/-- Build an index from all the items. -/
def buildIndex (today : ℕ) (items : List Item) : Except Failure Db :=
  populate today createSchema items

/-- Replace the rows of one item. -/
def upsertItem (today : ℕ) (db : Db) (item : Item) : Except Failure Db :=
  insertItem today (deleteItem db item.path) item

/-- Apply a change to the index at `dest`, in one transaction; a missing index is built. -/
def updateIndex (today : ℕ) (dest : Option Db) (upserts : List Item) (deletedPaths : List Str) :
    Except Failure Db :=
  match dest with
  | none => buildIndex today upserts
  | some db => do
    let db ← upserts.foldlM (upsertItem today) (deletedPaths.foldl deleteItem db)
    return upserts.foldl insertEdgesForItem db

/-- Every path that the index has a row for. -/
def knownPaths (db : Db) : List Str := db.paths.map Prod.snd

/-! ### Reading -/

/-- The rows of a tier, in path order. -/
def tierRows (db : Db) (tier : ℕ) : List Row :=
  ((db.items.map Prod.snd).filter (·.tier = tier)).mergeSort fun a b => a.path ≤ b.path

/-- The text of a tier. -/
def materialize (db : Db) (tier : ℕ) : Str :=
  let body := (tierRows db tier).flatMap fun row =>
    "## ".toList ++ row.title ++ "\n\n<!-- source: ".toList ++ row.path ++ " -->\n\n".toList ++
      row.content ++ "\n\n".toList
  "<wkp-context tier=\"".toList ++ Frontmatter.decimal tier ++ "\">\n\n".toList ++ body ++
    "</wkp-context>\n".toList

/-- One result of a search. -/
structure SearchHit where
  /-- The path. -/
  path : Str
  /-- The title. -/
  title : Str
  /-- The score. -/
  score : ℚ
  /-- The tier. -/
  tier : ℕ
  /-- The estimated tokens. -/
  tokens : ℕ
  /-- The distance in hops. -/
  hopDistance : ℕ
  deriving DecidableEq

/-- The rows of the recursive query at one depth: the ends of the walks of that length. -/
def reachable (edges : List Edge) (start : Str) : ℕ → List Str
  | 0 => [start]
  | depth + 1 => (reachable edges start depth).flatMap fun path =>
      (edges.filter (·.source = path)).map Edge.target

/-- `MIN(depth)` among the rows of the recursive query with the given path. -/
def minDepth (edges : List Edge) (start : Str) (maxDepth : ℕ) (path : Str) : Option ℕ :=
  (List.range (maxDepth + 1)).find? fun depth => path ∈ reachable edges start depth

/-- The hit of a row that the query reaches. -/
def rowHit (db : Db) (startPath : Str) (maxDepth : ℕ) (row : Row) : Option SearchHit :=
  (minDepth db.edges startPath maxDepth row.path).map fun depth : ℕ =>
    ⟨row.path, row.title, 1 / (1 + depth), row.tier, row.tokensEstimate, depth⟩

/-- `ORDER BY depth ASC, tier ASC`, over groups in path order. -/
def hitLe (a b : SearchHit) : Bool :=
  decide (a.hopDistance < b.hopDistance ∨ (a.hopDistance = b.hopDistance ∧
    (a.tier < b.tier ∨ (a.tier = b.tier ∧ a.path ≤ b.path))))

/-- The items within `maxDepth` hops of one, itself excluded. -/
def traverse (db : Db) (startPath : Str) (maxDepth : ℕ) : List SearchHit :=
  (((db.items.map Prod.snd).filter (·.path ≠ startPath)).filterMap
    (rowHit db startPath maxDepth)).mergeSort hitLe

end Index

end Wkp
