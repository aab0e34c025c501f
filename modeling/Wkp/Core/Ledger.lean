import Wkp.Core.Index

/-!
# What the index holds

The abstract view of `index.db`: a `Ledger` keeps, for every path, the item last written for it,
the day of that write, and the paths the index held right after it.

* `Index.InStep` : the three tables with row identifiers agree row by row.
* `Index.Represents` : a database holds the rows and the edges of a ledger.
* `Index.RepresentsDest.run` : every successful call takes it to the ledger after the call.
* `Index.represents_runCalls` : so does every sequence of calls.
-/

namespace Wkp

open Rust

namespace Index

/-! ### The ledger -/

/-- What the index was last told about a path. -/
structure Entry where
  /-- The item. -/
  item : Item
  /-- The day of the write. -/
  day : ℕ
  /-- The paths of the index after the batch that wrote it. -/
  paths : List Str

/-- The path of an entry. -/
def Entry.path (e : Entry) : Str := e.item.path

/-- The entries of an index, one a path. -/
abbrev Ledger := List Entry

/-- A call that writes the index. -/
inductive Call
  | build (today : ℕ) (items : List Item)
  | update (today : ℕ) (upserts : List Item) (deletedPaths : List Str)

/-- The database after a call. -/
def Call.run (dest : Option Db) : Call → Except Failure Db
  | build today items => buildIndex today items
  | update today upserts deletedPaths => updateIndex today dest upserts deletedPaths

/-- The ledger after a batch of deletions and upserts. -/
def Ledger.update (l : Ledger) (today : ℕ) (upserts : List Item) (deletedPaths : List Str) :
    Ledger :=
  let kept := deletedPaths.foldl (fun l p => Table.erase Entry.path p l) l
  let paths := (upserts.map Item.path).foldl (fun ps p => Table.put id p ps) (kept.map Entry.path)
  (upserts.map fun item => ⟨item, today, paths⟩).foldl (fun l e => Table.put Entry.path e l) kept

/-- The ledger after a call. -/
def Ledger.apply (l : Ledger) : Call → Ledger
  | .build today items => Ledger.update [] today items []
  | .update today upserts deletedPaths => l.update today upserts deletedPaths

/-- The items a batch leaves written: the last of each path. -/
def written (upserts : List Item) : List Item :=
  upserts.foldl (fun l item => Table.put Item.path item l) []

theorem Ledger.paths_update (l : Ledger) (today : ℕ) (upserts : List Item)
    (deletedPaths : List Str) : (l.update today upserts deletedPaths).map Entry.path =
      (upserts.map Item.path).foldl (fun ps p => Table.put id p ps)
        ((deletedPaths.foldl (fun l p => Table.erase Entry.path p l) l).map Entry.path) := by
  rw [Ledger.update, Table.map_foldl_put (f := Entry.path) (g := id) Entry.path fun _ => rfl,
    List.map_map]
  rfl

theorem map_path_entries (today : ℕ) (paths : List Str) (items : List Item) :
    (items.map fun item => (⟨item, today, paths⟩ : Entry)).map Entry.path = items.map Item.path := by
  rw [List.map_map]
  rfl

/-- The paths after a batch: those it left alone, and those it wrote. -/
theorem Ledger.mem_paths_update {l : Ledger} {today : ℕ} {upserts : List Item}
    {deletedPaths : List Str} {p : Str} :
    p ∈ (l.update today upserts deletedPaths).map Entry.path ↔
      (p ∈ l.map Entry.path ∧ p ∉ deletedPaths) ∨ p ∈ upserts.map Item.path := by
  rw [Ledger.update, Table.mem_map_foldl_put, map_path_entries]
  refine or_congr_left ?_
  simp only [List.mem_map, Table.mem_foldl_erase]
  constructor
  · rintro ⟨e, ⟨he, hdel⟩, rfl⟩
    exact ⟨⟨e, he, rfl⟩, hdel⟩
  · rintro ⟨⟨e, he, rfl⟩, hdel⟩
    exact ⟨e, ⟨he, hdel⟩, rfl⟩

theorem mem_of_mem_written {upserts : List Item} {item : Item} (h : item ∈ written upserts) :
    item ∈ upserts := by
  rw [written] at h
  induction upserts using List.reverseRecOn with
  | nil => exact h
  | append_singleton upserts last ih =>
    rw [List.foldl_append, List.foldl_cons, List.foldl_nil, Table.mem_put] at h
    rw [List.mem_append, List.mem_singleton]
    exact h.elim .inr fun h => .inl (ih h.1)

theorem Ledger.mem_update {l : Ledger} {today : ℕ} {upserts : List Item}
    {deletedPaths : List Str} {x : Entry} : x ∈ l.update today upserts deletedPaths ↔
      (x ∈ l ∧ x.path ∉ deletedPaths ∧ x.path ∉ upserts.map Item.path) ∨
        ∃ item ∈ written upserts,
          x = ⟨item, today, (l.update today upserts deletedPaths).map Entry.path⟩ := by
  have hpaths := l.paths_update today upserts deletedPaths
  rw [hpaths, Ledger.update]
  generalize (upserts.map Item.path).foldl (fun ps p => Table.put id p ps)
    ((deletedPaths.foldl (fun l p => Table.erase Entry.path p l) l).map Entry.path) = paths
  have hlast := Table.map_foldl_put (f := Item.path) (g := Entry.path)
    (fun item => (⟨item, today, paths⟩ : Entry)) (fun _ => rfl) upserts []
  rw [List.map_nil] at hlast
  rw [Table.mem_foldl_put, Table.mem_foldl_erase, map_path_entries, ← hlast, and_assoc, written]
  exact or_congr Iff.rfl (List.mem_map.trans (exists_congr fun _ => and_congr Iff.rfl eq_comm))

theorem Ledger.keyed_update {l : Ledger} (h : Table.Keyed Entry.path l) (today : ℕ)
    (upserts : List Item) (deletedPaths : List Str) :
    Table.Keyed Entry.path (l.update today upserts deletedPaths) :=
  Table.keyed_foldl_put (Table.keyed_foldl_erase h)

/-! ### The tables in step -/

/-- The rows of the three tables correspond one to one by row identifier and agree on what they
share. -/
structure InStep (db : Db) : Prop where
  /-- `paths` holds the path of each item. -/
  paths : db.paths = db.items.map fun r => (r.1, r.2.path)
  /-- `items_trigram` holds the text of each item. -/
  itemsTrigram : db.itemsTrigram = db.items.map fun r => (r.1, trigramRow r.2)
  /-- No row identifier occurs twice. -/
  rowids : (db.items.map Prod.fst).Nodup
  /-- No path occurs twice. -/
  keyed : Table.Keyed Row.path (db.items.map Prod.snd)

theorem inStep_createSchema : InStep createSchema := ⟨rfl, rfl, List.nodup_nil, List.nodup_nil⟩

theorem InStep.map_path {db : Db} (h : InStep db) :
    db.paths.map Prod.snd = (db.items.map Prod.snd).map Row.path := by
  rw [h.paths, List.map_map, List.map_map]
  rfl

theorem InStep.of_edges {db : Db} (h : InStep db) (edges : List Edge) :
    InStep { db with edges := edges } := ⟨h.paths, h.itemsTrigram, h.rowids, h.keyed⟩

theorem InStep.rowid_iff {db : Db} (h : InStep db) {rowid : ℕ} {path : Str}
    (hmem : (rowid, path) ∈ db.paths) {r : ℕ × Row} (hr : r ∈ db.items) :
    r.1 = rowid ↔ r.2.path = path := by
  rw [h.paths] at hmem
  obtain ⟨r₀, hr₀, heq⟩ := List.mem_map.1 hmem
  obtain ⟨rfl, rfl⟩ : r₀.1 = rowid ∧ r₀.2.path = path := by simpa using heq
  constructor
  · intro hid
    rw [List.inj_on_of_nodup_map h.rowids hr hr₀ hid]
  · intro hpath
    have hkeyed : (db.items.map fun r => r.2.path).Nodup := by
      have := h.keyed
      rwa [Table.Keyed, List.map_map] at this
    rw [List.inj_on_of_nodup_map hkeyed hr hr₀ hpath]

theorem deleteItem_spec {db : Db} (h : InStep db) (path : Str) :
    InStep (deleteItem db path) ∧
      (deleteItem db path).items.map Prod.snd =
        Table.erase Row.path path (db.items.map Prod.snd) ∧
      (deleteItem db path).edges = db.edges.filter fun e => e.source ≠ path := by
  rw [deleteItem, deleteEdgesFrom]
  cases hf : db.paths.find? (·.2 = path) with
  | none =>
    have hnot : path ∉ (db.items.map Prod.snd).map Row.path := by
      rw [← h.map_path]
      intro hm
      obtain ⟨r, hr, hp⟩ := List.mem_map.1 hm
      exact absurd (List.find?_eq_none.1 hf r hr) (by simp [hp])
    exact ⟨h.of_edges _, (Table.erase_of_notMem hnot).symm, rfl⟩
  | some r =>
    obtain ⟨rowid, path'⟩ := r
    obtain rfl : path' = path := by simpa using List.find?_some hf
    have hmem := List.mem_of_find?_eq_some hf
    have hsub : (db.items.filter fun r => r.1 ≠ rowid).Sublist db.items := List.filter_sublist
    refine ⟨⟨?_, ?_, h.rowids.sublist (hsub.map _), h.keyed.sublist ((hsub.map _).map _)⟩, ?_, rfl⟩
    · dsimp only
      rw [h.paths, List.filter_map]
      rfl
    · dsimp only
      rw [h.itemsTrigram, List.filter_map]
      rfl
    · dsimp only
      rw [Table.erase, List.filter_map]
      congr 1
      refine List.filter_congr fun r hr => ?_
      simp only [Function.comp_apply, ne_eq, decide_not, h.rowid_iff hmem hr]

theorem rowid_lt_nextRowid {paths : List (ℕ × Str)} {rowid : ℕ}
    (h : rowid ∈ paths.map Prod.fst) : rowid < nextRowid paths := by
  have hmax : ∀ (ids : List ℕ) (m : ℕ), m ≤ ids.foldl max m ∧ ∀ i ∈ ids, i ≤ ids.foldl max m := by
    intro ids
    induction ids with
    | nil => simp
    | cons i ids ih =>
      intro m
      obtain ⟨h1, h2⟩ := ih (max m i)
      refine ⟨(le_max_left m i).trans h1, fun j hj => ?_⟩
      rcases List.mem_cons.1 hj with rfl | hj
      · exact (le_max_right m j).trans h1
      · exact h2 j hj
  exact Nat.lt_succ_of_le ((hmax _ 0).2 _ h)

theorem insertItem_spec {today : ℕ} {db db' : Db} {item : Item} (h : InStep db)
    (hok : insertItem today db item = .ok db') :
    ∃ row, itemRow today item = some row ∧ InStep db' ∧ db'.edges = db.edges ∧
      item.path ∉ (db.items.map Prod.snd).map Row.path ∧
      db'.items.map Prod.snd = db.items.map Prod.snd ++ [row] := by
  rw [insertItem] at hok
  cases hrow : itemRow today item with
  | none => rw [hrow] at hok; cases hok
  | some row =>
    have hpath : row.path = item.path := by
      rw [itemRow] at hrow
      obtain ⟨tier, -, rfl⟩ := Option.map_eq_some_iff.1 hrow
      rfl
    rw [hrow] at hok
    dsimp only at hok
    split_ifs at hok with hdup hid
    obtain rfl := Except.ok.inj hok
    have hfresh : nextRowid db.paths ∉ db.items.map Prod.fst := fun hm => hid (.inl hm)
    rw [h.map_path] at hdup
    refine ⟨row, rfl, ⟨?_, ?_, ?_, ?_⟩, rfl, hdup, by simp⟩
    · simp only [h.paths, List.map_append, List.map_cons, List.map_nil, hpath]
    · simp only [h.itemsTrigram, List.map_append, List.map_cons, List.map_nil]
    · simp only [List.map_append, List.map_cons, List.map_nil]
      exact (List.nodup_append.2 ⟨h.rowids, List.nodup_singleton _, by
        rintro i hi j hj rfl
        exact hfresh (List.mem_singleton.1 hj ▸ hi)⟩)
    · rw [Table.Keyed]
      simp only [List.map_append, List.map_cons, List.map_nil, hpath]
      exact List.nodup_append.2 ⟨h.keyed, List.nodup_singleton _, by
        rintro p hp q hq rfl
        exact hdup (List.mem_singleton.1 hq ▸ hp)⟩

/-! ### Edges -/

theorem source_of_mem_itemEdges {paths : List Str} {item : Item} {e : Edge}
    (h : e ∈ itemEdges paths item) : e.source = item.path := by
  rw [itemEdges, List.mem_append, List.mem_map, List.mem_map] at h
  rcases h with ⟨target, -, rfl⟩ | ⟨target, -, rfl⟩ <;> rfl

theorem insertEdge_spec (db : Db) (e : Edge) :
    insertEdge db e = { db with edges := (insertEdge db e).edges } ∧
      ∀ e', e' ∈ (insertEdge db e).edges ↔ e' ∈ db.edges ∨ e' = e := by
  rw [insertEdge]
  split_ifs with h
  · refine ⟨rfl, fun e' => ⟨.inl, ?_⟩⟩
    rintro (he | rfl)
    · exact he
    · exact h
  · exact ⟨rfl, fun e' => by simp⟩

theorem foldl_insertEdge_spec (es : List Edge) (db : Db) :
    es.foldl insertEdge db = { db with edges := (es.foldl insertEdge db).edges } ∧
      ∀ e, e ∈ (es.foldl insertEdge db).edges ↔ e ∈ db.edges ∨ e ∈ es := by
  induction es generalizing db with
  | nil => exact ⟨rfl, by simp⟩
  | cons e es ih =>
    obtain ⟨heq, hmem⟩ := insertEdge_spec db e
    obtain ⟨heq', hmem'⟩ := ih (insertEdge db e)
    rw [List.foldl_cons]
    refine ⟨?_, fun e' => ?_⟩
    · rw [heq', heq]
    · rw [hmem', hmem, List.mem_cons, or_assoc]

/-- Recomputing the edges of an item changes nothing else, and replaces its outgoing edges. -/
theorem insertEdgesForItem_spec (db : Db) (item : Item) :
    insertEdgesForItem db item = { db with edges := (insertEdgesForItem db item).edges } ∧
      ∀ e, e ∈ (insertEdgesForItem db item).edges ↔
        (e ∈ db.edges ∧ e.source ≠ item.path) ∨ e ∈ itemEdges (db.paths.map Prod.snd) item := by
  obtain ⟨heq, hmem⟩ := foldl_insertEdge_spec (itemEdges (db.paths.map Prod.snd) item)
    (deleteEdgesFrom db item.path)
  rw [insertEdgesForItem]
  refine ⟨?_, fun e => ?_⟩
  · rw [heq, deleteEdgesFrom]
  · rw [hmem, deleteEdgesFrom, List.mem_filter, decide_eq_true_iff]

theorem foldl_insertEdgesForItem_spec (items : List Item) (db : Db) :
    items.foldl insertEdgesForItem db =
        { db with edges := (items.foldl insertEdgesForItem db).edges } ∧
      ∀ e, e ∈ (items.foldl insertEdgesForItem db).edges ↔
        (e ∈ db.edges ∧ e.source ∉ items.map Item.path) ∨
          ∃ item ∈ written items, e ∈ itemEdges (db.paths.map Prod.snd) item := by
  induction items using List.reverseRecOn with
  | nil => exact ⟨rfl, by simp [written]⟩
  | append_singleton items item ih =>
    obtain ⟨heq, hmem⟩ := ih
    obtain ⟨heq', hmem'⟩ := insertEdgesForItem_spec (items.foldl insertEdgesForItem db) item
    have hpaths : (items.foldl insertEdgesForItem db).paths = db.paths := by rw [heq]
    have hwritten : ∀ x, x ∈ written (items ++ [item]) ↔
        x = item ∨ (x ∈ written items ∧ x.path ≠ item.path) := by
      intro x
      rw [written, List.foldl_append, List.foldl_cons, List.foldl_nil, Table.mem_put, written]
    rw [List.foldl_append, List.foldl_cons, List.foldl_nil]
    refine ⟨by rw [heq', heq], fun e => ?_⟩
    rw [hmem', hmem, hpaths, List.map_append, List.map_singleton, List.mem_append,
      List.mem_singleton, not_or]
    constructor
    · rintro (⟨⟨he, hs⟩ | ⟨x, hx, he⟩, hne⟩ | he)
      · exact .inl ⟨he, hs, hne⟩
      · exact .inr ⟨x, (hwritten x).2 (.inr ⟨hx, source_of_mem_itemEdges he ▸ hne⟩), he⟩
      · exact .inr ⟨item, (hwritten item).2 (.inl rfl), he⟩
    · rintro (⟨he, hs, hne⟩ | ⟨x, hx, he⟩)
      · exact .inl ⟨.inl ⟨he, hs⟩, hne⟩
      · rcases (hwritten x).1 hx with rfl | ⟨hx, hne⟩
        · exact .inr he
        · exact .inl ⟨.inr ⟨x, hx, he⟩, (source_of_mem_itemEdges he).symm ▸ hne⟩

/-! ### The rows of a batch -/

/-- The row that an entry left. -/
def EntryRow (e : Entry) (row : Row) : Prop := itemRow e.day e.item = some row

theorem itemRow_spec {today : ℕ} {item : Item} {row : Row} (h : itemRow today item = some row) :
    row.expires = item.frontmatter.expires ∧ row.content = item.body ∧
      Tier.computeTier today item.path item.frontmatter item.humanSigned = some row.tier := by
  rw [itemRow] at h
  obtain ⟨tier, htier, rfl⟩ := Option.map_eq_some_iff.1 h
  exact ⟨rfl, rfl, htier⟩

theorem path_of_itemRow {today : ℕ} {item : Item} {row : Row} (h : itemRow today item = some row) :
    row.path = item.path := by
  rw [itemRow] at h
  obtain ⟨tier, -, rfl⟩ := Option.map_eq_some_iff.1 h
  rfl

theorem path_of_entryRow (e : Entry) (row : Row) (h : EntryRow e row) : row.path = e.path :=
  path_of_itemRow h

theorem foldl_deleteItem_spec {db : Db} (h : InStep db) (deletedPaths : List Str) :
    InStep (deletedPaths.foldl deleteItem db) ∧
      (deletedPaths.foldl deleteItem db).items.map Prod.snd =
        deletedPaths.foldl (fun l p => Table.erase Row.path p l) (db.items.map Prod.snd) ∧
      ∀ e, e ∈ (deletedPaths.foldl deleteItem db).edges ↔
        e ∈ db.edges ∧ e.source ∉ deletedPaths := by
  induction deletedPaths generalizing db with
  | nil => exact ⟨h, rfl, by simp⟩
  | cons p deletedPaths ih =>
    obtain ⟨hstep, hitems, hedges⟩ := deleteItem_spec h p
    obtain ⟨hstep', hitems', hedges'⟩ := ih hstep
    rw [List.foldl_cons]
    refine ⟨hstep', by rw [hitems', hitems, List.foldl_cons], fun e => ?_⟩
    rw [hedges', hedges, List.mem_filter, decide_eq_true_iff, List.mem_cons, not_or, and_assoc]

theorem forall₂_foldl_erase {l : List Entry} {rows : List Row} (h : List.Forall₂ EntryRow l rows)
    (ps : List Str) : List.Forall₂ EntryRow (ps.foldl (fun l p => Table.erase Entry.path p l) l)
      (ps.foldl (fun l p => Table.erase Row.path p l) rows) := by
  induction ps generalizing l rows with
  | nil => exact h
  | cons p ps ih => exact ih (Table.forall₂_erase path_of_entryRow h p)

/-- The rows after a series of upserts are those of the entries they write. -/
theorem foldlM_upsertItem_spec {today : ℕ} (paths : List Str) {upserts : List Item} {db db' : Db}
    {l : List Entry} (h : InStep db) (hrows : List.Forall₂ EntryRow l (db.items.map Prod.snd))
    (hok : upserts.foldlM (upsertItem today) db = .ok db') :
    InStep db' ∧
      List.Forall₂ EntryRow ((upserts.map fun item => ⟨item, today, paths⟩).foldl
        (fun l e => Table.put Entry.path e l) l) (db'.items.map Prod.snd) ∧
      ∀ e, e ∈ db'.edges ↔ e ∈ db.edges ∧ e.source ∉ upserts.map Item.path := by
  induction upserts generalizing db l with
  | nil =>
    obtain rfl : db = db' := by simpa [pure, Except.pure] using hok
    exact ⟨h, hrows, by simp⟩
  | cons item upserts ih =>
    rw [List.foldlM_cons] at hok
    cases hitem : upsertItem today db item with
    | error e => rw [hitem] at hok; cases hok
    | ok db₁ =>
      rw [hitem] at hok
      obtain ⟨hstep, hitems, hedges⟩ := deleteItem_spec h item.path
      obtain ⟨row, hrow, hstep₁, hedges₁, -, hitems₁⟩ := insertItem_spec hstep hitem
      have hput : List.Forall₂ EntryRow (Table.put Entry.path ⟨item, today, paths⟩ l)
          (db₁.items.map Prod.snd) := by
        rw [hitems₁, hitems, ← path_of_itemRow hrow]
        exact Table.forall₂_put path_of_entryRow hrows hrow
      obtain ⟨hstep', hrows', hedges'⟩ := ih hstep₁ hput hok
      refine ⟨hstep', hrows', fun e => ?_⟩
      rw [hedges', hedges₁, hedges, List.mem_filter, decide_eq_true_iff, List.map_cons,
        List.mem_cons, not_or, and_assoc]

theorem foldlM_insertItem_spec {today : ℕ} (paths : List Str) {items : List Item} {db db' : Db}
    {l : List Entry} (h : InStep db) (hrows : List.Forall₂ EntryRow l (db.items.map Prod.snd))
    (hok : items.foldlM (insertItem today) db = .ok db') :
    InStep db' ∧
      List.Forall₂ EntryRow ((items.map fun item => ⟨item, today, paths⟩).foldl
        (fun l e => Table.put Entry.path e l) l) (db'.items.map Prod.snd) ∧
      db'.edges = db.edges := by
  induction items generalizing db l with
  | nil =>
    obtain rfl : db = db' := by simpa [pure, Except.pure] using hok
    exact ⟨h, hrows, rfl⟩
  | cons item items ih =>
    rw [List.foldlM_cons] at hok
    cases hitem : insertItem today db item with
    | error e => rw [hitem] at hok; cases hok
    | ok db₁ =>
      rw [hitem] at hok
      obtain ⟨row, hrow, hstep₁, hedges₁, hnot, hitems₁⟩ := insertItem_spec h hitem
      have hput : List.Forall₂ EntryRow (Table.put Entry.path ⟨item, today, paths⟩ l)
          (db₁.items.map Prod.snd) := by
        have := Table.forall₂_put path_of_entryRow hrows
          (show EntryRow ⟨item, today, paths⟩ row from hrow)
        rwa [Table.put_of_notMem (f := Row.path) (path_of_itemRow hrow ▸ hnot), ← hitems₁] at this
      obtain ⟨hstep', hrows', hedges'⟩ := ih hstep₁ hput hok
      exact ⟨hstep', hrows', hedges'.trans hedges₁⟩

/-! ### Refinement -/

/-- A database holds the rows and the edges of a ledger. -/
structure Represents (l : Ledger) (db : Db) : Prop where
  /-- The tables agree. -/
  inStep : InStep db
  /-- One entry a path. -/
  keyed : Table.Keyed Entry.path l
  /-- Every entry has its row. -/
  rows : List.Forall₂ EntryRow l (db.items.map Prod.snd)
  /-- The edges are those of the entries, each among the paths it was written with. -/
  edges : ∀ e, e ∈ db.edges ↔ ∃ x ∈ l, e ∈ itemEdges x.paths x.item

theorem Represents.knownPaths {l : Ledger} {db : Db} (h : Represents l db) :
    knownPaths db = l.map Entry.path := by
  rw [Index.knownPaths, h.inStep.map_path, Table.map_eq_of_forall₂ path_of_entryRow h.rows]

theorem Represents.row_of_entry {l : Ledger} {db : Db} (h : Represents l db) {e : Entry}
    (he : e ∈ l) : ∃ row ∈ db.items.map Prod.snd, EntryRow e row :=
  Table.exists_right_of_mem h.rows he

theorem Represents.entry_of_row {l : Ledger} {db : Db} (h : Represents l db) {row : Row}
    (hrow : row ∈ db.items.map Prod.snd) : ∃ e ∈ l, EntryRow e row :=
  Table.exists_left_of_mem h.rows hrow

theorem Represents.eq_of_entryRow {l : Ledger} {db : Db} (h : Represents l db) {e e' : Entry}
    {row : Row} (he : e ∈ l) (he' : e' ∈ l) (hrow : EntryRow e row) (hrow' : EntryRow e' row) :
    e = e' :=
  h.keyed.eq_of_key_eq he he' ((path_of_entryRow e row hrow).symm.trans (path_of_entryRow e' row hrow'))

theorem represents_createSchema : Represents [] createSchema where
  inStep := inStep_createSchema
  keyed := List.nodup_nil
  rows := .nil
  edges := by simp [createSchema]

/-- Once the rows of a batch are there, recomputing its edges leaves the ledger of the batch. -/
theorem represents_insertEdges {l : Ledger} {today : ℕ} {upserts : List Item}
    {deletedPaths : List Str} {db : Db} (hl : Table.Keyed Entry.path l) (hstep : InStep db)
    (hrows : List.Forall₂ EntryRow (l.update today upserts deletedPaths)
      (db.items.map Prod.snd))
    (hedges : ∀ e, e ∈ db.edges ∧ e.source ∉ upserts.map Item.path ↔
      ∃ x ∈ l, e ∈ itemEdges x.paths x.item ∧ x.path ∉ deletedPaths ∧
        x.path ∉ upserts.map Item.path) :
    Represents (l.update today upserts deletedPaths) (upserts.foldl insertEdgesForItem db) := by
  obtain ⟨heq, hmem⟩ := foldl_insertEdgesForItem_spec upserts db
  have hpaths : db.paths.map Prod.snd =
      (l.update today upserts deletedPaths).map Entry.path := by
    rw [hstep.map_path, Table.map_eq_of_forall₂ path_of_entryRow hrows]
  refine ⟨heq ▸ hstep.of_edges _, Ledger.keyed_update hl _ _ _, ?_, fun e => ?_⟩
  · rw [heq]
    exact hrows
  · rw [hmem, hedges, hpaths]
    constructor
    · rintro (⟨x, hx, he, hdel, hups⟩ | ⟨item, hitem, he⟩)
      · exact ⟨x, Ledger.mem_update.2 (.inl ⟨hx, hdel, hups⟩), he⟩
      · exact ⟨_, Ledger.mem_update.2 (.inr ⟨item, hitem, rfl⟩), he⟩
    · rintro ⟨x, hx, he⟩
      rcases Ledger.mem_update.1 hx with ⟨hx, hdel, hups⟩ | ⟨item, hitem, rfl⟩
      · exact .inl ⟨x, hx, he, hdel, hups⟩
      · exact .inr ⟨item, hitem, he⟩

theorem represents_buildIndex {today : ℕ} {items : List Item} {db : Db}
    (hok : buildIndex today items = .ok db) : Represents (Ledger.update [] today items []) db := by
  rw [buildIndex, populate] at hok
  cases hins : items.foldlM (insertItem today) createSchema with
  | error e => rw [hins] at hok; cases hok
  | ok db₁ =>
    rw [hins] at hok
    obtain rfl : items.foldl insertEdgesForItem db₁ = db := Except.ok.inj hok
    obtain ⟨hstep, hrows, hedges⟩ := foldlM_insertItem_spec (l := [])
      ((items.map Item.path).foldl (fun ps p => Table.put id p ps) []) inStep_createSchema .nil hins
    refine represents_insertEdges List.nodup_nil hstep hrows fun e => ?_
    rw [hedges]
    simp [createSchema]

theorem mem_knownPaths_buildIndex {today : ℕ} {items : List Item} {db : Db}
    (hok : buildIndex today items = .ok db) {p : Str} :
    p ∈ knownPaths db ↔ p ∈ items.map Item.path := by
  rw [(represents_buildIndex hok).knownPaths, Ledger.update, List.foldl_nil,
    Table.mem_map_foldl_put, List.map_map]
  simp only [List.map_nil, List.not_mem_nil, false_or]
  rfl

theorem Represents.updateIndex {l : Ledger} {db db' : Db} (h : Represents l db) {today : ℕ}
    {upserts : List Item} {deletedPaths : List Str}
    (hok : updateIndex today (some db) upserts deletedPaths = .ok db') :
    Represents (l.update today upserts deletedPaths) db' := by
  rw [Index.updateIndex] at hok
  cases hups : upserts.foldlM (upsertItem today) (deletedPaths.foldl deleteItem db) with
  | error e => rw [hups] at hok; cases hok
  | ok db₁ =>
    rw [hups] at hok
    obtain rfl : upserts.foldl insertEdgesForItem db₁ = db' := Except.ok.inj hok
    obtain ⟨hdstep, hdrows, hdedges⟩ := foldl_deleteItem_spec h.inStep deletedPaths
    have hkept := forall₂_foldl_erase h.rows deletedPaths
    rw [← hdrows] at hkept
    obtain ⟨hstep, hrows, hedges⟩ := foldlM_upsertItem_spec
      ((upserts.map Item.path).foldl (fun ps p => Table.put id p ps)
        ((deletedPaths.foldl (fun l p => Table.erase Entry.path p l) l).map Entry.path))
      hdstep hkept hups
    refine represents_insertEdges h.keyed hstep hrows fun e => ?_
    rw [hedges, hdedges, h.edges]
    constructor
    · rintro ⟨⟨⟨⟨x, hx, he⟩, hdel⟩, hups⟩, -⟩
      rw [source_of_mem_itemEdges he] at hdel hups
      exact ⟨x, hx, he, hdel, hups⟩
    · rintro ⟨x, hx, he, hdel, hups⟩
      rw [source_of_mem_itemEdges he]
      exact ⟨⟨⟨⟨x, hx, he⟩, hdel⟩, hups⟩, hups⟩

/-- A ledger and the database it stands for, if there is one yet. -/
def RepresentsDest (l : Ledger) : Option Db → Prop
  | none => l = []
  | some db => Represents l db

/-- **Every successful call takes the database to the ledger after it.** -/
theorem RepresentsDest.run {l : Ledger} {dest : Option Db} (h : RepresentsDest l dest) {c : Call}
    {db : Db} (hok : c.run dest = .ok db) : Represents (l.apply c) db := by
  cases c with
  | build today items => exact represents_buildIndex hok
  | update today upserts deletedPaths =>
    cases dest with
    | none =>
      obtain rfl : l = [] := h
      have hempty : Ledger.update [] today upserts deletedPaths =
          Ledger.update [] today upserts [] := by
        have herase : deletedPaths.foldl (fun l p => Table.erase Entry.path p l) [] = [] :=
          List.eq_nil_iff_forall_not_mem.2 fun x hx => by
            rw [Table.mem_foldl_erase] at hx
            exact absurd hx.1 List.not_mem_nil
        rw [Ledger.update, Ledger.update, herase]
        rfl
      rw [Ledger.apply, hempty]
      exact represents_buildIndex hok
    | some db₀ => exact Represents.updateIndex h hok

/-! ### Sequences of calls -/

/-- The database and the ledger after a call; a call that fails leaves both. -/
def callStep (s : Option Db × Ledger) (c : Call) : Option Db × Ledger :=
  match c.run s.1 with
  | .ok db => (some db, s.2.apply c)
  | .error _ => s

/-- The database and the ledger after a sequence of calls, from no database. -/
def runCalls (calls : List Call) : Option Db × Ledger := calls.foldl callStep (none, [])

theorem representsDest_foldl {s : Option Db × Ledger} (h : RepresentsDest s.2 s.1)
    (calls : List Call) :
    RepresentsDest (calls.foldl callStep s).2 (calls.foldl callStep s).1 := by
  induction calls generalizing s with
  | nil => exact h
  | cons c calls ih =>
    refine ih ?_
    rw [callStep]
    cases hc : c.run s.1 with
    | error e => exact h
    | ok db => exact h.run hc

/-- **The database after any sequence of calls is that of its ledger.** -/
theorem represents_runCalls {calls : List Call} {db : Db} (h : (runCalls calls).1 = some db) :
    Represents (runCalls calls).2 db := by
  have hrep := representsDest_foldl (s := (none, [])) rfl calls
  rw [← runCalls, h] at hrep
  exact hrep

end Index

end Wkp
