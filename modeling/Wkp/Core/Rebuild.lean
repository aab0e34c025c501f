import Wkp.Core.Traversed

/-!
# Incremental indexing and rebuilding

* `Index.incremental` : a build, then a sequence of batches.
* `Index.Represents.rebuild_rows` : its rows are those of a rebuild from the resulting items.
* `Index.incremental_iff` : when it also traverses like the rebuild.  Every item keeps the edges
  it had when it was last written; they must lead to the items that they would lead to now.
-/

namespace Wkp

open Rust

namespace Index

/-- A batch of upserts and deletions. -/
abbrev Batch := List Item × List Str

/-- A build followed by a sequence of batches, all on one day. -/
def incremental (today : ℕ) (init : List Item) (batches : List Batch) : Except Failure Db := do
  let db ← buildIndex today init
  batches.foldlM (fun db b => updateIndex today (some db) b.1 b.2) db

/-- The items after a batch. -/
def applyBatch (items : List Item) (b : Batch) : List Item :=
  b.1.foldl (fun l item => Table.put Item.path item l)
    (b.2.foldl (fun l p => Table.erase Item.path p l) items)

/-- The items after a build and a sequence of batches. -/
def resultItems (init : List Item) (batches : List Batch) : List Item :=
  batches.foldl applyBatch (applyBatch [] (init, []))

/-- The same with the day and the paths of every write. -/
def resultLedger (today : ℕ) (init : List Item) (batches : List Batch) : Ledger :=
  batches.foldl (fun l b => l.update today b.1 b.2) (Ledger.update [] today init [])

theorem Ledger.map_item_update (l : Ledger) (today : ℕ) (b : Batch) :
    (l.update today b.1 b.2).map Entry.item = applyBatch (l.map Entry.item) b := by
  rw [Ledger.update, Table.map_foldl_put (f := Entry.path) (g := Item.path) Entry.item
    fun _ => rfl, Table.map_foldl_erase (f := Entry.path) (g := Item.path) Entry.item fun _ => rfl,
    List.map_map, applyBatch]
  congr 1
  exact List.map_id _

theorem map_item_resultLedger (today : ℕ) (init : List Item) (batches : List Batch) :
    (resultLedger today init batches).map Entry.item = resultItems init batches := by
  have key : ∀ (l : Ledger), (batches.foldl (fun l b => l.update today b.1 b.2) l).map
      Entry.item = batches.foldl applyBatch (l.map Entry.item) := by
    induction batches with
    | nil => exact fun l => rfl
    | cons b batches ih =>
      intro l
      rw [List.foldl_cons, ih, l.map_item_update, List.foldl_cons]
  rw [resultLedger, key, Ledger.map_item_update [] today (init, []), resultItems]
  rfl

theorem represents_incremental {today : ℕ} {init : List Item} {batches : List Batch} {db : Db}
    (h : incremental today init batches = .ok db) :
    Represents (resultLedger today init batches) db := by
  rw [incremental] at h
  cases hb : buildIndex today init with
  | error e => rw [hb] at h; cases h
  | ok db₀ =>
    rw [hb] at h
    have key : ∀ (l : Ledger) (db₀ : Db), Represents l db₀ →
        batches.foldlM (fun db b => updateIndex today (some db) b.1 b.2) db₀ = .ok db →
        Represents (batches.foldl (fun l b => l.update today b.1 b.2) l) db := by
      clear h hb
      induction batches with
      | nil =>
        intro l db₀ hrep hok
        obtain rfl : db₀ = db := by simpa [pure, Except.pure] using hok
        exact hrep
      | cons b batches ih =>
        intro l db₀ hrep hok
        rw [List.foldlM_cons] at hok
        cases hu : updateIndex today (some db₀) b.1 b.2 with
        | error e => rw [hu] at hok; cases hok
        | ok db₁ =>
          rw [hu] at hok
          exact ih _ db₁ (hrep.updateIndex hu) hok
    exact key _ db₀ (represents_buildIndex hb) h

theorem day_of_mem_resultLedger {today : ℕ} {init : List Item} {batches : List Batch} {e : Entry}
    (h : e ∈ resultLedger today init batches) : e.day = today := by
  have key : ∀ l : Ledger, (∀ x ∈ l, x.day = today) →
      ∀ x ∈ batches.foldl (fun l b => l.update today b.1 b.2) l, x.day = today := by
    clear h
    induction batches with
    | nil => exact fun l hl => hl
    | cons b batches ih =>
      intro l hl
      refine ih (l.update today b.1 b.2) fun x hx => ?_
      rcases Ledger.mem_update.1 hx with ⟨hx, -⟩ | ⟨item, -, rfl⟩
      · exact hl x hx
      · rfl
  refine key _ (fun x hx => ?_) e h
  rcases Ledger.mem_update.1 hx with ⟨hx, -⟩ | ⟨item, -, rfl⟩
  · cases hx
  · rfl

/-! ### A rebuild succeeds -/

theorem insertItem_ok {today : ℕ} {db : Db} {item : Item} {row : Row} (h : InStep db)
    (hrow : itemRow today item = some row)
    (hnew : item.path ∉ (db.items.map Prod.snd).map Row.path) :
    ∃ db', insertItem today db item = .ok db' := by
  have hfst : db.paths.map Prod.fst = db.items.map Prod.fst := by
    rw [h.paths, List.map_map]
    rfl
  have hid : nextRowid db.paths ∉ db.items.map Prod.fst := by
    rw [← hfst]
    exact fun hm => lt_irrefl _ (rowid_lt_nextRowid hm)
  have hid' : nextRowid db.paths ∉ db.itemsTrigram.map Prod.fst := by
    rw [h.itemsTrigram, List.map_map]
    exact hid
  rw [insertItem, hrow]
  dsimp only
  rw [if_neg (by rwa [h.map_path]), if_neg (by simp only [hid, hid', or_self, not_false_eq_true])]
  exact ⟨_, rfl⟩

theorem foldlM_insertItem_ok {today : ℕ} {items : List Item} {db : Db} (h : InStep db)
    (hrows : ∀ item ∈ items, ∃ row, itemRow today item = some row)
    (hnodup : ((db.items.map Prod.snd).map Row.path ++ items.map Item.path).Nodup) :
    ∃ db', items.foldlM (insertItem today) db = .ok db' := by
  induction items generalizing db with
  | nil => exact ⟨db, rfl⟩
  | cons item items ih =>
    obtain ⟨row, hrow⟩ := hrows item List.mem_cons_self
    have hnew : item.path ∉ (db.items.map Prod.snd).map Row.path := by
      intro hm
      exact (List.nodup_append.1 hnodup).2.2 _ hm _ (by simp) rfl
    obtain ⟨db₁, h₁⟩ := insertItem_ok h hrow hnew
    obtain ⟨row', hrow', hstep₁, -, -, hitems₁⟩ := insertItem_spec h h₁
    have hnodup₁ : ((db₁.items.map Prod.snd).map Row.path ++ items.map Item.path).Nodup := by
      rw [hitems₁, List.map_append, List.map_singleton, path_of_itemRow hrow', List.append_assoc]
      exact hnodup
    obtain ⟨db', h'⟩ := ih hstep₁ (fun x hx => hrows x (List.mem_cons_of_mem _ hx)) hnodup₁
    refine ⟨db', ?_⟩
    rw [List.foldlM_cons, h₁]
    exact h'

theorem buildIndex_ok (today : ℕ) {items : List Item}
    (hrows : ∀ item ∈ items, ∃ row, itemRow today item = some row)
    (hnodup : (items.map Item.path).Nodup) : ∃ db, buildIndex today items = .ok db := by
  obtain ⟨db', h'⟩ := foldlM_insertItem_ok inStep_createSchema hrows hnodup
  exact ⟨items.foldl insertEdgesForItem db', by rw [buildIndex, populate, h']; rfl⟩

/-! ### The rebuild -/

/-- An item refers to a path, its wikilinks resolved among `paths`. -/
def LinksTo (paths : List Str) (item : Item) (target : Str) : Prop :=
  ∃ e ∈ itemEdges paths item, e.target = target

/-- Every item still refers to the items that it referred to when it was last written, itself
aside. -/
def EdgesFresh (l : Ledger) : Prop :=
  ∀ x ∈ l, ∀ target ∈ l.map Entry.path, target ≠ x.path →
    (LinksTo x.paths x.item target ↔ LinksTo (l.map Entry.path) x.item target)

theorem Represents.linked_iff {l : Ledger} {db : Db} (h : Represents l db) {source target : Str} :
    Linked db.edges source target ↔
      ∃ x ∈ l, x.path = source ∧ LinksTo x.paths x.item target := by
  constructor
  · rintro ⟨e, he, rfl, rfl⟩
    obtain ⟨x, hx, hmem⟩ := (h.edges e).1 he
    exact ⟨x, hx, (source_of_mem_itemEdges hmem).symm, e, hmem, rfl⟩
  · rintro ⟨x, hx, rfl, e, hmem, rfl⟩
    exact ⟨e, (h.edges e).2 ⟨x, hx, hmem⟩, source_of_mem_itemEdges hmem, rfl⟩

theorem Represents.linked_entry_iff {l : Ledger} {db : Db} (h : Represents l db) {x : Entry}
    (hx : x ∈ l) {target : Str} :
    Linked db.edges x.path target ↔ LinksTo x.paths x.item target := by
  rw [h.linked_iff]
  constructor
  · rintro ⟨y, hy, hpath, hlink⟩
    rwa [← h.keyed.eq_of_key_eq hy hx hpath]
  · exact fun hlink => ⟨x, hx, rfl, hlink⟩

theorem Represents.rows_eq {l : Ledger} {db : Db} (h : Represents l db) (today : ℕ)
    (hday : ∀ x ∈ l, x.day = today) :
    db.items.map Prod.snd = (l.map Entry.item).filterMap (itemRow today) := by
  have hrows := h.rows
  generalize db.items.map Prod.snd = rows at hrows
  clear h
  induction hrows with
  | nil => rfl
  | @cons x row l rows hxr _ ih =>
    have hrow : itemRow today x.item = some row := hday x List.mem_cons_self ▸ hxr
    rw [List.map_cons, List.filterMap_cons, hrow,
      ih fun y hy => hday y (List.mem_cons_of_mem _ hy)]

theorem resolveWikilink_perm {paths paths' : List Str} (h : paths.Perm paths') (name : Str) :
    resolveWikilink paths name = resolveWikilink paths' name := by
  rw [resolveWikilink, resolveWikilink]
  ext target
  rw [List.min?_eq_some_iff, List.min?_eq_some_iff]
  simp only [List.mem_filter, h.mem_iff]

theorem linksTo_perm {paths paths' : List Str} (h : paths.Perm paths') (item : Item)
    (target : Str) : LinksTo paths item target ↔ LinksTo paths' item target := by
  rw [LinksTo, LinksTo, itemEdges, itemEdges]
  simp only [resolveWikilink_perm h]

/-- A build from distinct items writes each of them, among the paths of all. -/
theorem update_nil_of_nodup {today : ℕ} {items : List Item} (h : (items.map Item.path).Nodup) :
    Ledger.update [] today items [] =
      items.map fun item => ⟨item, today, items.map Item.path⟩ := by
  have hpaths : (items.map Item.path).foldl (fun ps p => Table.put id p ps) [] =
      items.map Item.path := by
    rw [Table.foldl_put_of_nodup (by simpa using h), List.nil_append]
  rw [Ledger.update]
  simp only [List.foldl_nil, List.map_nil, hpaths]
  rw [Table.foldl_put_of_nodup, List.nil_append]
  rw [List.nil_append, List.map_map]
  exact h

section

variable {today : ℕ} {l : Ledger} {db full : Db} {items : List Item}

theorem perm_map_path (hitems : items.Perm (l.map Entry.item)) :
    (items.map Item.path).Perm (l.map Entry.path) := by
  have hpaths := hitems.map Item.path
  rwa [List.map_map] at hpaths

/-- The items of a ledger written on one day can be written again, all at once. -/
theorem Represents.exists_rebuild (h : Represents l db) (hday : ∀ x ∈ l, x.day = today)
    (hitems : items.Perm (l.map Entry.item)) : ∃ full, buildIndex today items = .ok full ∧
      Represents (items.map fun item => ⟨item, today, items.map Item.path⟩) full := by
  have hnodup : (items.map Item.path).Nodup := (perm_map_path hitems).nodup_iff.2 h.keyed
  have hhas : ∀ item ∈ items, ∃ row, itemRow today item = some row := by
    intro item hmem
    obtain ⟨x, hx, rfl⟩ := List.mem_map.1 (hitems.mem_iff.1 hmem)
    obtain ⟨row, -, hrow⟩ := h.row_of_entry hx
    exact ⟨row, hday x hx ▸ hrow⟩
  obtain ⟨full, hfull⟩ := buildIndex_ok today hhas hnodup
  refine ⟨full, hfull, ?_⟩
  rw [← update_nil_of_nodup hnodup]
  exact represents_buildIndex hfull

variable (h : Represents l db) (hitems : items.Perm (l.map Entry.item))
  (hfull : Represents (items.map fun item => ⟨item, today, items.map Item.path⟩) full)

include h hitems hfull

theorem Represents.rebuild_rows (hday : ∀ x ∈ l, x.day = today) :
    (db.items.map Prod.snd).Perm (full.items.map Prod.snd) := by
  rw [h.rows_eq today hday, hfull.rows_eq today (by simp), List.map_map]
  simp only [Function.comp_def, List.map_id']
  exact (hitems.filterMap _).symm

omit h in
theorem linked_rebuild_iff {source target : Str} : Linked full.edges source target ↔
    ∃ x ∈ l, x.path = source ∧ LinksTo (l.map Entry.path) x.item target := by
  have hpaths := perm_map_path hitems
  rw [hfull.linked_iff]
  constructor
  · rintro ⟨y, hy, rfl, hlink⟩
    obtain ⟨item, hmem, rfl⟩ := List.mem_map.1 hy
    obtain ⟨x, hx, rfl⟩ := List.mem_map.1 (hitems.mem_iff.1 hmem)
    exact ⟨x, hx, rfl, (linksTo_perm hpaths _ _).1 hlink⟩
  · rintro ⟨x, hx, rfl, hlink⟩
    exact ⟨_, List.mem_map.2 ⟨x.item, hitems.mem_iff.2 (List.mem_map_of_mem hx), rfl⟩, rfl,
      (linksTo_perm hpaths _ _).2 hlink⟩

theorem Represents.linked_rebuild_entry_iff {x : Entry} (hx : x ∈ l) {target : Str} :
    Linked full.edges x.path target ↔ LinksTo (l.map Entry.path) x.item target := by
  rw [linked_rebuild_iff hitems hfull]
  constructor
  · rintro ⟨y, hy, hyx, hlink⟩
    rwa [← h.keyed.eq_of_key_eq hy hx hyx]
  · exact fun hlink => ⟨x, hx, rfl, hlink⟩

/-- One hop from an item shows which items it refers to. -/
theorem Represents.edgesFresh_of_traverse
    (hrows : (db.items.map Prod.snd).Perm (full.items.map Prod.snd))
    (htrav : ∀ start, traverse db start 1 = traverse full start 1) : EdgesFresh l := by
  intro x hx target htarget hne
  have hlive : (db.items.map Prod.snd).map Row.path = l.map Entry.path := by
    rw [← h.inStep.map_path]
    exact h.knownPaths
  have hmem : target ∈ (traverse db x.path 1).map SearchHit.path ↔
      target ∈ (traverse full x.path 1).map SearchHit.path := by rw [htrav]
  rw [mem_map_path_traverse, mem_map_path_traverse, Walk.within_one_iff hne,
    Walk.within_one_iff hne, ← (hrows.map Row.path).mem_iff, hlive] at hmem
  have hlinked : Linked db.edges x.path target ↔ Linked full.edges x.path target := by
    constructor
    · exact fun hl => (hmem.1 ⟨htarget, hne, hl⟩).2.2
    · exact fun hl => (hmem.2 ⟨htarget, hne, hl⟩).2.2
  rwa [h.linked_entry_iff hx, h.linked_rebuild_entry_iff hitems hfull hx] at hlinked

theorem Represents.traverse_of_edgesFresh
    (hrows : (db.items.map Prod.snd).Perm (full.items.map Prod.snd)) (hfresh : EdgesFresh l)
    (start : Str) (n : ℕ) : traverse db start n = traverse full start n := by
  -- a link starts at an item of the ledger, in the one database and in the other
  have hsource : ∀ {q t}, Linked db.edges q t → q ∈ l.map Entry.path := by
    intro q t hlink
    obtain ⟨x, hx, rfl, -⟩ := h.linked_iff.1 hlink
    exact List.mem_map_of_mem hx
  have hsource' : ∀ {q t}, Linked full.edges q t → q ∈ l.map Entry.path := by
    intro q t hlink
    obtain ⟨x, hx, rfl, -⟩ := (linked_rebuild_iff hitems hfull).1 hlink
    exact List.mem_map_of_mem hx
  have hagree : ∀ q t, q ∈ l.map Entry.path → t ∈ l.map Entry.path → q ≠ t →
      (Linked db.edges q t ↔ Linked full.edges q t) := by
    intro q t hq ht hne
    obtain ⟨x, hx, rfl⟩ := List.mem_map.1 hq
    rw [h.linked_entry_iff hx, h.linked_rebuild_entry_iff hitems hfull hx]
    exact hfresh x hx t ht hne.symm
  refine traverse_congr hrows h.inStep.keyed fun row hrow m => ?_
  have hlive : row.path ∈ l.map Entry.path := by
    rw [← show (db.items.map Prod.snd).map Row.path = l.map Entry.path from
      h.inStep.map_path ▸ h.knownPaths]
    exact List.mem_map_of_mem hrow
  constructor
  · rintro ⟨d, hd, hw⟩
    exact (Walk.within_of_agree (fun _ _ hl => hsource hl)
      (fun q t hq ht hne hl => (hagree q t hq ht hne).1 hl) hlive hw).mono hd
  · rintro ⟨d, hd, hw⟩
    exact (Walk.within_of_agree (fun _ _ hl => hsource' hl)
      (fun q t hq ht hne hl => (hagree q t hq ht hne).2 hl) hlive hw).mono hd

end

/-- **Incremental indexing against a rebuild.**  After a build and any sequence of batches on one
day, a rebuild from the resulting items, in any order, succeeds with the same rows; and it
traverses alike from every start and to every depth exactly when every item still refers to the
items that it referred to when it was last written. -/
theorem incremental_iff {today : ℕ} {init : List Item} {batches : List Batch} {db : Db}
    (h : incremental today init batches = .ok db) {items : List Item}
    (hitems : items.Perm (resultItems init batches)) :
    ∃ full, buildIndex today items = .ok full ∧
      (db.items.map Prod.snd).Perm (full.items.map Prod.snd) ∧
      ((∀ start n, traverse db start n = traverse full start n) ↔
        EdgesFresh (resultLedger today init batches)) := by
  have hrep := represents_incremental h
  have hday : ∀ x ∈ resultLedger today init batches, x.day = today :=
    fun x => day_of_mem_resultLedger
  rw [← map_item_resultLedger today] at hitems
  obtain ⟨full, hbuilt, hfull⟩ := hrep.exists_rebuild hday hitems
  have hrows := hrep.rebuild_rows hitems hfull hday
  refine ⟨full, hbuilt, hrows, fun htrav => ?_, fun hfresh start n => ?_⟩
  · exact hrep.edgesFresh_of_traverse hitems hfull hrows fun start => htrav start 1
  · exact hrep.traverse_of_edgesFresh hitems hfull hrows hfresh start n

/-- An item that mentions `b`. -/
def exampleLinking : Item where
  path := "a.md".toList
  frontmatter := {}
  body := "see [[b]]".toList
  humanSigned := false

/-- The item it mentions. -/
def exampleLinked : Item where
  path := "b.md".toList
  frontmatter := {}
  body := []
  humanSigned := false

/-- The index of `exampleLinking`, with `exampleLinked` added later. -/
def exampleIncremental : Db :=
  ((incremental 0 [exampleLinking] [([exampleLinked], [])]).toOption).getD createSchema

/-- The index of both, built at once. -/
def exampleRebuilt : Db := ((buildIndex 0 [exampleLinking, exampleLinked]).toOption).getD createSchema

theorem incremental_iff_example :
    ∃ full, buildIndex 0 [exampleLinking, exampleLinked] = .ok full ∧
      (exampleIncremental.items.map Prod.snd).Perm (full.items.map Prod.snd) ∧
      ((∀ start n, traverse exampleIncremental start n = traverse full start n) ↔
        EdgesFresh (resultLedger 0 [exampleLinking] [([exampleLinked], [])])) := by
  have hrun : incremental 0 [exampleLinking] [([exampleLinked], [])] = .ok exampleIncremental :=
    rfl
  have hitems : [exampleLinking, exampleLinked].Perm
      (resultItems [exampleLinking] [([exampleLinked], [])]) := .of_eq (by decide +kernel)
  exact incremental_iff hrun hitems

/-- An item added after the item that mentions it is not found from there. -/
theorem incremental_misses_link : ¬ ∀ (today : ℕ) (init : List Item) (batches : List Batch)
    (db full : Db), (init.map Item.path).Nodup →
      (∀ b ∈ batches, (b.1.map Item.path ++ b.2).Nodup) →
      incremental today init batches = .ok db →
      buildIndex today (resultItems init batches) = .ok full →
      (db.items.map Prod.snd).Perm (full.items.map Prod.snd) ∧
        ∀ start n, traverse db start n = traverse full start n := by
  intro h
  have htrav := (h 0 [exampleLinking] [([exampleLinked], [])] exampleIncremental exampleRebuilt
    (by decide) (by decide) rfl rfl).2 "a.md".toList 1
  exact absurd htrav (by decide +kernel)

end Index

end Wkp
