import Wkp.Core.Rebuild

/-!
# Batches of changes

* `Index.tables_in_step` : **after any calls the three tables agree row by row, no path occurs
  twice, and every edge starts at an indexed path.**
* `Index.upsertItem_eq` : replacing the rows of one item fails only where its tier does.
* `Index.branchesAgree_iff` : **when a batch does the same to a missing index as to an empty one.**
-/

namespace Wkp

open Rust

namespace Index

/-! ### The tables in step -/

/-- **The tables stay in step.**  Whatever was built and updated, from no index or an empty one, the
rows of the three tables correspond, no path occurs twice, and every edge has an indexed source. -/
theorem tables_in_step {start : Option Db} (hstart : start = none ∨ start = some createSchema)
    {calls : List Call} {db : Db} (h : (calls.foldl callStep (start, [])).1 = some db) :
    InStep db ∧ (knownPaths db).Nodup ∧ ∀ e ∈ db.edges, e.source ∈ knownPaths db := by
  have hempty : RepresentsDest [] start := by
    rcases hstart with rfl | rfl
    · rfl
    · exact represents_createSchema
  have hrep := representsDest_foldl (s := (start, [])) hempty calls
  rw [h] at hrep
  have hpaths := Represents.knownPaths hrep
  refine ⟨hrep.inStep, ?_, fun e he => ?_⟩
  · rw [hpaths]
    exact hrep.keyed
  · obtain ⟨x, hx, hedge⟩ := (hrep.edges e).1 he
    rw [hpaths, source_of_mem_itemEdges hedge]
    exact List.mem_map_of_mem hx

/-- A batch that writes one path twice and deletes an unknown one. -/
def exampleCalls : List Call :=
  [.build 0 [exampleLinked], .update 0 [exampleLinking, exampleLinking] ["c.md".toList]]

theorem tables_in_step_exampleCalls :
    ∃ db, (exampleCalls.foldl callStep (none, [])).1 = some db ∧ (knownPaths db).Nodup := by
  obtain ⟨db, hdb⟩ : ∃ db, (exampleCalls.foldl callStep (none, [])).1 = some db := ⟨_, rfl⟩
  exact ⟨db, hdb, (tables_in_step (.inl rfl) hdb).2.1⟩

/-! ### A missing and an empty index -/

theorem upsertItem_eq {today : ℕ} {db : Db} {item : Item} (h : InStep db) :
    (itemRow today item = none ∧ upsertItem today db item = .error .panic) ∨
      ∃ row db', itemRow today item = some row ∧ upsertItem today db item = .ok db' ∧
        InStep db' := by
  obtain ⟨hstep, hitems, -⟩ := deleteItem_spec h item.path
  cases hrow : itemRow today item with
  | none => exact .inl ⟨rfl, by rw [upsertItem, insertItem, hrow]⟩
  | some row =>
    have hnew : item.path ∉ ((deleteItem db item.path).items.map Prod.snd).map Row.path := by
      rw [hitems]
      intro hm
      obtain ⟨r, hr, hpath⟩ := List.mem_map.1 hm
      exact (Table.mem_erase.1 hr).2 hpath
    obtain ⟨db', hok⟩ := insertItem_ok hstep hrow hnew
    obtain ⟨-, -, hstep', -⟩ := insertItem_spec hstep hok
    exact .inr ⟨row, db', rfl, hok, hstep'⟩

/-- The upserts of a batch never violate a key. -/
theorem foldlM_upsertItem_ne_sqlite {today : ℕ} {upserts : List Item} {db : Db} (h : InStep db)
    (p : Str) : upserts.foldlM (upsertItem today) db ≠ .error (.sqlite p) := by
  induction upserts generalizing db with
  | nil => rintro ⟨⟩
  | cons item upserts ih =>
    rw [List.foldlM_cons]
    rcases @upsertItem_eq today db item h with
      ⟨-, hpanic⟩ | ⟨row, db', -, hok, hstep⟩
    · rw [hpanic]
      rintro ⟨⟩
    · rw [hok]
      exact ih hstep

theorem of_foldlM_insertItem {today : ℕ} {items : List Item} {db db' : Db} (h : InStep db)
    (hok : items.foldlM (insertItem today) db = .ok db') :
    (∀ item ∈ items, (itemRow today item).isSome) ∧
      ((db.items.map Prod.snd).map Row.path ++ items.map Item.path).Nodup := by
  induction items generalizing db with
  | nil =>
    refine ⟨by simp, ?_⟩
    rw [List.map_nil, List.append_nil]
    exact h.keyed
  | cons item items ih =>
    rw [List.foldlM_cons] at hok
    cases hitem : insertItem today db item with
    | error e => rw [hitem] at hok; cases hok
    | ok db₁ =>
      rw [hitem] at hok
      obtain ⟨row, hrow, hstep, -, -, hitems⟩ := insertItem_spec h hitem
      obtain ⟨hrows, hnodup⟩ := ih hstep hok
      refine ⟨fun x hx => ?_, ?_⟩
      · rcases List.mem_cons.1 hx with rfl | hx
        · rw [hrow]
          rfl
        · exact hrows x hx
      · rw [hitems, List.map_append, List.map_singleton, path_of_itemRow hrow,
          List.append_assoc] at hnodup
        exact hnodup

/-- On an index without edges a new path is replaced by inserting it. -/
theorem foldlM_upsertItem_eq {today : ℕ} {items : List Item} {db : Db} (h : InStep db)
    (hedges : db.edges = [])
    (hnodup : ((db.items.map Prod.snd).map Row.path ++ items.map Item.path).Nodup) :
    items.foldlM (upsertItem today) db = items.foldlM (insertItem today) db := by
  induction items generalizing db with
  | nil => rfl
  | cons item items ih =>
    have hnew : item.path ∉ db.paths.map Prod.snd := by
      rw [h.map_path]
      intro hm
      exact (List.nodup_append.1 hnodup).2.2 _ hm _ (by simp) rfl
    have hfind : db.paths.find? (·.2 = item.path) = none := by
      rw [List.find?_eq_none]
      intro r hr hpath
      exact hnew (List.mem_map.2 ⟨r, hr, of_decide_eq_true hpath⟩)
    have hdelete : deleteItem db item.path = db := by
      rw [deleteItem, hfind, deleteEdgesFrom]
      simp only [hedges, List.filter_nil]
      rw [← hedges]
    rw [List.foldlM_cons, List.foldlM_cons, upsertItem, hdelete]
    cases hitem : insertItem today db item with
    | error e => rfl
    | ok db₁ =>
      obtain ⟨row, hrow, hstep, hedges₁, -, hitems⟩ := insertItem_spec h hitem
      refine ih hstep (hedges₁.trans hedges) ?_
      rw [hitems, List.map_append, List.map_singleton, path_of_itemRow hrow, List.append_assoc]
      exact hnodup

theorem foldl_deleteItem_createSchema (deletedPaths : List Str) :
    deletedPaths.foldl deleteItem createSchema = createSchema := by
  induction deletedPaths with
  | nil => rfl
  | cons p deletedPaths ih => exact ih

/-- A batch does the same to a missing index as to an empty one: both calls succeed with the same
rows and edges, or both return an error. -/
def BranchesAgree (today : ℕ) (upserts : List Item) (deletedPaths : List Str) : Prop :=
  (∃ db db', updateIndex today none upserts deletedPaths = .ok db ∧
    updateIndex today (some createSchema) upserts deletedPaths = .ok db' ∧
    db.items.map Prod.snd = db'.items.map Prod.snd ∧ ∀ e, e ∈ db.edges ↔ e ∈ db'.edges) ∨
  ∃ p p', updateIndex today none upserts deletedPaths = .error (.sqlite p) ∧
    updateIndex today (some createSchema) upserts deletedPaths = .error (.sqlite p')

/-- **When a batch does the same to a missing index as to an empty one**: when it writes no path
twice, and no tier of its items panics. -/
theorem branchesAgree_iff (today : ℕ) (upserts : List Item) (deletedPaths : List Str) :
    BranchesAgree today upserts deletedPaths ↔ (upserts.map Item.path).Nodup ∧
      ∀ item ∈ upserts,
        (Tier.computeTier today item.path item.frontmatter item.humanSigned).isSome := by
  have hrow : ∀ item, (itemRow today item).isSome =
      (Tier.computeTier today item.path item.frontmatter item.humanSigned).isSome := by
    intro item
    rw [itemRow, Option.isSome_map]
  -- on an empty index there is nothing to delete, and no edge to take away
  have hexisting : updateIndex today (some createSchema) upserts deletedPaths =
      (do
        let db ← upserts.foldlM (upsertItem today) createSchema
        return upserts.foldl insertEdgesForItem db) := by
    rw [updateIndex, foldl_deleteItem_createSchema]
  simp only [← hrow]
  rw [BranchesAgree, hexisting]
  constructor
  · rintro (⟨db, db', hmissing, -⟩ | ⟨p, p', -, herror⟩)
    · rw [updateIndex, buildIndex, populate] at hmissing
      cases hins : upserts.foldlM (insertItem today) createSchema with
      | error e => rw [hins] at hmissing; cases hmissing
      | ok db₁ =>
        obtain ⟨hrows, hnodup⟩ := of_foldlM_insertItem inStep_createSchema hins
        exact ⟨hnodup, hrows⟩
    · cases hups : upserts.foldlM (upsertItem today) createSchema with
      | ok db₁ => rw [hups] at herror; cases herror
      | error e =>
        rw [hups] at herror
        cases herror
        exact absurd hups (foldlM_upsertItem_ne_sqlite inStep_createSchema p')
  · rintro ⟨hnodup, hrows⟩
    obtain ⟨db, hdb⟩ := buildIndex_ok today
      (fun item hitem => Option.isSome_iff_exists.1 (hrows item hitem)) hnodup
    refine .inl ⟨db, db, hdb, ?_, rfl, fun _ => Iff.rfl⟩
    rw [foldlM_upsertItem_eq inStep_createSchema rfl hnodup]
    exact hdb

/-- A repeated path is the last write on an empty index, and an error on a missing one. -/
theorem update_missing_repeated : ¬ ∀ (today : ℕ) (upserts : List Item) (deletedPaths : List Str),
    BranchesAgree today upserts deletedPaths := by
  intro h
  rcases h 0 [exampleLinked, exampleLinked] [] with ⟨db, db', hmissing, -⟩ | ⟨p, p', -, herror⟩
  · rw [show updateIndex 0 none [exampleLinked, exampleLinked] [] =
      .error (.sqlite exampleLinked.path) from rfl] at hmissing
    cases hmissing
  · obtain ⟨db, hok⟩ : ∃ db,
        updateIndex 0 (some createSchema) [exampleLinked, exampleLinked] [] = .ok db := ⟨_, rfl⟩
    rw [hok] at herror
    cases herror

end Index

end Wkp
