import Wkp.Core.Ledger
import Wkp.Lib.Walk

/-!
# Traversal

* `Index.Linked` : an edge leads from one path to another.
* `Index.minDepth_eq_some_iff` : the depth that the query groups by is the distance.
* `Index.traverse_breadth_first` : **a traversal returns the items by their distance.**
-/

namespace Wkp

open Rust

namespace Index

/-! ### The query -/

/-- There is an edge from `source` to `target`. -/
def Linked (edges : List Edge) (source target : Str) : Prop :=
  ∃ e ∈ edges, e.source = source ∧ e.target = target

theorem mem_reachable {edges : List Edge} {start path : Str} {d : ℕ} :
    path ∈ reachable edges start d ↔ Walk.Of (Linked edges) start d path := by
  induction d generalizing path with
  | zero => rw [reachable, List.mem_singleton]; rfl
  | succ d ih =>
    simp only [reachable, List.mem_flatMap, List.mem_map, List.mem_filter, decide_eq_true_iff,
      Walk.Of, ih, Linked, and_assoc]

theorem minDepth_isSome_iff {edges : List Edge} {start path : Str} {n : ℕ} :
    (minDepth edges start n path).isSome ↔ Walk.Within (Linked edges) start n path := by
  rw [minDepth, List.find?_isSome]
  simp only [List.mem_range, decide_eq_true_iff, mem_reachable, Walk.Within, Nat.lt_succ_iff]

theorem minDepth_eq_some_iff {edges : List Edge} {start path : Str} {n d : ℕ} :
    minDepth edges start n path = some d ↔ d ≤ n ∧ Walk.Dist (Linked edges) start d path := by
  rw [minDepth, List.find?_range_eq_some, Walk.Dist]
  simp only [decide_eq_true_iff, List.mem_range, Nat.lt_succ_iff, mem_reachable,
    Bool.not_eq_true', decide_eq_false_iff_not]
  tauto

/-- Two edge sets that reach a path within the same lengths reach it at the same depth. -/
theorem minDepth_congr {edges edges' : List Edge} {start path : Str}
    (h : ∀ n, Walk.Within (Linked edges) start n path ↔
      Walk.Within (Linked edges') start n path) (n : ℕ) :
    minDepth edges start n path = minDepth edges' start n path := by
  ext d
  simp only [minDepth_eq_some_iff, Walk.dist_iff_within, h]

theorem hitLe_iff {a b : SearchHit} : hitLe a b = true ↔ a.hopDistance < b.hopDistance ∨
    (a.hopDistance = b.hopDistance ∧ (a.tier < b.tier ∨ (a.tier = b.tier ∧ a.path ≤ b.path))) :=
  decide_eq_true_iff

/-- The order of the hits is total and determines their distance, tier and path. -/
theorem pairwise_traverse (db : Db) (start : Str) (n : ℕ) :
    (traverse db start n).Pairwise fun a b => hitLe a b = true := by
  refine List.pairwise_mergeSort (fun a b c => ?_) (fun a b => ?_) _
  · rw [hitLe_iff, hitLe_iff, hitLe_iff]
    rintro (h | ⟨h, h' | ⟨h', hp⟩⟩) (g | ⟨g, g' | ⟨g', gp⟩⟩)
    all_goals first
      | exact .inl (by omega)
      | exact .inr ⟨by omega, .inl (by omega)⟩
      | exact .inr ⟨by omega, .inr ⟨by omega, hp.trans gp⟩⟩
  · rw [Bool.or_eq_true, hitLe_iff, hitLe_iff]
    rcases le_total a.path b.path with hp | hp <;> grind

theorem mem_traverse {db : Db} {start : Str} {n : ℕ} {hit : SearchHit} :
    hit ∈ traverse db start n ↔ ∃ row ∈ db.items.map Prod.snd, row.path ≠ start ∧
      rowHit db start n row = some hit := by
  simp only [traverse, List.mem_mergeSort, List.mem_filterMap, List.mem_filter,
    decide_eq_true_iff, and_assoc]

theorem path_of_rowHit {db : Db} {start : Str} {n : ℕ} {row : Row} {hit : SearchHit}
    (h : rowHit db start n row = some hit) : hit.path = row.path := by
  rw [rowHit] at h
  obtain ⟨d, -, rfl⟩ := Option.map_eq_some_iff.1 h
  rfl

theorem mem_map_path_traverse {db : Db} {start path : Str} {n : ℕ} :
    path ∈ (traverse db start n).map SearchHit.path ↔
      path ∈ (db.items.map Prod.snd).map Row.path ∧ path ≠ start ∧
        Walk.Within (Linked db.edges) start n path := by
  rw [← minDepth_isSome_iff, List.mem_map]
  constructor
  · rintro ⟨hit, hhit, rfl⟩
    obtain ⟨row, hrow, hne, hsome⟩ := mem_traverse.1 hhit
    rw [path_of_rowHit hsome]
    refine ⟨List.mem_map_of_mem hrow, hne, ?_⟩
    rw [rowHit] at hsome
    obtain ⟨d, hd, -⟩ := Option.map_eq_some_iff.1 hsome
    rw [hd]
    rfl
  · rintro ⟨hpath, hne, hsome⟩
    obtain ⟨row, hrow, rfl⟩ := List.mem_map.1 hpath
    obtain ⟨d, hd⟩ := Option.isSome_iff_exists.1 hsome
    have hhit : rowHit db start n row =
        some ⟨row.path, row.title, 1 / (1 + d), row.tier, row.tokensEstimate, d⟩ := by
      rw [rowHit, hd]
      rfl
    exact ⟨_, mem_traverse.2 ⟨row, hrow, hne, hhit⟩, rfl⟩

/-- Two databases with the same rows, one a path, that reach every row within the same lengths
traverse alike. -/
theorem traverse_congr {db full : Db} {start : Str} {n : ℕ}
    (hrows : (db.items.map Prod.snd).Perm (full.items.map Prod.snd))
    (hkeyed : Table.Keyed Row.path (db.items.map Prod.snd))
    (hwithin : ∀ row ∈ db.items.map Prod.snd, ∀ n,
      Walk.Within (Linked db.edges) start n row.path ↔
        Walk.Within (Linked full.edges) start n row.path) :
    traverse db start n = traverse full start n := by
  have hhit : ∀ row ∈ db.items.map Prod.snd, rowHit db start n row = rowHit full start n row :=
    fun row hrow => by rw [rowHit, rowHit, minDepth_congr (hwithin row hrow)]
  have hperm : (traverse db start n).Perm (traverse full start n) := by
    refine (List.mergeSort_perm _ _).trans (List.Perm.trans ?_ (List.mergeSort_perm _ _).symm)
    refine List.Perm.trans ?_ ((hrows.filter _).filterMap _)
    rw [List.filterMap_congr fun row hrow => hhit row (List.mem_filter.1 hrow).1]
  refine hperm.eq_of_pairwise (fun a b ha hb hab hba => ?_) (pairwise_traverse db start n)
    (pairwise_traverse full start n)
  obtain ⟨row, hrow, -, ha⟩ := mem_traverse.1 ha
  obtain ⟨row', hrow', -, hb⟩ := mem_traverse.1 hb
  have hpath : a.path = b.path := by
    rw [hitLe_iff] at hab hba
    rcases hab with h | ⟨h, h' | ⟨h', hp⟩⟩ <;> rcases hba with g | ⟨g, g' | ⟨g', gp⟩⟩ <;>
      first | omega | exact le_antisymm hp gp
  have heq : row = row' := hkeyed.eq_of_key_eq hrow (hrows.mem_iff.2 hrow')
    (by rw [← path_of_rowHit ha, ← path_of_rowHit hb, hpath])
  subst heq
  rw [hhit row hrow] at ha
  exact Option.some.inj (ha.symm.trans hb)

/-! ### Breadth first -/

theorem rowHit_eq_some_iff {db : Db} {start : Str} {n : ℕ} {row : Row} {hit : SearchHit} :
    rowHit db start n row = some hit ↔ ∃ d ≤ n, Walk.Dist (Linked db.edges) start d row.path ∧
      hit = ⟨row.path, row.title, 1 / (1 + d), row.tier, row.tokensEstimate, d⟩ := by
  rw [rowHit, Option.map_eq_some_iff]
  refine exists_congr fun d => ?_
  rw [minDepth_eq_some_iff, and_assoc]
  exact and_congr_right fun _ => and_congr_right fun _ => eq_comm

theorem nodup_traverse {db : Db} (h : InStep db) (start : Str) (n : ℕ) :
    ((traverse db start n).map SearchHit.path).Nodup := by
  refine (((List.mergeSort_perm _ _).map SearchHit.path).nodup_iff).2 ?_
  have hsub : ∀ rows : List Row, ((rows.filterMap (rowHit db start n)).map SearchHit.path).Sublist
      (rows.map Row.path) := by
    intro rows
    induction rows with
    | nil => exact List.Sublist.refl _
    | cons row rows ih =>
      rw [List.filterMap_cons]
      cases hhit : rowHit db start n row with
      | none => exact ih.cons _
      | some hit =>
        rw [List.map_cons, List.map_cons, path_of_rowHit hhit]
        exact ih.cons_cons _
  exact h.keyed.sublist ((hsub _).trans (List.filter_sublist.map _))

/-- **A traversal is breadth-first reachability.**  Its hits are the items other than the start
whose distance from the start is between one and the limit, each once and with its distance, the
nearer before the further and then by tier. -/
theorem traverse_breadth_first {db : Db} (h : InStep db) (start : Str) (limit : ℕ) :
    (∀ hit : SearchHit, hit ∈ traverse db start limit ↔ ∃ row ∈ db.items.map Prod.snd,
      row.path ≠ start ∧ ∃ d, 1 ≤ d ∧ d ≤ limit ∧ Walk.Dist (Linked db.edges) start d row.path ∧
        hit = ⟨row.path, row.title, 1 / (1 + d), row.tier, row.tokensEstimate, d⟩) ∧
    ((traverse db start limit).map SearchHit.path).Nodup ∧
    (traverse db start limit).Pairwise fun a b => a.hopDistance < b.hopDistance ∨
      (a.hopDistance = b.hopDistance ∧ a.tier ≤ b.tier) := by
  refine ⟨fun hit => ?_, nodup_traverse h start limit, ?_⟩
  · simp only [mem_traverse, rowHit_eq_some_iff]
    refine exists_congr fun row => and_congr_right fun _ => and_congr_right fun hne => ?_
    refine exists_congr fun d => ⟨?_, And.right⟩
    rintro ⟨hd, hdist, hhit⟩
    exact ⟨hdist.pos hne, hd, hdist, hhit⟩
  · refine (pairwise_traverse db start limit).imp fun hab => ?_
    rw [hitLe_iff] at hab
    rcases hab with hlt | ⟨heq, hlt | ⟨htier, -⟩⟩
    · exact .inl hlt
    · exact .inr ⟨heq, hlt.le⟩
    · exact .inr ⟨heq, htier.le⟩

/-- Two items that mention each other, one of them itself as well. -/
def exampleLoop : List Item :=
  [{ path := "a.md".toList, frontmatter := {}, body := "[[a]] [[b]]".toList, humanSigned := false },
    { path := "b.md".toList, frontmatter := {}, body := "[[a]]".toList, humanSigned := false }]

theorem traverse_breadth_first_exampleLoop : ∃ db, buildIndex 0 exampleLoop = .ok db ∧
    ((traverse db "a.md".toList 3).map SearchHit.path).Nodup := by
  obtain ⟨db, hdb⟩ : ∃ db, buildIndex 0 exampleLoop = .ok db := ⟨_, rfl⟩
  exact ⟨db, hdb, (traverse_breadth_first (represents_buildIndex hdb).inStep "a.md".toList 3).2.1⟩

end Index

end Wkp
