import Wkp.Core.Search
import Wkp.Core.Ledger

/-!
# What context returns of a filter

`context` searches with the filter, and only checks the tier of what it adds around the matches.

* `Index.getElem?_applyBudget` : which hits the budget leaves room for.
* `Index.context_eq` : the result is what fits of the candidates: the matches and their neighbours.
* `Index.context_obeys_iff` : **when the result obeys the filter.**
-/

namespace Wkp

open Rust

namespace Index

/-! ### The budget -/

/-- The budget leaves room for the hit at a position: it is the first, or the tokens up to it are
within the budget. -/
def Room (budget : Option ℕ) (hits : List SearchHit) (k : ℕ) : Prop :=
  k = 0 ∨ ∀ b ∈ budget, ((hits.take (k + 1)).map SearchHit.tokens).sum ≤ b

/-- The hits at the front that are within the budget, when some is spent. -/
def fitting (budget : ℕ) : ℕ → List SearchHit → List SearchHit
  | _, [] => []
  | spent, hit :: hits =>
    if spent + hit.tokens ≤ budget then hit :: fitting budget (spent + hit.tokens) hits else []

theorem applyBudgetLoop_eq {budget spent : ℕ} {hits kept : List SearchHit} (h : kept ≠ []) :
    applyBudgetLoop budget hits spent kept = kept ++ fitting budget spent hits := by
  induction hits generalizing spent kept with
  | nil => rw [applyBudgetLoop, fitting, List.append_nil]
  | cons hit hits ih =>
    rw [applyBudgetLoop, fitting]
    by_cases hfits : spent + hit.tokens ≤ budget
    · rw [if_neg (fun hc => absurd hfits (not_le.2 hc.2)), if_pos hfits, ih (by simp),
        List.append_assoc]
      rfl
    · rw [if_pos ⟨h, not_le.1 hfits⟩, if_neg hfits, List.append_nil]

theorem getElem?_fitting {budget spent k : ℕ} {hits : List SearchHit} {hit : SearchHit} :
    (fitting budget spent hits)[k]? = some hit ↔ hits[k]? = some hit ∧
      spent + ((hits.take (k + 1)).map SearchHit.tokens).sum ≤ budget := by
  induction hits generalizing spent k with
  | nil => simp [fitting]
  | cons first hits ih =>
    rw [fitting]
    by_cases hfits : spent + first.tokens ≤ budget
    · rw [if_pos hfits]
      cases k with
      | zero => simp [hfits]
      | succ k =>
        rw [List.getElem?_cons_succ, List.getElem?_cons_succ, ih, List.take_succ_cons,
          List.map_cons, List.sum_cons, Nat.add_assoc]
    · rw [if_neg hfits, List.take_succ_cons, List.map_cons, List.sum_cons]
      refine iff_of_false (by simp) fun hc => ?_
      omega

theorem getElem?_applyBudget {budget : Option ℕ} {hits : List SearchHit} {k : ℕ}
    {hit : SearchHit} :
    (applyBudget hits budget)[k]? = some hit ↔ hits[k]? = some hit ∧ Room budget hits k := by
  cases budget with
  | none => simp [applyBudget, Room]
  | some b =>
    rw [applyBudget, Room]
    cases hits with
    | nil => simp [applyBudgetLoop]
    | cons first hits =>
      rw [applyBudgetLoop, if_neg (by simp), applyBudgetLoop_eq (by simp), List.nil_append,
        List.singleton_append]
      cases k with
      | zero => simp
      | succ k =>
        rw [List.getElem?_cons_succ, List.getElem?_cons_succ, getElem?_fitting]
        simp [List.take_succ_cons]

theorem fitting_isPrefix (budget spent : ℕ) (hits : List SearchHit) :
    fitting budget spent hits <+: hits := by
  induction hits generalizing spent with
  | nil => exact List.prefix_rfl
  | cons hit hits ih =>
    rw [fitting]
    split_ifs
    · exact List.cons_prefix_cons.2 ⟨rfl, ih _⟩
    · exact List.nil_prefix

theorem applyBudget_isPrefix (hits : List SearchHit) (budget : Option ℕ) :
    applyBudget hits budget <+: hits := by
  cases budget with
  | none => exact List.prefix_rfl
  | some b =>
    cases hits with
    | nil => exact List.prefix_rfl
    | cons first hits =>
      rw [applyBudget, applyBudgetLoop, if_neg (by simp), applyBudgetLoop_eq (by simp),
        List.nil_append, List.singleton_append]
      exact List.cons_prefix_cons.2 ⟨rfl, fitting_isPrefix _ _ _⟩

/-! ### The candidates -/

/-- The hits whose path is not one of the given ones. -/
def without (paths : List Str) (hits : List SearchHit) : List SearchHit :=
  hits.filter fun hit => hit.path ∉ paths

/-- The first hit of each path. -/
def firsts : List SearchHit → List SearchHit
  | [] => []
  | hit :: hits => hit :: without [hit.path] (firsts hits)

theorem without_without (ps qs : List Str) (hits : List SearchHit) :
    without ps (without qs hits) = without (ps ++ qs) hits := by
  rw [without, without, without, List.filter_filter]
  refine List.filter_congr fun hit _ => ?_
  simp only [List.mem_append, not_or, Bool.decide_and]

theorem mem_firsts {hits : List SearchHit} {hit : SearchHit} (h : hit ∈ firsts hits) :
    hit ∈ hits := by
  induction hits with
  | nil => exact h
  | cons first hits ih =>
    rcases List.mem_cons.1 h with rfl | h
    · exact List.mem_cons_self
    · exact List.mem_cons_of_mem _ (ih (List.mem_filter.1 h).1)

theorem nodup_firsts (hits : List SearchHit) : ((firsts hits).map SearchHit.path).Nodup := by
  induction hits with
  | nil => exact List.nodup_nil
  | cons hit hits ih =>
    rw [firsts, List.map_cons, List.nodup_cons]
    refine ⟨fun hm => ?_, ih.sublist (List.filter_sublist.map _)⟩
    obtain ⟨other, hother, hpath⟩ := List.mem_map.1 hm
    exact of_decide_eq_true (List.mem_filter.1 hother).2 (List.mem_singleton.2 hpath)

theorem firsts_eq_self {hits : List SearchHit} (h : (hits.map SearchHit.path).Nodup) :
    firsts hits = hits := by
  induction hits with
  | nil => rfl
  | cons hit hits ih =>
    rw [List.map_cons, List.nodup_cons] at h
    rw [firsts, ih h.2, without, List.filter_eq_self.2]
    intro other hother
    refine decide_eq_true fun hm => h.1 ?_
    rw [← List.mem_singleton.1 hm]
    exact List.mem_map_of_mem hother

theorem without_append_of_mem {paths : List Str} {path : Str} (h : path ∈ paths)
    (hits : List SearchHit) : without (paths ++ [path]) hits = without paths hits := by
  refine List.filter_congr fun hit _ => ?_
  have hiff : hit.path ∈ paths ++ [path] ↔ hit.path ∈ paths := by
    rw [List.mem_append, List.mem_singleton]
    exact ⟨fun hm => hm.elim id fun heq => heq ▸ h, .inl⟩
  simp only [hiff]

/-- Adding hits one by one, unless their path was seen, adds the first of each new path. -/
theorem foldl_pushUnseen (hits combined : List SearchHit) :
    hits.foldl pushUnseen combined =
      combined ++ without (combined.map SearchHit.path) (firsts hits) := by
  induction hits generalizing combined with
  | nil => simp [firsts, without]
  | cons hit hits ih =>
    rw [List.foldl_cons, ih, firsts, pushUnseen]
    by_cases hseen : hit.path ∈ combined.map SearchHit.path
    · have hdrop : without (combined.map SearchHit.path) (hit :: without [hit.path] (firsts hits)) =
          without (combined.map SearchHit.path) (without [hit.path] (firsts hits)) :=
        List.filter_cons_of_neg (by simpa using hseen)
      rw [if_pos hseen, hdrop, without_without, without_append_of_mem hseen]
    · have hkeep : without (combined.map SearchHit.path) (hit :: without [hit.path] (firsts hits)) =
          hit :: without (combined.map SearchHit.path) (without [hit.path] (firsts hits)) :=
        List.filter_cons_of_pos (by simpa using hseen)
      rw [if_neg hseen, hkeep, without_without, List.map_append, List.map_singleton,
        List.append_assoc, List.singleton_append]

theorem foldl_pushUnseen_nil (hits : List SearchHit) : hits.foldl pushUnseen [] = firsts hits := by
  rw [foldl_pushUnseen, List.map_nil, List.nil_append]
  exact List.filter_eq_self.2 fun _ _ => by simp

/-- The matches, then their neighbours of a tier within the filter: the items within two hops of the
first three matches, by the match they are near to, their distance and their tier. -/
def candidates (db : Db) (filter : SearchFilter) (found : List SearchHit) : List SearchHit :=
  firsts (found ++ (found.take 3).flatMap fun hit =>
    (traverse db hit.path 2).filter fun neighbor => filter.withinTier neighbor.tier)

/-- The neighbours that are not a match themselves come after the matches. -/
theorem candidates_eq {db : Db} {filter : SearchFilter} {found : List SearchHit}
    (h : (found.map SearchHit.path).Nodup) : candidates db filter found =
      found ++ without (found.map SearchHit.path) (firsts ((found.take 3).flatMap fun hit =>
        (traverse db hit.path 2).filter fun neighbor => filter.withinTier neighbor.tier)) := by
  rw [candidates, ← foldl_pushUnseen_nil, List.foldl_append, foldl_pushUnseen_nil,
    firsts_eq_self h, foldl_pushUnseen]

/-! ### What is returned -/

/-- The index has a row of the hit's path with a property. -/
def HasRow (db : Db) (P : Row → Bool) (hit : SearchHit) : Prop :=
  ∃ row ∈ db.items.map Prod.snd, row.path = hit.path ∧ P row = true

instance (db : Db) (P : Row → Bool) (hit : SearchHit) : Decidable (HasRow db P hit) :=
  inferInstanceAs (Decidable (∃ row ∈ _, _ ∧ _))

theorem search_spec {fts : FullText} {db : Db} {query : Str} {filter : SearchFilter}
    {found : List SearchHit} (h : InStep db) (hfound : search fts db query filter = .ok found) :
    (found.map SearchHit.path).Nodup ∧ ∀ hit ∈ found, HasRow db filter.admits hit := by
  rw [search, runBm25Query] at hfound
  split_ifs at hfound
  · obtain rfl := Except.ok.inj hfound
    exact ⟨List.nodup_nil, by simp⟩
  cases hmatch : fts.matching (sanitizeFtsQuery query) db.items with
  | error e => rw [hmatch] at hfound; cases hfound
  | ok rows =>
    rw [hmatch] at hfound
    obtain rfl := Except.ok.inj hfound
    have hrows := fts.rows _ _ _ hmatch
    -- the limit and the budget only leave rows out
    have hlimit : ∀ (limit : Option ℕ) (l : List (ℚ × Row)), (limitRows limit l).Sublist l := by
      intro limit l
      cases limit with
      | none => exact List.Sublist.refl _
      | some n =>
        rw [limitRows]
        split_ifs
        · exact List.take_sublist _ _
        · exact List.Sublist.refl _
    have hkept : ∀ l : List (ℚ × Row),
        (applyBudget ((limitRows filter.limit l).map matchHit) filter.budget).Sublist
          (l.map matchHit) := fun l =>
      (applyBudget_isPrefix _ filter.budget).sublist.trans ((hlimit filter.limit l).map matchHit)
    constructor
    · refine List.Nodup.sublist ((hkept _).map SearchHit.path) ?_
      rw [List.map_map, ((List.mergeSort_perm _ _).map _).nodup_iff]
      have hpath : SearchHit.path ∘ matchHit = Row.path ∘ Prod.snd := rfl
      rw [hpath, ← List.map_map]
      exact h.keyed.sublist (((List.filter_sublist.map _).trans hrows).map _)
    · intro hit hhit
      obtain ⟨r, hr, rfl⟩ := List.mem_map.1 ((hkept _).subset hhit)
      obtain ⟨hr, hadmits⟩ := List.mem_filter.1 (List.mem_mergeSort.1 hr)
      exact ⟨r.2, hrows.subset (List.mem_map_of_mem hr), rfl, hadmits⟩

theorem context_eq {fts : FullText} {db : Db} {topic : Str} {filter : SearchFilter}
    {found : List SearchHit} (h : InStep db)
    (hfound : search fts db topic (directFilter filter) = .ok found) :
    context fts db topic filter = .ok (applyBudget (candidates db filter found) filter.budget) := by
  have hdirect : found.foldl pushUnseen [] = found := by
    rw [foldl_pushUnseen_nil, firsts_eq_self (search_spec h hfound).1]
  rw [context, hfound, candidates, ← foldl_pushUnseen_nil, List.foldl_append, hdirect,
    List.foldl_flatMap]
  show Except.ok _ = _
  rw [hdirect, List.foldl_map]

/-- Every hit has a row that the filter admits, there are no more hits than the limit, and no path
occurs twice. -/
structure Obeys (db : Db) (filter : SearchFilter) (hits : List SearchHit) : Prop where
  admitted : ∀ hit ∈ hits, HasRow db filter.admits hit
  limited : ∀ limit ∈ filter.limit, hits.length ≤ limit
  nodup : (hits.map SearchHit.path).Nodup

theorem withinTier_of_neighbour {db : Db} {filter : SearchFilter} {found : List SearchHit}
    {hit : SearchHit} (h : hit ∈ (found.take 3).flatMap fun hit =>
      (traverse db hit.path 2).filter fun neighbor => filter.withinTier neighbor.tier) :
    HasRow db (fun row => filter.withinTier row.tier) hit := by
  obtain ⟨seed, -, h⟩ := List.mem_flatMap.1 h
  obtain ⟨htraverse, htier⟩ := List.mem_filter.1 h
  obtain ⟨row, hrow, -, hhit⟩ := mem_traverse.1 htraverse
  obtain ⟨d, -, -, rfl⟩ := rowHit_eq_some_iff.1 hhit
  exact ⟨row, hrow, rfl, htier⟩

/-- **When the result of `context` obeys the filter.**  No path is in it twice; and it obeys the
filter exactly when each neighbour of the matches that the budget leaves room for has the type, the
workspace, the visibility and the scope of the filter, and the budget leaves no room for more hits
than its limit. -/
theorem context_obeys_iff (fts : FullText) {db : Db} (h : InStep db) (topic : Str)
    (filter : SearchFilter) {found : List SearchHit}
    (hfound : search fts db topic (directFilter filter) = .ok found) :
    ∃ hits, context fts db topic filter = .ok hits ∧ (hits.map SearchHit.path).Nodup ∧
      (Obeys db filter hits ↔
        (∀ k hit, found.length ≤ k → (candidates db filter found)[k]? = some hit →
          Room filter.budget (candidates db filter found) k → HasRow db filter.metadata hit) ∧
        ∀ limit ∈ filter.limit, ∀ hit, (candidates db filter found)[limit]? = some hit →
          ¬ Room filter.budget (candidates db filter found) limit) := by
  have hnodup := (nodup_firsts (found ++ (found.take 3).flatMap fun hit =>
    (traverse db hit.path 2).filter fun neighbor => filter.withinTier neighbor.tier)).sublist
      ((applyBudget_isPrefix _ filter.budget).sublist.map SearchHit.path)
  refine ⟨_, context_eq h hfound, hnodup, ?_⟩
  obtain ⟨hpaths, hfoundAdmitted⟩ := search_spec h hfound
  constructor
  · rintro ⟨hadmitted, hlimited, -⟩
    refine ⟨fun k hit _ hcandidate hroom => ?_, fun limit hlimit hit hcandidate hroom => ?_⟩
    · obtain ⟨row, hrow, hpath, hadmits⟩ := hadmitted hit
        (List.mem_of_getElem? (getElem?_applyBudget.2 ⟨hcandidate, hroom⟩))
      rw [SearchFilter.admits, Bool.and_eq_true] at hadmits
      exact ⟨row, hrow, hpath, hadmits.1⟩
    · have hget := getElem?_applyBudget.2 ⟨hcandidate, hroom⟩
      exact absurd (hlimited limit hlimit) (not_le.2 (List.getElem?_eq_some_iff.1 hget).1)
  · rintro ⟨hmetadata, hlimit⟩
    refine ⟨fun hit hhit => ?_, fun limit hmem => ?_, hnodup⟩
    · obtain ⟨k, hget⟩ := List.mem_iff_getElem?.1 hhit
      obtain ⟨hcandidate, hroom⟩ := getElem?_applyBudget.1 hget
      -- the matches obey the filter by themselves; the neighbours have only been asked for their tier
      by_cases hk : k < found.length
      · rw [candidates_eq hpaths, List.getElem?_append_left hk] at hcandidate
        exact hfoundAdmitted hit (List.mem_of_getElem? hcandidate)
      · obtain ⟨row, hrow, hpath, hmeta⟩ := hmetadata k hit (not_lt.1 hk) hcandidate hroom
        rw [candidates_eq hpaths, List.getElem?_append_right (not_lt.1 hk)] at hcandidate
        obtain ⟨row', hrow', hpath', htier⟩ := withinTier_of_neighbour
          (mem_firsts (List.mem_filter.1 (List.mem_of_getElem? hcandidate)).1)
        obtain rfl := h.keyed.eq_of_key_eq hrow hrow' (hpath.trans hpath'.symm)
        exact ⟨row, hrow, hpath, by rw [SearchFilter.admits, hmeta, Bool.true_and]; exact htier⟩
    · refine List.getElem?_eq_none_iff.1 ?_
      cases hget : (applyBudget (candidates db filter found) filter.budget)[limit]? with
      | none => rfl
      | some hit =>
        obtain ⟨hcandidate, hroom⟩ := getElem?_applyBudget.1 hget
        exact absurd hroom (hlimit limit hmem hit hcandidate)

/-- A full-text index for queries of one word. -/
def exampleFullText : FullText where
  matching expr items :=
    .ok ((items.filter fun r => (expr.drop 1).dropLast.dropLast <:+: r.2.content).map
      fun r => (1, r.2))
  rows expr items found h := by
    obtain rfl := Except.ok.inj h
    rw [List.map_map]
    exact List.filter_sublist.map _

/-- A piece of knowledge that mentions a skill. -/
def exampleNeighbours : List Item :=
  [{ path := "a.md".toList, frontmatter := { itemType := some .knowledge }
     body := "topic [[b]]".toList, humanSigned := false },
    { path := "b.md".toList, frontmatter := { itemType := some .skill }
      body := "other".toList, humanSigned := false }]

/-- Only knowledge. -/
def exampleFilter : SearchFilter := { itemType := some "knowledge".toList }

theorem context_obeys_iff_example : ∃ db found hits, buildIndex 0 exampleNeighbours = .ok db ∧
    search exampleFullText db "topic".toList (directFilter exampleFilter) = .ok found ∧
    context exampleFullText db "topic".toList exampleFilter = .ok hits ∧
    (hits.map SearchHit.path).Nodup := by
  obtain ⟨db, hdb⟩ : ∃ db, buildIndex 0 exampleNeighbours = .ok db := ⟨_, rfl⟩
  obtain ⟨found, hfound⟩ : ∃ found,
      search exampleFullText db "topic".toList (directFilter exampleFilter) = .ok found := by
    exact ⟨_, rfl⟩
  obtain ⟨hits, hhits, hnodup, -⟩ := context_obeys_iff exampleFullText
    (represents_buildIndex hdb).inStep "topic".toList exampleFilter hfound
  exact ⟨db, found, hits, hdb, hfound, hhits, hnodup⟩

/-- The skill that the knowledge mentions is returned with it. -/
theorem context_returns_other_type : ¬ ∀ (fts : FullText) (db : Db) (topic : Str)
    (filter : SearchFilter) (hits : List SearchHit), InStep db →
      context fts db topic filter = .ok hits → Obeys db filter hits := by
  intro h
  have hdb : buildIndex 0 exampleNeighbours =
      .ok (((buildIndex 0 exampleNeighbours).toOption).getD createSchema) := rfl
  have hobeys := h exampleFullText _ "topic".toList exampleFilter _
    (represents_buildIndex hdb).inStep rfl
  exact absurd (hobeys.admitted ⟨"b.md".toList, [], 1 / 2, 2, 1, 1⟩ (by decide +kernel))
    (by decide +kernel)

end Index

end Wkp
