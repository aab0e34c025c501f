import Wkp.Core.Fusion
import Wkp.Core.Filtered
import Wkp.Lib.Effect
import Mathlib.Tactic.Linarith
import Mathlib.Tactic.Positivity
import Mathlib.Tactic.NormNum
import Mathlib.Algebra.Order.Field.Basic
import Mathlib.Algebra.Order.Field.Rat

/-!
# Two signals against one

What is in both ranked lists is above what is in one of them, as long as the lists are short enough
for the constant of the fusion.

* `Index.scores_eq` : the score of a path is the total of its ranks.
* `Index.both_above_one` : **a path in both lists is above any path in one, and the paths of one
  list keep their order.**
* `Index.vecRanked_spec`, `Index.search_bm25Filter` : the lists of a hybrid search have at most
  forty entries, and no path twice.
-/

namespace Wkp

open Rust

namespace Index

/-! ### Scores from ranks -/

/-- The paths of ranked lists with their ranks, counted from one. -/
def rankings (rankedLists : List (List Str)) : List (Str × ℕ) :=
  rankedLists.flatMap fun list => list.zipIdx.map fun e => (e.1, e.2 + 1)

/-- The ranks that a path has. -/
def ranksOf (rankings : List (Str × ℕ)) (path : Str) : List ℕ :=
  (rankings.filter fun e => e.1 = path).map Prod.snd

/-- What ranks add up to. -/
def total (A : Arithmetic) (ranks : List ℕ) : ℚ :=
  ranks.foldl (fun score rank => A.add score (A.reciprocal rank)) 0

/-- The score of a path in ranked lists. -/
def score (A : Arithmetic) (rankedLists : List (List Str)) (path : Str) : ℚ :=
  total A (ranksOf (rankings rankedLists) path)

theorem ranksOf_append (l m : List (Str × ℕ)) (path : Str) :
    ranksOf (l ++ m) path = ranksOf l path ++ ranksOf m path := by
  rw [ranksOf, List.filter_append, List.map_append]
  rfl

theorem ranksOf_eq_nil {l : List (Str × ℕ)} {path : Str} (h : path ∉ l.map Prod.fst) :
    ranksOf l path = [] := by
  rw [ranksOf, List.filter_eq_nil_iff.2, List.map_nil]
  exact fun e he heq => h (of_decide_eq_true heq ▸ List.mem_map_of_mem he)

theorem total_concat (A : Arithmetic) (ranks : List ℕ) (rank : ℕ) :
    total A (ranks ++ [rank]) = A.add (total A ranks) (A.reciprocal rank) := List.foldl_concat ..

theorem map_fst_rankings (rankedLists : List (List Str)) :
    (rankings rankedLists).map Prod.fst = rankedLists.flatten := by
  induction rankedLists with
  | nil => rfl
  | cons list lists ih =>
    rw [rankings, List.flatMap_cons, List.map_append, List.flatten_cons, ← ih, List.map_map]
    exact congrArg (· ++ _) (List.zipIdx_map_fst 0 list)

/-- Adding ranks one by one gives every path once, with the total of its ranks. -/
theorem foldl_addScore (A : Arithmetic) (done : List (Str × ℕ)) : ∃ keys : List Str, keys.Nodup ∧
    (∀ path, path ∈ keys ↔ path ∈ done.map Prod.fst) ∧
    done.foldl (fun scores e => addScore A scores e.1 e.2) [] =
      keys.map fun path => (path, total A (ranksOf done path)) := by
  -- from the end: the ranks of a path are those it had and the one that is added
  induction done using List.reverseRecOn with
  | nil => exact ⟨[], List.nodup_nil, fun _ => Iff.rfl, rfl⟩
  | append_singleton done e ih =>
    obtain ⟨path, rank⟩ := e
    obtain ⟨keys, hnodup, hkeys, heq⟩ := ih
    have hfst : (keys.map fun q => (q, total A (ranksOf done q))).map Prod.fst = keys := by
      rw [List.map_map]
      exact List.map_id keys
    have hsame : ranksOf [(path, rank)] path = [rank] := by simp [ranksOf]
    have hother : ∀ q, path ≠ q → ranksOf [(path, rank)] q = [] := fun q hq => by simp [ranksOf, hq]
    rw [List.foldl_concat, heq, addScore, hfst]
    by_cases hmem : path ∈ keys
    · rw [if_pos hmem]
      refine ⟨keys, hnodup, fun q => ?_, ?_⟩
      · rw [hkeys, List.map_append, List.mem_append]
        refine ⟨.inl, fun hq => hq.elim id fun hq => ?_⟩
        rw [List.mem_singleton.1 hq]
        exact (hkeys path).1 hmem
      · rw [List.map_map]
        refine List.map_congr_left fun q _ => ?_
        rw [ranksOf_append]
        by_cases hq : path = q
        · subst hq
          simp [hsame, total_concat]
        · simp [hother q hq, Ne.symm hq]
    · rw [if_neg hmem]
      have hnew : ranksOf done path = [] := ranksOf_eq_nil fun hp => hmem ((hkeys path).2 hp)
      refine ⟨keys ++ [path], ?_, fun q => ?_, ?_⟩
      · refine List.nodup_append.2 ⟨hnodup, List.nodup_singleton _, fun a ha b hb heq => hmem ?_⟩
        rwa [heq, List.mem_singleton.1 hb] at ha
      · rw [List.mem_append, hkeys, List.map_append, List.mem_append]
        rfl
      · rw [List.map_append, List.map_singleton, ranksOf_append, hnew, hsame]
        refine congrArg (· ++ _) (List.map_congr_left fun q hq => ?_)
        rw [ranksOf_append, hother q fun heq => hmem (heq ▸ hq), List.append_nil]

theorem scores_eq (A : Arithmetic) (rankedLists : List (List Str)) : ∃ keys : List Str,
    keys.Nodup ∧ (∀ path, path ∈ keys ↔ path ∈ rankedLists.flatten) ∧
    scores A rankedLists = keys.map fun path => (path, score A rankedLists path) := by
  obtain ⟨keys, hnodup, hkeys, heq⟩ := foldl_addScore A (rankings rankedLists)
  refine ⟨keys, hnodup, fun path => by rw [hkeys, map_fst_rankings], Eq.trans ?_ heq⟩
  rw [rankings, List.foldl_flatMap, scores]
  simp only [List.foldl_map]

theorem nodup_scores (A : Arithmetic) (rankedLists : List (List Str)) :
    ((scores A rankedLists).map Prod.fst).Nodup := by
  obtain ⟨keys, hnodup, -, heq⟩ := scores_eq A rankedLists
  rw [heq, List.map_map]
  exact (List.map_id keys).symm ▸ hnodup

theorem mem_scores {A : Arithmetic} {rankedLists : List (List Str)} {path : Str} {s : ℚ} :
    (path, s) ∈ scores A rankedLists ↔
      path ∈ rankedLists.flatten ∧ s = score A rankedLists path := by
  obtain ⟨keys, -, hkeys, heq⟩ := scores_eq A rankedLists
  rw [heq, ← hkeys, List.mem_map]
  constructor
  · rintro ⟨q, hq, hpair⟩
    obtain ⟨rfl, rfl⟩ := Prod.mk.inj hpair
    exact ⟨hq, rfl⟩
  · rintro ⟨hpath, rfl⟩
    exact ⟨path, hpath, rfl⟩

/-! ### Two lists -/

section Lists

variable {xs ys : List Str}

theorem ranksOf_zipIdx (h : xs.Nodup) {path : Str} (hpath : path ∈ xs) (n : ℕ) :
    ranksOf ((xs.zipIdx n).map fun e => (e.1, e.2 + 1)) path = [n + xs.idxOf path + 1] := by
  induction xs generalizing n with
  | nil => exact absurd hpath List.not_mem_nil
  | cons first xs ih =>
    obtain ⟨hfirst, hxs⟩ := List.nodup_cons.1 h
    rw [List.zipIdx_cons, List.map_cons, ← List.singleton_append, ranksOf_append]
    by_cases heq : first = path
    · subst heq
      have hrest : ranksOf ((xs.zipIdx (n + 1)).map fun e => (e.1, e.2 + 1)) first = [] := by
        refine ranksOf_eq_nil ?_
        rw [List.map_map]
        show first ∉ (xs.zipIdx (n + 1)).map Prod.fst
        rwa [List.zipIdx_map_fst]
      rw [hrest, List.idxOf_cons_self]
      simp [ranksOf]
    · have hmem := (List.mem_cons.1 hpath).resolve_left (Ne.symm heq)
      rw [ih hxs hmem, List.idxOf_cons_ne _ heq]
      simp [ranksOf, heq]
      omega

theorem ranksOf_rankings_pair (path : Str) : ranksOf (rankings [xs, ys]) path =
    ranksOf (xs.zipIdx.map fun e => (e.1, e.2 + 1)) path ++
      ranksOf (ys.zipIdx.map fun e => (e.1, e.2 + 1)) path := by
  rw [rankings, List.flatMap_cons, List.flatMap_singleton, ranksOf_append]

theorem ranksOf_zipIdx_of_notMem {path : Str} (h : path ∉ xs) :
    ranksOf (xs.zipIdx.map fun e => (e.1, e.2 + 1)) path = [] := by
  refine ranksOf_eq_nil ?_
  rw [List.map_map]
  show path ∉ xs.zipIdx.map Prod.fst
  rwa [List.zipIdx_map_fst]

theorem score_of_both (hx : xs.Nodup) (hy : ys.Nodup) {path : Str} (hpx : path ∈ xs)
    (hpy : path ∈ ys) : score .exact [xs, ys] path =
      1 / (60 + (xs.idxOf path + 1 : ℕ)) + 1 / (60 + (ys.idxOf path + 1 : ℕ)) := by
  rw [score, ranksOf_rankings_pair, ranksOf_zipIdx hx hpx, ranksOf_zipIdx hy hpy]
  simp [total, Arithmetic.reciprocal, Arithmetic.exact, fusionK]

theorem score_of_left (hx : xs.Nodup) {path : Str} (hpx : path ∈ xs) (hpy : path ∉ ys) :
    score .exact [xs, ys] path = 1 / (60 + (xs.idxOf path + 1 : ℕ)) := by
  rw [score, ranksOf_rankings_pair, ranksOf_zipIdx hx hpx, ranksOf_zipIdx_of_notMem hpy]
  simp [total, Arithmetic.reciprocal, Arithmetic.exact, fusionK]

theorem score_of_right (hy : ys.Nodup) {path : Str} (hpx : path ∉ xs) (hpy : path ∈ ys) :
    score .exact [xs, ys] path = 1 / (60 + (ys.idxOf path + 1 : ℕ)) := by
  rw [score, ranksOf_rankings_pair, ranksOf_zipIdx hy hpy, ranksOf_zipIdx_of_notMem hpx]
  simp [total, Arithmetic.reciprocal, Arithmetic.exact, fusionK]

/-- The last of forty ranks still counts for more than half of the first. -/
theorem le_reciprocal {i : ℕ} (h : i < 40) : (1 / 100 : ℚ) ≤ 1 / (60 + (i + 1 : ℕ)) := by
  refine one_div_le_one_div_of_le (by positivity) ?_
  have hi : ((i + 1 : ℕ) : ℚ) ≤ 40 := by exact_mod_cast h
  linarith

theorem reciprocal_le (i : ℕ) : (1 / (60 + (i + 1 : ℕ)) : ℚ) ≤ 1 / 61 := by
  refine one_div_le_one_div_of_le (by norm_num) ?_
  push_cast
  have hi : (0 : ℚ) ≤ i := Nat.cast_nonneg i
  linarith

theorem reciprocal_lt {i j : ℕ} (h : i < j) :
    (1 / (60 + (j + 1 : ℕ)) : ℚ) < 1 / (60 + (i + 1 : ℕ)) := by
  refine one_div_lt_one_div_of_lt (by positivity) ?_
  have hij : ((i + 1 : ℕ) : ℚ) < (j + 1 : ℕ) := by exact_mod_cast Nat.succ_lt_succ h
  linarith

/-- Two signals beat one, whatever the positions. -/
theorem score_lt_of_both (hx : xs.Nodup) (hy : ys.Nodup) (hxlen : xs.length ≤ 40)
    (hylen : ys.length ≤ 40) {p q : Str} (hpx : p ∈ xs) (hpy : p ∈ ys)
    (hq : q ∈ xs ∧ q ∉ ys ∨ q ∉ xs ∧ q ∈ ys) :
    score .exact [xs, ys] q < score .exact [xs, ys] p := by
  have hone : score .exact [xs, ys] q ≤ 1 / 61 := by
    rcases hq with ⟨hqx, hqy⟩ | ⟨hqx, hqy⟩
    · rw [score_of_left hx hqx hqy]
      exact reciprocal_le _
    · rw [score_of_right hy hqx hqy]
      exact reciprocal_le _
  have hboth : (1 / 100 + 1 / 100 : ℚ) ≤ score .exact [xs, ys] p := by
    rw [score_of_both hx hy hpx hpy]
    exact add_le_add (le_reciprocal ((List.idxOf_lt_length_iff.2 hpx).trans_le hxlen))
      (le_reciprocal ((List.idxOf_lt_length_iff.2 hpy).trans_le hylen))
  exact (hone.trans_lt (by norm_num)).trans_le hboth

/-! ### The fused ranking -/

/-- A path is above another: it comes before it, with a higher score. -/
def Above (fused : List (Str × ℚ)) (p q : Str) : Prop :=
  ∃ s t, [(p, s), (q, t)].Sublist fused ∧ t < s

theorem ranked_fused (A : Arithmetic) (order : IterationOrder) (rankedLists : List (List Str)) :
    Ranking.Ranked Prod.snd (reciprocalRankFusion A order rankedLists) := Ranking.ranked_rank _

theorem fused_perm (A : Arithmetic) (order : IterationOrder) (rankedLists : List (List Str)) :
    (reciprocalRankFusion A order rankedLists).Perm (scores A rankedLists) :=
  (Ranking.rank_perm _).trans (order.perm _)

theorem mem_fused {A : Arithmetic} {order : IterationOrder} {rankedLists : List (List Str)}
    {path : Str} {s : ℚ} : (path, s) ∈ reciprocalRankFusion A order rankedLists ↔
      path ∈ rankedLists.flatten ∧ s = score A rankedLists path := by
  rw [(fused_perm A order rankedLists).mem_iff, mem_scores]

theorem above_of_score_lt {A : Arithmetic} (order : IterationOrder) {rankedLists : List (List Str)}
    {p q : Str} (hp : p ∈ rankedLists.flatten) (hq : q ∈ rankedLists.flatten)
    (hlt : score A rankedLists q < score A rankedLists p) :
    Above (reciprocalRankFusion A order rankedLists) p q :=
  ⟨_, _, (ranked_fused A order rankedLists).pair_sublist (mem_fused.2 ⟨hp, rfl⟩)
    (mem_fused.2 ⟨hq, rfl⟩) hlt, hlt⟩

/-- Paths that a list has in the order of their scores keep that order. -/
theorem filter_fused {A : Arithmetic} (order : IterationOrder) {rankedLists : List (List Str)}
    {list : List Str} {P : Str → Prop} [DecidablePred P]
    (hmem : ∀ p, p ∈ list ↔ p ∈ rankedLists.flatten ∧ P p)
    (hlist : list.Pairwise fun p q => score A rankedLists q < score A rankedLists p) :
    ((reciprocalRankFusion A order rankedLists).map Prod.fst).filter P = list := by
  set fused := reciprocalRankFusion A order rankedLists
  have hnodup : (fused.map Prod.fst).Nodup :=
    (((fused_perm A order rankedLists).map Prod.fst).nodup_iff).2 (nodup_scores A rankedLists)
  have hperm : ((fused.map Prod.fst).filter P).Perm list := by
    refine (List.perm_ext_iff_of_nodup (hnodup.filter _) (hlist.imp fun h => ?_)).2 fun p => ?_
    · rintro rfl
      exact lt_irrefl _ h
    · rw [List.mem_filter, hmem, decide_eq_true_eq, List.mem_map]
      refine and_congr_left fun _ => ⟨?_, fun hp => ⟨_, mem_fused.2 ⟨hp, rfl⟩, rfl⟩⟩
      rintro ⟨e, he, rfl⟩
      exact (mem_fused.1 he).1
  have hranked : ((fused.map Prod.fst).filter P).Pairwise
      fun p q => score A rankedLists q ≤ score A rankedLists p := by
    refine List.Pairwise.filter _ (List.pairwise_map.2 ?_)
    refine (ranked_fused A order rankedLists).imp_of_mem fun ha hb hab => ?_
    rwa [(mem_fused.1 ha).2, (mem_fused.1 hb).2] at hab
  -- no two paths of the list have the same score
  have hne : ∀ p ∈ list, ∀ q ∈ list, score A rankedLists p = score A rankedLists q → p = q := by
    intro p hp q hq heq
    by_contra hpq
    have hdiff : list.Pairwise fun p q => score A rankedLists p ≠ score A rankedLists q :=
      hlist.imp fun h => h.ne'
    have : Std.Symm fun p q => score A rankedLists p ≠ score A rankedLists q :=
      ⟨fun _ _ h => h.symm⟩
    exact hdiff.forall hp hq hpq heq
  exact hperm.eq_of_pairwise (fun p q hp hq hpq hqp =>
    hne p (hperm.subset hp) q hq (le_antisymm hqp hpq)) hranked (hlist.imp le_of_lt)

theorem pairwise_idxOf (h : xs.Nodup) : xs.Pairwise fun p q => xs.idxOf p < xs.idxOf q := by
  rw [List.pairwise_iff_getElem]
  intro i j hi hj hij
  rwa [h.idxOf_getElem i hi, h.idxOf_getElem j hj]

/-- **Two signals beat one.**  In exact arithmetic and for lists of at most forty paths, none of
them twice in a list, every path of both lists is above every path of one list only, and the paths of
one list only come in the order of that list. -/
theorem both_above_one (order : IterationOrder) (hx : xs.Nodup) (hy : ys.Nodup)
    (hxlen : xs.length ≤ 40) (hylen : ys.length ≤ 40) :
    (∀ p q, p ∈ xs → p ∈ ys → (q ∈ xs ∧ q ∉ ys ∨ q ∉ xs ∧ q ∈ ys) →
      Above (reciprocalRankFusion .exact order [xs, ys]) p q) ∧
    ((reciprocalRankFusion .exact order [xs, ys]).map Prod.fst).filter (fun p => p ∈ xs ∧ p ∉ ys) =
      xs.filter (fun p => p ∉ ys) ∧
    ((reciprocalRankFusion .exact order [xs, ys]).map Prod.fst).filter (fun p => p ∉ xs ∧ p ∈ ys) =
      ys.filter fun p => p ∉ xs := by
  have hflat : ∀ p, p ∈ [xs, ys].flatten ↔ p ∈ xs ∨ p ∈ ys := fun p => by simp
  refine ⟨fun p q hpx hpy hq => ?_, filter_fused order (fun p => ?_) ?_,
    filter_fused order (fun p => ?_) ?_⟩
  · refine above_of_score_lt order ((hflat p).2 (.inl hpx)) ((hflat q).2 ?_)
      (score_lt_of_both hx hy hxlen hylen hpx hpy hq)
    exact hq.imp And.left And.right
  · rw [List.mem_filter, hflat, decide_eq_true_eq]
    tauto
  · refine List.Pairwise.imp_of_mem (fun hp hq hpq => ?_) ((pairwise_idxOf hx).filter _)
    simp only [List.mem_filter, decide_eq_true_eq] at hp hq
    rw [score_of_left hx hp.1 hp.2, score_of_left hx hq.1 hq.2]
    exact reciprocal_lt hpq
  · rw [List.mem_filter, hflat, decide_eq_true_eq]
    tauto
  · refine List.Pairwise.imp_of_mem (fun hp hq hpq => ?_) ((pairwise_idxOf hy).filter _)
    simp only [List.mem_filter, decide_eq_true_eq] at hp hq
    rw [score_of_right hy hp.2 hp.1, score_of_right hy hq.2 hq.1]
    exact reciprocal_lt hpq

/-- The entries in the order in which they were inserted. -/
def insertionOrder : IterationOrder := ⟨id, fun _ => .refl _⟩

/-- The last of both lists is above the first of either. -/
theorem both_above_one_example :
    Above (reciprocalRankFusion .exact insertionOrder
      [["a".toList, "b".toList], ["c".toList, "b".toList]]) "b".toList "a".toList :=
  (@both_above_one ["a".toList, "b".toList] ["c".toList, "b".toList] insertionOrder (by decide)
    (by decide) (by decide) (by decide)).1 _ _ (by decide) (by decide) (by decide)

end Lists

/-! ### The lists of a hybrid search -/

theorem map_fst_scoredRow {similarity : CosineSimilarity} {queryEmbedding : List UInt32}
    {rows : List Row} {scored : List (Str × Option ℚ)}
    (h : rows.mapM (scoredRow similarity queryEmbedding) = .ok scored) :
    scored.map Prod.fst = rows.map Row.path := by
  induction rows generalizing scored with
  | nil =>
    obtain rfl := Except.ok.inj h
    rfl
  | cons row rows ih =>
    rw [List.mapM_cons, Except.bind_eq_ok] at h
    obtain ⟨first, hfirst, h⟩ := h
    obtain ⟨rest, hrest, heq⟩ := Except.bind_eq_ok.1 h
    obtain rfl := Except.ok.inj heq
    rw [List.map_cons, List.map_cons, ih hrest]
    rw [scoredRow] at hfirst
    cases hrow : row.embedding with
    | none => rw [hrow] at hfirst; cases hfirst
    | some embedding =>
      rw [hrow] at hfirst
      obtain rfl := Except.ok.inj hfirst
      rfl

theorem vecRanked_spec {similarity : CosineSimilarity} {db : Db} {queryEmbedding : List UInt32}
    {filter : SearchFilter} {ranked : List Str} (h : InStep db)
    (hranked : vecRanked similarity db queryEmbedding filter = .ok ranked) :
    ranked.Nodup ∧ ranked.length ≤ 40 := by
  obtain ⟨scored, hscored, hrest⟩ := Except.bind_eq_ok.1 hranked
  split_ifs at hrest
  obtain rfl := Except.ok.inj hrest
  refine ⟨?_, by simp⟩
  refine List.Nodup.sublist ((List.take_sublist 40 _).map Prod.fst) ?_
  rw [((List.mergeSort_perm scored scoredLe).map Prod.fst).nodup_iff, map_fst_scoredRow hscored]
  exact h.keyed.sublist (List.filter_sublist.map _)

theorem search_bm25Filter {fts : FullText} {db : Db} {query : Str} {filter : SearchFilter}
    {found : List SearchHit} (h : InStep db)
    (hfound : search fts db query (bm25Filter filter) = .ok found) :
    (found.map SearchHit.path).Nodup ∧ found.length ≤ 40 := by
  refine ⟨(search_spec h hfound).1, ?_⟩
  rw [search, runBm25Query] at hfound
  split_ifs at hfound
  · obtain rfl := Except.ok.inj hfound
    exact Nat.zero_le _
  · obtain ⟨rows, -, hrest⟩ := Except.bind_eq_ok.1 hfound
    obtain rfl := Except.ok.inj hrest
    simp [bm25Filter, applyBudget, limitRows]

end Index

end Wkp
