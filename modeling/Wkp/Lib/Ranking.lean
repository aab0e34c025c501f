import Mathlib.Data.List.Sort
import Mathlib.Order.Basic

/-!
# Lists ranked by a score

A list sorted by a score, the highest first, with what has one score in the order that it was in.

* `Ranking.rank` : the list in that order.
* `Ranking.Ranked.eq_append` : a ranked list is what is above a score, at it and below it.
* `Ranking.filter_rank` : ranking leaves what has one score in its order.
* `Ranking.Ranked.ext` : a ranked list is known by what it has at each score.
-/

namespace Ranking

variable {α β σ : Type*} [LinearOrder σ] (score : α → σ)

/-- The list by score, the highest first. -/
def rank (l : List α) : List α := l.mergeSort fun a b => decide (score b ≤ score a)

/-- The scores do not rise. -/
def Ranked (l : List α) : Prop := l.Pairwise fun a b => score b ≤ score a

variable {score}

theorem rank_perm (l : List α) : (rank score l).Perm l := List.mergeSort_perm _ _

theorem ranked_rank (l : List α) : Ranked score (rank score l) := by
  have h : (rank score l).Pairwise fun a b => decide (score b ≤ score a) = true :=
    List.pairwise_mergeSort (fun a b c hab hbc => by
      rw [decide_eq_true_eq] at hab hbc ⊢
      exact hbc.trans hab)
    (fun a b => by simpa using le_total (score b) (score a)) l
  exact h.imp of_decide_eq_true

theorem Ranked.pair_sublist {l : List α} (h : Ranked score l) {a b : α} (ha : a ∈ l) (hb : b ∈ l)
    (hlt : score b < score a) : [a, b].Sublist l := by
  obtain ⟨before, after, rfl⟩ := List.append_of_mem ha
  rcases List.mem_append.1 hb with hb | hb
  · have hle := (List.pairwise_append.1 h).2.2 b hb a List.mem_cons_self
    exact absurd hlt (not_lt.2 hle)
  · rcases List.mem_cons.1 hb with rfl | hb
    · exact absurd hlt (lt_irrefl _)
    · exact ((List.singleton_sublist.2 hb).cons_cons a).trans (List.sublist_append_right _ _)

/-- What is above a score, at it and below it. -/
theorem Ranked.eq_append {l : List α} (h : Ranked score l) (c : σ) :
    l = l.filter (fun a => c < score a) ++ l.filter (fun a => score a = c) ++
      l.filter (fun a => score a < c) := by
  induction l with
  | nil => rfl
  | cons a l ih =>
    obtain ⟨ha, hl⟩ := List.pairwise_cons.1 h
    rcases lt_trichotomy c (score a) with hlt | rfl | hgt
    · have heq : ¬ score a = c := hlt.ne'
      have hgt : ¬ score a < c := hlt.not_gt
      simp only [List.filter_cons, decide_eq_true hlt, decide_eq_false heq, decide_eq_false hgt,
        ↓reduceIte, Bool.false_eq_true, List.cons_append]
      exact congrArg (a :: ·) (ih hl)
    · have hnone : l.filter (fun b => score a < score b) = [] :=
        List.filter_eq_nil_iff.2 fun b hb => by simpa using ha b hb
      have hrec := ih hl
      rw [hnone, List.nil_append] at hrec
      simp only [List.filter_cons, lt_irrefl, decide_false, Bool.false_eq_true, ↓reduceIte,
        decide_true, hnone, List.nil_append, List.cons_append]
      exact congrArg (a :: ·) hrec
    · have hle : ∀ b ∈ l, score b < c := fun b hb => (ha b hb).trans_lt hgt
      have hnone : l.filter (fun b => c < score b) = [] :=
        List.filter_eq_nil_iff.2 fun b hb => by simpa using (hle b hb).le
      have hnone' : l.filter (fun b => score b = c) = [] :=
        List.filter_eq_nil_iff.2 fun b hb => by simpa using (hle b hb).ne
      have hall : l.filter (fun b => score b < c) = l :=
        List.filter_eq_self.2 fun b hb => by simpa using hle b hb
      simp [hgt, hgt.ne, hgt.not_gt, hnone, hnone', hall]

theorem filter_rank (l : List α) (c : σ) :
    (rank score l).filter (fun a => score a = c) = l.filter (fun a => score a = c) := by
  have hlevel : (l.filter fun a => score a = c).Pairwise
      fun a b => decide (score b ≤ score a) = true := by
    refine List.pairwise_of_forall_mem_list fun a ha b hb => ?_
    simp only [List.mem_filter, decide_eq_true_eq] at ha hb
    rw [ha.2, hb.2, decide_eq_true_eq]
  have hsub : (l.filter fun a => score a = c).Sublist (rank score l) :=
    List.sublist_mergeSort (fun a b c hab hbc => by
      rw [decide_eq_true_eq] at hab hbc ⊢
      exact hbc.trans hab) (fun a b => by simpa using le_total (score b) (score a)) hlevel
      List.filter_sublist
  have hfilter := hsub.filter fun a => score a = c
  rw [List.filter_filter] at hfilter
  simp only [Bool.and_self] at hfilter
  exact (hfilter.eq_of_length ((rank_perm l).filter _).length_eq.symm).symm

theorem mem_iff_of_filter {l m : List α}
    (h : ∀ c, l.filter (fun a => score a = c) = m.filter (fun a => score a = c)) (a : α) :
    a ∈ l ↔ a ∈ m := by
  have ha := congrArg (a ∈ ·) (h (score a))
  simpa [List.mem_filter] using ha

theorem Ranked.ext {l m : List α} (hl : Ranked score l) (hm : Ranked score m)
    (h : ∀ c, l.filter (fun a => score a = c) = m.filter (fun a => score a = c)) : l = m := by
  induction l generalizing m with
  | nil =>
    refine (List.eq_nil_iff_forall_not_mem.2 fun a ha => ?_).symm
    exact List.not_mem_nil ((mem_iff_of_filter h a).2 ha)
  | cons a l ih =>
    have hmem := mem_iff_of_filter h
    rcases m with _ | ⟨b, m⟩
    · exact absurd ((hmem a).1 List.mem_cons_self) List.not_mem_nil
    obtain ⟨hla, hl'⟩ := List.pairwise_cons.1 hl
    obtain ⟨hmb, hm'⟩ := List.pairwise_cons.1 hm
    -- the first entries have the same score, and so are the same
    have hab : score a = score b := by
      refine le_antisymm ?_ ?_
      · rcases List.mem_cons.1 ((hmem a).1 List.mem_cons_self) with rfl | ha
        · exact le_rfl
        · exact hmb a ha
      · rcases List.mem_cons.1 ((hmem b).2 List.mem_cons_self) with rfl | hb
        · exact le_rfl
        · exact hla b hb
    have hfirst := h (score a)
    rw [List.filter_cons_of_pos (by simp), List.filter_cons_of_pos (by simp [hab])] at hfirst
    obtain rfl := (List.cons.inj hfirst).1
    have htail : ∀ c, l.filter (fun a => score a = c) = m.filter (fun a => score a = c) := by
      intro c
      have hc := h c
      by_cases hac : score a = c
      · rw [List.filter_cons_of_pos (by simpa using hac),
          List.filter_cons_of_pos (by simpa using hac)] at hc
        exact (List.cons.inj hc).2
      · rwa [List.filter_cons_of_neg (by simpa using hac),
          List.filter_cons_of_neg (by simpa using hac)] at hc
    rw [ih hl' hm' htail]

/-- Ranking what is made of a ranked list, entry by entry with the scores kept, is ranking what is
made of the list. -/
theorem rank_filterMap_rank {score' : β → σ} {g : α → Option β}
    (h : ∀ a b, g a = some b → score' b = score a) (l : List α) :
    rank score' ((rank score l).filterMap g) = rank score' (l.filterMap g) := by
  have hlevel : ∀ (l : List α) (c : σ), (l.filterMap g).filter (fun b => score' b = c) =
      (l.filter fun a => score a = c).filterMap g := by
    intro l c
    induction l with
    | nil => rfl
    | cons a l ih =>
      rw [List.filterMap_cons, List.filter_cons]
      cases hg : g a with
      | none =>
        rw [ih]
        split_ifs
        · rw [List.filterMap_cons, hg]
        · rfl
      | some b =>
        rw [List.filter_cons, h a b hg, ih]
        split_ifs
        · rw [List.filterMap_cons, hg]
        · rfl
  refine (ranked_rank _).ext (ranked_rank _) fun c => ?_
  rw [filter_rank, filter_rank, hlevel, hlevel, filter_rank]

end Ranking
