import Mathlib.Data.List.Perm.Basic
import Mathlib.Order.Lattice
import Mathlib.Order.Defs.LinearOrder

/-!
# Lists split into buckets

* `Bucket.perm_flatMap` : a list is its buckets together, in any order of the buckets.
* `Bucket.filter_ne_append_filter_eq` : a sorted list ends with its last bucket.
* `Bucket.min?_append`, `Bucket.max?_append` : the extrema of two lists together.
* `Bucket.min?_flatten`, `Bucket.max?_flatten` : the extrema of the extrema of the buckets.
* `Bucket.min?_eq_of_perm`, `Bucket.max?_eq_of_perm` : the extrema do not depend on the order.
-/

namespace Bucket

variable {α κ : Type*}

section Split

variable [DecidableEq κ] (f : α → κ)

/-- The buckets of different keys make up the elements that have one of the keys. -/
theorem perm_flatMap (l : List α) {ks : List κ} (hks : ks.Nodup) :
    (ks.flatMap fun k => l.filter (f · = k)).Perm (l.filter (f · ∈ ks)) := by
  induction ks with
  | nil => simp
  | cons k ks ih =>
    obtain ⟨hk, hks⟩ := List.nodup_cons.1 hks
    have hin : (l.filter (f · ∈ k :: ks)).filter (f · = k) = l.filter (f · = k) := by
      rw [List.filter_filter]
      exact List.filter_congr fun a _ => by
        by_cases ha : f a = k <;> simp [ha]
    have hout : (l.filter (f · ∈ k :: ks)).filter (fun a => !decide (f a = k)) =
        l.filter (f · ∈ ks) := by
      rw [List.filter_filter]
      exact List.filter_congr fun a _ => by
        by_cases ha : f a = k
        · simp [ha, hk]
        · simp [ha]
    have hsplit := List.filter_append_perm (f · = k) (l.filter (f · ∈ k :: ks))
    rw [hin, hout] at hsplit
    exact ((ih hks).append_left _).trans hsplit

/-- A sorted list ends with the bucket of its greatest key. -/
theorem filter_ne_append_filter_eq [LinearOrder κ] {l : List α}
    (h : l.Pairwise fun a b => f a ≤ f b) {k : κ} (hk : ∀ a ∈ l, f a ≤ k) :
    l.filter (f · ≠ k) ++ l.filter (f · = k) = l := by
  induction l with
  | nil => rfl
  | cons a l ih =>
    obtain ⟨ha, hl⟩ := List.pairwise_cons.1 h
    have hrest := ih hl fun b hb => hk b (List.mem_cons_of_mem _ hb)
    by_cases hak : f a = k
    · -- everything after is in the last bucket, too
      have hall : ∀ b ∈ l, f b = k := fun b hb =>
        le_antisymm (hk b (List.mem_cons_of_mem _ hb)) (hak ▸ ha b hb)
      have hnone : l.filter (f · ≠ k) = [] :=
        List.filter_eq_nil_iff.2 fun b hb => by simp [hall b hb]
      have heq : l.filter (f · = k) = l := List.filter_eq_self.2 fun b hb => by simp [hall b hb]
      simp only [List.filter_cons, hak, ne_eq, not_true, decide_false, decide_true]
      simpa [heq] using hnone
    · simp only [List.filter_cons, hak, ne_eq, not_false_eq_true, decide_true, decide_false,
        if_true, List.cons_append]
      simpa using hrest

end Split

/-! ### Extrema -/

variable [LinearOrder α]

theorem min?_append (l l' : List α) : (l ++ l').min? = l.min?.merge min l'.min? := by
  induction l with
  | nil => simp
  | cons a l ih =>
    rw [List.cons_append, List.min?_cons, List.min?_cons, ih]
    cases l.min? <;> cases l'.min? <;> simp [min_assoc]

theorem max?_append (l l' : List α) : (l ++ l').max? = l.max?.merge max l'.max? := by
  induction l with
  | nil => simp
  | cons a l ih =>
    rw [List.cons_append, List.max?_cons, List.max?_cons, ih]
    cases l.max? <;> cases l'.max? <;> simp [max_assoc]

theorem min?_flatten (d : α) {ls : List (List α)} (h : ∀ l ∈ ls, l ≠ []) :
    (ls.map fun l => l.min?.getD d).min? = ls.flatten.min? := by
  induction ls with
  | nil => rfl
  | cons l ls ih =>
    obtain ⟨hl, hls⟩ := List.forall_mem_cons.1 h
    obtain ⟨m, hm⟩ := Option.isSome_iff_exists.1 (List.isSome_min?_iff.2 hl)
    rw [List.map_cons, List.min?_cons, ih hls, List.flatten_cons, min?_append, hm]
    cases ls.flatten.min? <;> rfl

theorem max?_flatten (d : α) {ls : List (List α)} (h : ∀ l ∈ ls, l ≠ []) :
    (ls.map fun l => l.max?.getD d).max? = ls.flatten.max? := by
  induction ls with
  | nil => rfl
  | cons l ls ih =>
    obtain ⟨hl, hls⟩ := List.forall_mem_cons.1 h
    obtain ⟨m, hm⟩ := Option.isSome_iff_exists.1 (List.isSome_max?_iff.2 hl)
    rw [List.map_cons, List.max?_cons, ih hls, List.flatten_cons, max?_append, hm]
    cases ls.flatten.max? <;> rfl

theorem min?_eq_of_perm {l l' : List α} (h : l.Perm l') : l.min? = l'.min? := by
  induction h with
  | nil => rfl
  | cons a _ ih => rw [List.min?_cons, List.min?_cons, ih]
  | swap a b l =>
    rw [List.min?_cons, List.min?_cons, List.min?_cons, List.min?_cons]
    cases l.min? <;> simp [min_comm, min_left_comm]
  | trans _ _ ih₁ ih₂ => exact ih₁.trans ih₂

theorem max?_eq_of_perm {l l' : List α} (h : l.Perm l') : l.max? = l'.max? := by
  induction h with
  | nil => rfl
  | cons a _ ih => rw [List.max?_cons, List.max?_cons, ih]
  | swap a b l =>
    rw [List.max?_cons, List.max?_cons, List.max?_cons, List.max?_cons]
    cases l.max? <;> simp [max_comm, max_left_comm]
  | trans _ _ ih₁ ih₂ => exact ih₁.trans ih₂

end Bucket
