import Mathlib.Logic.Function.Basic
import Mathlib.Order.BoundedOrder.Basic
import Wkp.Lib.Trace

/-!
# Values with one writer each

Every value has one writer, who only ever adds to it.  Others see copies: those that were published at
some place, and those that were fetched from a place.  A copy may be old at any time.

* `Replicas` : the values and their copies; `Replicas.Step` : what happens to them.
* `Replicas.Behind` : no copy has what its writer does not have.
* `Replicas.Run.behind`, `Replicas.Run.master_le` : every run keeps that, and only adds to the values.
* `Replicas.Run.shared_le` : what is published at a place that is not replaced stays published.
-/

/-- The values of the writers, and the copies of them. -/
@[ext] structure Replicas (κ ρ μ α : Type*) where
  /-- What the writer of a value has. -/
  master : κ → α
  /-- What is published of it at a place. -/
  shared : ρ → κ → α
  /-- What was last seen of it by an observer. -/
  seen : μ → κ → α

namespace Replicas

variable {κ ρ μ α : Type*}

/-- What happens to the values. -/
inductive Act (κ ρ μ : Type*)
  /-- Some writers add to their values. -/
  | work
  /-- A writer publishes its value at a place. -/
  | publish (p : ρ) (k : κ)
  /-- A place is replaced by what the writers of some values have now. -/
  | replace (p : ρ) (ks : κ → Prop)
  /-- An observer looks at some values at a place. -/
  | observe (p : ρ) (m : μ) (ks : κ → Prop)

variable [DecidableEq κ] [DecidableEq ρ] [DecidableEq μ] [Preorder α] [OrderBot α]

open Classical in
/-- The steps. -/
inductive Step : Replicas κ ρ μ α → Act κ ρ μ → Replicas κ ρ μ α → Prop
  | work {s s' : Replicas κ ρ μ α} (hmaster : s.master ≤ s'.master) (hshared : s'.shared = s.shared)
      (hseen : s'.seen = s.seen) : Step s .work s'
  | publish (s : Replicas κ ρ μ α) (p : ρ) (k : κ) : Step s (.publish p k)
      { s with shared := Function.update s.shared p (Function.update (s.shared p) k (s.master k)) }
  | replace (s : Replicas κ ρ μ α) (p : ρ) (ks : κ → Prop) : Step s (.replace p ks)
      { s with shared := Function.update s.shared p fun k => if ks k then s.master k else ⊥ }
  | observe (s : Replicas κ ρ μ α) (p : ρ) (m : μ) (ks : κ → Prop) : Step s (.observe p m ks)
      { s with seen := Function.update s.seen m fun k => if ks k then s.shared p k else s.seen m k }

/-- A run. -/
abbrev Run : Replicas κ ρ μ α → List (Act κ ρ μ) → Replicas κ ρ μ α → Prop := Trace.Run Step

/-- No copy has what its writer does not have. -/
structure Behind (s : Replicas κ ρ μ α) : Prop where
  /-- Of the published copies. -/
  shared : ∀ p, s.shared p ≤ s.master
  /-- Of those that were seen. -/
  seen : ∀ m, s.seen m ≤ s.master

variable {s s' : Replicas κ ρ μ α} {a : Act κ ρ μ} {as : List (Act κ ρ μ)}

/-! ### One step -/

theorem Step.master_le (h : Step s a s') : s.master ≤ s'.master := by
  cases h with
  | work hmaster => exact hmaster
  | publish p k => exact le_refl s.master
  | replace p ks => exact le_refl s.master
  | observe p m ks => exact le_refl s.master

theorem Step.behind (h : Step s a s') (hs : s.Behind) : s'.Behind := by
  cases h with
  | work hmaster hshared hseen =>
    refine ⟨fun p => ?_, fun m => ?_⟩
    · rw [hshared]
      exact (hs.shared p).trans hmaster
    · rw [hseen]
      exact (hs.seen m).trans hmaster
  | publish p k =>
    refine ⟨fun q => ?_, hs.seen⟩
    by_cases hq : q = p
    · subst hq
      intro j
      by_cases hj : j = k
      · simp [hj]
      · simpa [hj] using hs.shared q j
    · simpa [hq] using hs.shared q
  | replace p ks =>
    refine ⟨fun q => ?_, hs.seen⟩
    by_cases hq : q = p
    · subst hq
      intro k
      by_cases hk : ks k <;> simp [hk]
    · simpa [hq] using hs.shared q
  | observe p m ks =>
    refine ⟨hs.shared, fun n => ?_⟩
    by_cases hn : n = m
    · subst hn
      intro k
      by_cases hk : ks k
      · simpa [hk] using hs.shared p k
      · simpa [hk] using hs.seen n k
    · simpa [hn] using hs.seen n

/-- The place is replaced. -/
def Act.Replaces (p : ρ) : Act κ ρ μ → Prop
  | .replace q _ => q = p
  | _ => False

theorem Step.shared_le (h : Step s a s') (hs : s.Behind) {p : ρ} (hp : ¬ a.Replaces p) :
    s.shared p ≤ s'.shared p := by
  cases h with
  | work _ hshared => rw [hshared]
  | publish q k =>
    by_cases hq : p = q
    · subst hq
      intro j
      by_cases hj : j = k
      · subst hj
        simpa using hs.shared p j
      · simp [hj]
    · simp [hq]
  | replace q ks =>
    have hq : p ≠ q := fun h => hp h.symm
    simp [hq]
  | observe => exact le_refl (s.shared p)

/-! ### Runs -/

/-- **In every run no copy gets ahead of its writer.** -/
theorem Run.behind (run : Run s as s') (hs : s.Behind) : s'.Behind :=
  Trace.Run.invariant (fun _ _ _ hs h => h.behind hs) run hs

/-- **A run only adds to the values.** -/
theorem Run.master_le (run : Run s as s') : s.master ≤ s'.master := by
  induction run with
  | nil s => exact le_refl s.master
  | cons h _ ih => exact h.master_le.trans ih

/-- **What is published stays published** at a place that is not replaced. -/
theorem Run.shared_le (run : Run s as s') (hs : s.Behind) {p : ρ}
    (hp : ∀ a ∈ as, ¬ a.Replaces p) : s.shared p ≤ s'.shared p := by
  induction run with
  | nil s => exact le_refl (s.shared p)
  | cons h _ ih =>
    exact (h.shared_le hs (hp _ List.mem_cons_self)).trans
      (ih (h.behind hs) fun b hb => hp b (List.mem_cons_of_mem _ hb))

end Replicas
