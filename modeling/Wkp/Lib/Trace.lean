import Mathlib.Data.List.Induction

/-!
# Runs of a labelled transition relation

* `Trace.Run` : a run, with the labels of its steps in order.
* `Trace.Run.map` : a run of one relation as a run of another.
* `Trace.Run.invariant` : what every step preserves holds at the end of every run.
* `Trace.Run.invariant_of_mem` : the same when only the steps of this run preserve it.
* `Trace.Run.history` : an invariant of the state and of the labels so far.
-/

namespace Trace

variable {σ ι : Type*} {step : σ → ι → σ → Prop}

/-- `Run step s is s'` : from `s`, steps labelled `is` lead to `s'`. -/
inductive Run (step : σ → ι → σ → Prop) : σ → List ι → σ → Prop
  | nil (s : σ) : Run step s [] s
  | cons {s s₁ s₂ : σ} {i : ι} {is : List ι} (h : step s i s₁) (run : Run step s₁ is s₂) :
      Run step s (i :: is) s₂

namespace Run

theorem single {s s' : σ} {i : ι} (h : step s i s') : Run step s [i] s' := .cons h (.nil _)

theorem append {s s₁ s₂ : σ} {is js : List ι} (h : Run step s is s₁) (h' : Run step s₁ js s₂) :
    Run step s (is ++ js) s₂ := by
  induction h with
  | nil => exact h'
  | cons hstep _ ih => exact .cons hstep (ih h')

theorem of_append {s s₂ : σ} {is js : List ι} (h : Run step s (is ++ js) s₂) :
    ∃ s₁, Run step s is s₁ ∧ Run step s₁ js s₂ := by
  induction is generalizing s with
  | nil => exact ⟨s, .nil s, h⟩
  | cons i is ih =>
    cases h with
    | cons hstep hrun =>
      obtain ⟨s₁, h₁, h₂⟩ := ih hrun
      exact ⟨s₁, .cons hstep h₁, h₂⟩

theorem map {κ : Type*} {step' : σ → κ → σ → Prop} (f : ι → κ)
    (hstep : ∀ s i s', step s i s' → step' s (f i) s') {s s' : σ} {is : List ι}
    (run : Run step s is s') : Run step' s (is.map f) s' := by
  induction run with
  | nil s => exact .nil s
  | cons h _ ih => exact .cons (hstep _ _ _ h) ih

theorem invariant_of_mem {I : σ → Prop} {s s' : σ} {is : List ι} (run : Run step s is s')
    (hstep : ∀ i ∈ is, ∀ s s', I s → step s i s' → I s') (hs : I s) : I s' := by
  induction run with
  | nil => exact hs
  | cons h _ ih =>
    exact ih (fun j hj => hstep j (List.mem_cons_of_mem _ hj)) (hstep _ List.mem_cons_self _ _ hs h)

/-- What every step preserves holds at the end of every run. -/
theorem invariant {I : σ → Prop} (hstep : ∀ s i s', I s → step s i s' → I s') {s s' : σ}
    {is : List ι} (run : Run step s is s') (hs : I s) : I s' :=
  run.invariant_of_mem (fun i _ s s' => hstep s i s') hs

/-- What every step preserves, of the state and of the labels so far, holds at the end of every
run. -/
theorem history {I : List ι → σ → Prop} {s₀ : σ} (hnil : I [] s₀)
    (hstep : ∀ is s i s', Run step s₀ is s → I is s → step s i s' → I (is ++ [i]) s')
    {is : List ι} {s : σ} (run : Run step s₀ is s) : I is s := by
  induction is using List.reverseRecOn generalizing s with
  | nil =>
    cases run
    exact hnil
  | append_singleton is i ih =>
    obtain ⟨s₁, h₁, h₂⟩ := run.of_append
    cases h₂ with
    | cons h hnil' =>
      cases hnil'
      exact hstep is s₁ i s h₁ (ih h₁) h

end Run

end Trace
