import Mathlib.Data.Option.Basic
import Mathlib.Tactic.SplitIfs

/-!
# Histories of versions

* `History` : versions on top of each other, and merges of two.
* `History.IsAncestor` : one version is another, or that was made from it.
* `History.lastTouch` : the version that a view of the current one comes from, found by following
  the first parent with the same view.
-/

/-- A version with a label, and the versions it was made from. -/
inductive History (τ σ : Type*)
  | root (tree : τ) (label : σ)
  | child (tree : τ) (label : σ) (parent : History τ σ)
  | merge (tree : τ) (label : σ) (first second : History τ σ)
  deriving DecidableEq

namespace History

variable {τ σ β : Type*}

/-- The version. -/
def tree : History τ σ → τ
  | root tree _ | child tree _ _ | merge tree _ _ _ => tree

/-- The label. -/
def label : History τ σ → σ
  | root _ label | child _ label _ | merge _ label _ _ => label

/-- The versions that it was made from. -/
def parents : History τ σ → List (History τ σ)
  | root _ _ => []
  | child _ _ parent => [parent]
  | merge _ _ first second => [first, second]

/-- `a` is the version, or the version was made from it. -/
def IsAncestor (a : History τ σ) : History τ σ → Prop
  | root tree label => a = root tree label
  | child tree label parent => a = child tree label parent ∨ IsAncestor a parent
  | merge tree label first second =>
    a = merge tree label first second ∨ IsAncestor a first ∨ IsAncestor a second

instance IsAncestor.decidable [DecidableEq τ] [DecidableEq σ] (a : History τ σ) :
    (h : History τ σ) → Decidable (IsAncestor a h)
  | root tree label => inferInstanceAs (Decidable (a = root tree label))
  | child tree label parent =>
    let _ := decidable a parent
    inferInstanceAs (Decidable (a = child tree label parent ∨ IsAncestor a parent))
  | merge tree label first second =>
    let _ := decidable a first
    let _ := decidable a second
    inferInstanceAs
      (Decidable (a = merge tree label first second ∨ IsAncestor a first ∨ IsAncestor a second))

@[simp] theorem IsAncestor.refl (h : History τ σ) : IsAncestor h h := by
  cases h with
  | root tree label => exact rfl
  | child tree label parent => exact .inl rfl
  | merge tree label first second => exact .inl rfl

theorem IsAncestor.trans {a b c : History τ σ} (hab : IsAncestor a b) (hbc : IsAncestor b c) :
    IsAncestor a c := by
  induction c with
  | root tree label =>
    obtain rfl : b = root tree label := hbc
    exact hab
  | child tree label parent ih =>
    rcases hbc with rfl | hbc
    · exact hab
    · exact .inr (ih hbc)
  | merge tree label first second ih₁ ih₂ =>
    rcases hbc with rfl | hbc | hbc
    · exact hab
    · exact .inr (.inl (ih₁ hbc))
    · exact .inr (.inr (ih₂ hbc))

variable [DecidableEq β] (v : τ → Option β)

/-- The version that the view of the current one comes from; none when it shows nothing and no
version on the way ever did. -/
def lastTouch : History τ σ → Option (History τ σ)
  | root tree label => if v tree = none then none else some (root tree label)
  | child tree label parent =>
    if v tree = v parent.tree then lastTouch parent else some (child tree label parent)
  | merge tree label first second =>
    if v tree = v first.tree then lastTouch first
    else if v tree = v second.tree then lastTouch second
    else some (merge tree label first second)

variable {v}

end History
