import Mathlib.Data.List.Infix
import Mathlib.Tactic.SplitIfs

/-!
# Patterns in slices

* `Rust.positionOf` : where a pattern is found first.
* `Rust.positionOf_append` : what cannot start a match is passed over.
* `Rust.positionOf_eq_none_iff` : when there is no match.
-/

namespace Rust

variable {α : Type*} [DecidableEq α]

/-- `windows(n).position(|w| w == pat)`, for the length `n` of a pattern that is not empty. -/
def positionOf (pat : List α) : List α → Option ℕ
  | [] => none
  | a :: l => if pat <+: a :: l then some 0 else (positionOf pat l).map (· + 1)

variable {pat l m : List α}

theorem positionOf_of_isPrefix (hpat : pat ≠ []) (h : pat <+: l) : positionOf pat l = some 0 := by
  cases l with
  | nil => exact absurd (List.prefix_nil.1 h) hpat
  | cons a l => exact if_pos h

theorem positionOf_append (h : ∀ l', l' ≠ [] → l' <:+ l → ¬ pat <+: l' ++ m) :
    positionOf pat (l ++ m) = (positionOf pat m).map (· + l.length) := by
  induction l with
  | nil => exact Option.map_id'.symm
  | cons a l ih =>
    have hrest := ih fun l' hne hsuffix => h l' hne (hsuffix.trans (List.suffix_cons a l))
    have hhere : ¬ pat <+: a :: (l ++ m) := h (a :: l) (List.cons_ne_nil a l) List.suffix_rfl
    rw [List.cons_append, positionOf, if_neg hhere, hrest, Option.map_map]
    rfl

theorem positionOf_eq_none_iff (hpat : pat ≠ []) : positionOf pat l = none ↔ ¬ pat <:+: l := by
  induction l with
  | nil => exact iff_of_true rfl fun h => hpat (List.infix_nil.1 h)
  | cons a l ih =>
    rw [List.infix_cons_iff, not_or, ← ih, positionOf]
    by_cases hbegins : pat <+: a :: l
    · rw [if_pos hbegins]
      exact iff_of_false (Option.some_ne_none 0) fun h => h.1 hbegins
    · rw [if_neg hbegins, Option.map_eq_none_iff, and_iff_right hbegins]

end Rust
