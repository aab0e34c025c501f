import Mathlib.Data.Int.Order.Basic
import Mathlib.Algebra.Order.Group.Unbundled.Int
import Mathlib.Algebra.Ring.Nat

/-!
# Machine arithmetic

Operations on `i64` that panic in a build with overflow checks, and numbers as a build without them has
them.

* `Rust.checkI64` : a result that must fit.
* `Rust.mulI64`, `Rust.subI64`, `Rust.divEuclidI64`, `Rust.remEuclidI64` : the operations.
* `Rust.divEuclidI64_eq`, `Rust.remEuclidI64_eq` : what they are on numbers that are not negative.
* `Rust.wrapI32`, `Rust.wrapI64` : a number that wraps around.
-/

namespace Rust

/-- The largest `i64`. -/
def maxI64 : ℤ := 2 ^ 63 - 1

/-- The result of an operation; none when it overflows. -/
def checkI64 (n : ℤ) : Option ℤ := if -2 ^ 63 ≤ n ∧ n ≤ maxI64 then some n else none

/-- `a * b`. -/
def mulI64 (a b : ℤ) : Option ℤ := checkI64 (a * b)

/-- `a - b`. -/
def subI64 (a b : ℤ) : Option ℤ := checkI64 (a - b)

/-- `a.div_euclid(b)`. -/
def divEuclidI64 (a b : ℤ) : Option ℤ := if b = 0 then none else checkI64 (a / b)

/-- `a.rem_euclid(b)`, which is computed with the quotient. -/
def remEuclidI64 (a b : ℤ) : Option ℤ :=
  if b = 0 then none else (checkI64 (a / b)).map fun _ => a % b

theorem checkI64_eq {n : ℤ} (h : 0 ≤ n) (hle : n ≤ maxI64) : checkI64 n = some n :=
  if_pos ⟨by omega, hle⟩

theorem checkI64_eq_none_iff {n : ℤ} (h : 0 ≤ n) : checkI64 n = none ↔ maxI64 < n := by
  by_cases hle : n ≤ maxI64
  · rw [checkI64_eq h hle]
    exact iff_of_false (Option.some_ne_none n) (not_lt.2 hle)
  · rw [checkI64, if_neg fun hn => hle hn.2]
    exact iff_of_true rfl (not_le.1 hle)

variable {a b : ℤ}

theorem ediv_le_maxI64 (ha : 0 ≤ a) (hle : a ≤ maxI64) : a / b ≤ maxI64 :=
  (Int.ediv_le_self b ha).trans hle

theorem divEuclidI64_eq (ha : 0 ≤ a) (hle : a ≤ maxI64) (hb : 0 < b) :
    divEuclidI64 a b = some (a / b) := by
  rw [divEuclidI64, if_neg hb.ne', checkI64_eq (Int.ediv_nonneg ha hb.le) (ediv_le_maxI64 ha hle)]

theorem remEuclidI64_eq (ha : 0 ≤ a) (hle : a ≤ maxI64) (hb : 0 < b) :
    remEuclidI64 a b = some (a % b) := by
  rw [remEuclidI64, if_neg hb.ne', checkI64_eq (Int.ediv_nonneg ha hb.le) (ediv_le_maxI64 ha hle)]
  rfl

/-- A number as an `i32`, where an overflow wraps around. -/
def wrapI32 (n : ℤ) : ℤ := Int.bmod n (2 ^ 32)

/-- A number as an `i64`, where an overflow wraps around. -/
def wrapI64 (n : ℤ) : ℤ := Int.bmod n (2 ^ 64)

/-- The first number that does not fit an `i32`. -/
def boundI32 : ℕ := 2 ^ 31

theorem wrapI32_add_one (n : ℤ) : wrapI32 (wrapI32 n + 1) = wrapI32 (n + 1) := Int.bmod_add_bmod

theorem wrapI32_sub_one (n : ℤ) : wrapI32 (wrapI32 n - 1) = wrapI32 (n - 1) := Int.bmod_sub_bmod

theorem wrapI32_neg_iff {n : ℕ} (h : n ≤ boundI32) : wrapI32 n < 0 ↔ n = boundI32 := by
  rw [boundI32] at h ⊢
  rw [wrapI32, Int.bmod_def]
  omega

theorem wrapI32_eq_one_iff {n : ℕ} (h : n ≤ boundI32) : wrapI32 n = 1 ↔ n = 1 := by
  rw [boundI32] at h
  rw [wrapI32, Int.bmod_def]
  omega

end Rust
