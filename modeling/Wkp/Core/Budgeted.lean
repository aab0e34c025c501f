import Wkp.Core.Filtered

/-!
# What the budget keeps

`apply_budget` adds up the tokens of the hits as it keeps them.

* `Index.KeepsLongest` : the hits kept are the longest affordable prefix, or the first hit alone.
* `Index.applyBudgetU64_eq` : the 64 bits of the running total are enough.
* `Index.applyBudget_longest` : **the budget keeps the longest affordable prefix; a larger budget
  keeps more, and the same budget again keeps the same.**
-/

namespace Wkp

open Rust

namespace Index

/-- The tokens of the hits together. -/
def totalTokens (hits : List SearchHit) : ℕ := (hits.map SearchHit.tokens).sum

/-- The hits together are within the budget. -/
def Affordable (budget : Option ℕ) (hits : List SearchHit) : Prop :=
  ∀ b ∈ budget, totalTokens hits ≤ b

/-- The hits that are kept are the longest affordable prefix of the hits, or the first hit alone when
it is not affordable. -/
structure KeepsLongest (budget : Option ℕ) (hits kept : List SearchHit) : Prop where
  /-- They are a prefix. -/
  isPrefix : kept <+: hits
  /-- The first hit is kept alone when it is not affordable. -/
  alone : ∀ hit ∈ hits.head?, ¬ Affordable budget [hit] → kept = [hit]
  /-- Otherwise they are affordable. -/
  affordable : (∀ hit ∈ hits.head?, Affordable budget [hit]) → Affordable budget kept
  /-- No affordable prefix is longer. -/
  longest : ∀ p, p <+: hits → Affordable budget p → p <+: kept

/-! ### The running total -/

/-- The loop of `apply_budget` with a total of 64 bits; none when an addition overflows. -/
def applyBudgetLoopU64 (budget : ℕ) :
    List SearchHit → ℕ → List SearchHit → Option (List SearchHit)
  | [], _, kept => some kept
  | hit :: hits, spent, kept =>
    let wouldSpend := spent + hit.tokens
    if 2 ^ 64 ≤ wouldSpend then none
    else if kept ≠ [] ∧ budget < wouldSpend then some kept
    else applyBudgetLoopU64 budget hits wouldSpend (kept ++ [hit])

/-- `apply_budget` with a total of 64 bits. -/
def applyBudgetU64 (hits : List SearchHit) : Option ℕ → Option (List SearchHit)
  | none => some hits
  | some budget => applyBudgetLoopU64 budget hits 0 []

/-- What is spent stays within 32 bits: it is nothing, the tokens of the first hit, or within the
budget. -/
theorem applyBudgetLoopU64_eq {budget spent : ℕ} {hits kept : List SearchHit}
    (hbudget : budget < 2 ^ 32) (htokens : ∀ hit ∈ hits, hit.tokens < 2 ^ 32)
    (hspent : spent < 2 ^ 32) (hkept : kept = [] → spent = 0) :
    applyBudgetLoopU64 budget hits spent kept = some (applyBudgetLoop budget hits spent kept) := by
  induction hits generalizing spent kept with
  | nil => rfl
  | cons hit hits ih =>
    have hhit := htokens hit List.mem_cons_self
    have hrest : ∀ hit ∈ hits, hit.tokens < 2 ^ 32 := fun h hm =>
      htokens h (List.mem_cons_of_mem _ hm)
    have hfits : ¬ 2 ^ 64 ≤ spent + hit.tokens := by omega
    rw [applyBudgetLoopU64, applyBudgetLoop, if_neg hfits]
    by_cases hstop : kept ≠ [] ∧ budget < spent + hit.tokens
    · rw [if_pos hstop, if_pos hstop]
    · rw [if_neg hstop, if_neg hstop]
      refine ih hrest ?_ (by simp)
      by_cases hk : kept = []
      · rw [hkept hk]
        omega
      · have := not_lt.1 fun hlt => hstop ⟨hk, hlt⟩
        omega

/-- The 64 bits of the running total are enough for a budget and tokens of 32 bits. -/
theorem applyBudgetU64_eq {budget : Option ℕ} {hits : List SearchHit}
    (hbudget : ∀ b ∈ budget, b < 2 ^ 32) (htokens : ∀ hit ∈ hits, hit.tokens < 2 ^ 32) :
    applyBudgetU64 hits budget = some (applyBudget hits budget) := by
  cases budget with
  | none => rfl
  | some b => exact applyBudgetLoopU64_eq (hbudget b rfl) htokens (by omega) fun _ => rfl

/-! ### The prefix -/

theorem totalTokens_le_of_isPrefix {p q : List SearchHit} (h : p <+: q) :
    totalTokens p ≤ totalTokens q := by
  obtain ⟨r, rfl⟩ := h
  rw [totalTokens, totalTokens, List.map_append, List.sum_append]
  exact Nat.le_add_right _ _

theorem Affordable.of_isPrefix {budget : Option ℕ} {p q : List SearchHit}
    (hq : Affordable budget q) (h : p <+: q) : Affordable budget p := fun b hb =>
  (totalTokens_le_of_isPrefix h).trans (hq b hb)

/-- The budget leaves room for the first hit, and for another one exactly when the hits up to it are
affordable. -/
theorem room_iff {budget : Option ℕ} {hits : List SearchHit} {k : ℕ} :
    Room budget hits k ↔ k = 0 ∨ Affordable budget (hits.take (k + 1)) := Iff.rfl

theorem lt_length_applyBudget_iff {budget : Option ℕ} {hits : List SearchHit} {k : ℕ} :
    k < (applyBudget hits budget).length ↔ k < hits.length ∧ Room budget hits k := by
  constructor
  · intro hk
    obtain ⟨hhit, hroom⟩ := getElem?_applyBudget.1 (List.getElem?_eq_getElem hk)
    exact ⟨(List.getElem?_eq_some_iff.1 hhit).1, hroom⟩
  · rintro ⟨hk, hroom⟩
    have hget := getElem?_applyBudget.2 ⟨List.getElem?_eq_getElem hk, hroom⟩
    exact (List.getElem?_eq_some_iff.1 hget).1

theorem applyBudget_keepsLongest (hits : List SearchHit) (budget : Option ℕ) :
    KeepsLongest budget hits (applyBudget hits budget) := by
  have hpre := applyBudget_isPrefix hits budget
  have htake := List.prefix_iff_eq_take.1 hpre
  refine ⟨hpre, ?_, ?_, ?_⟩
  · intro hit hhit hnot
    -- no hit after the first is kept, since its prefix has the first hit in it
    obtain ⟨rest, rfl⟩ : ∃ rest, hits = hit :: rest := by
      cases hits with
      | nil => cases hhit
      | cons first rest => exact ⟨rest, by rw [Option.some.inj hhit]⟩
    have hone : (applyBudget (hit :: rest) budget).length = 1 := by
      refine le_antisymm (not_lt.1 fun hlt => ?_)
        (lt_length_applyBudget_iff.2 ⟨Nat.succ_pos _, .inl rfl⟩)
      rcases room_iff.1 (lt_length_applyBudget_iff.1 hlt).2 with h | h
      · cases h
      · exact hnot (h.of_isPrefix ⟨rest.take 1, rfl⟩)
    rw [htake, hone]
    rfl
  · intro hfirst
    cases hlen : (applyBudget hits budget).length with
    | zero =>
      rw [List.eq_nil_of_length_eq_zero hlen]
      exact fun b _ => Nat.zero_le b
    | succ k =>
      have hk : k < (applyBudget hits budget).length := by omega
      rw [htake, hlen]
      rcases room_iff.1 (lt_length_applyBudget_iff.1 hk).2 with rfl | h
      · cases hits with
        | nil => exact fun b _ => Nat.zero_le b
        | cons first rest => exact hfirst first rfl
      · exact h
  · intro p hp hafford
    refine List.prefix_of_prefix_length_le hp hpre ?_
    cases hlen : p.length with
    | zero => exact Nat.zero_le _
    | succ k =>
      refine lt_length_applyBudget_iff.2 ⟨?_, room_iff.2 (.inr ?_)⟩
      · have := hp.length_le
        omega
      · rwa [← hlen, ← List.prefix_iff_eq_take.1 hp]

theorem applyBudget_isPrefix_of_le {budget budget' : Option ℕ} (hits : List SearchHit)
    (h : ∀ b' ∈ budget', ∃ b ∈ budget, b ≤ b') :
    applyBudget hits budget <+: applyBudget hits budget' := by
  refine List.prefix_of_prefix_length_le (applyBudget_isPrefix hits budget)
    (applyBudget_isPrefix hits budget') (not_lt.1 fun hlt => ?_)
  obtain ⟨hk, hroom⟩ := lt_length_applyBudget_iff.1 hlt
  refine absurd (lt_length_applyBudget_iff.2 ⟨hk, ?_⟩) (lt_irrefl _)
  refine hroom.imp_right fun hafford b' hb' => ?_
  obtain ⟨b, hb, hle⟩ := h b' hb'
  exact (hafford b hb).trans hle

theorem applyBudget_idempotent (hits : List SearchHit) (budget : Option ℕ) :
    applyBudget (applyBudget hits budget) budget = applyBudget hits budget := by
  refine (applyBudget_isPrefix _ budget).eq_of_length_le (not_lt.1 fun hlt => ?_)
  obtain ⟨-, hroom⟩ := lt_length_applyBudget_iff.1 hlt
  refine absurd (lt_length_applyBudget_iff.2 ⟨hlt, room_iff.2 ?_⟩) (lt_irrefl _)
  exact (room_iff.1 hroom).imp_right fun hafford =>
    hafford.of_isPrefix ((applyBudget_isPrefix hits budget).take _)

/-- **The budget keeps the longest affordable prefix**, or the first hit alone.  No addition
overflows, a larger budget keeps at least as much, and the same budget again keeps the same. -/
theorem applyBudget_longest (hits : List SearchHit) (budget : Option ℕ)
    (htokens : ∀ hit ∈ hits, hit.tokens < 2 ^ 32) (hbudget : ∀ b ∈ budget, b < 2 ^ 32) :
    applyBudgetU64 hits budget = some (applyBudget hits budget) ∧
      KeepsLongest budget hits (applyBudget hits budget) ∧
      (∀ larger : Option ℕ, (∀ b' ∈ larger, ∃ b ∈ budget, b ≤ b') →
        (applyBudget hits budget).length ≤ (applyBudget hits larger).length) ∧
      applyBudget (applyBudget hits budget) budget = applyBudget hits budget :=
  ⟨applyBudgetU64_eq hbudget htokens, applyBudget_keepsLongest hits budget,
    fun _ h => (applyBudget_isPrefix_of_le hits h).length_le, applyBudget_idempotent hits budget⟩

/-- Hits with the given tokens. -/
def exampleHits (tokens : List ℕ) : List SearchHit :=
  tokens.map fun n => ⟨"a.md".toList, [], 1, 0, n, 0⟩

theorem applyBudget_longest_example : KeepsLongest (some 10) (exampleHits [4, 6, 0, 1])
    (exampleHits [4, 6, 0]) :=
  (applyBudget_longest (exampleHits [4, 6, 0, 1]) (some 10) (by decide) (by decide)).2.1

/-- A first hit over the budget is kept, and not the empty one behind it. -/
example : applyBudget (exampleHits [11, 0]) (some 10) = exampleHits [11] := by decide

end Index

end Wkp
