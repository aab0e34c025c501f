import Mathlib.Algebra.BigOperators.Group.List.Basic
import Mathlib.Data.List.AList
import Mathlib.Tactic.Abel

/-!
# Totals over a table

* `Total.total` : the sum of a weight over the entries of an association list.
* `Total.total_insert`, `Total.total_replace` : what a new and a replaced entry make of it.
-/

namespace Total

variable {α M : Type*} {β : α → Type*} [DecidableEq α] [AddCommMonoid M]

/-- The sum of a weight over the entries. -/
def total (f : Sigma β → M) (l : AList β) : M := (l.entries.map f).sum

theorem total_insert (f : Sigma β → M) {l : AList β} {a : α} (b : β a) (h : a ∉ l) :
    total f (l.insert a b) = f ⟨a, b⟩ + total f l := by
  rw [total, AList.entries_insert_of_notMem h, List.map_cons, List.sum_cons, total]

theorem total_replace (f : Sigma β → M) {l : AList β} {a : α} {b₀ : β a} (b : β a)
    (h : l.lookup a = some b₀) : total f (l.insert a b) + f ⟨a, b₀⟩ = f ⟨a, b⟩ + total f l := by
  have hkey : a ∈ l.keys := AList.lookup_isSome.1 (by rw [h]; rfl)
  obtain ⟨b₁, l₁, l₂, -, hentries, hkerase⟩ := List.exists_of_kerase hkey
  have hb : b₁ = b₀ := by
    have hmem : (⟨a, b₁⟩ : Sigma β) ∈ l.entries := by rw [hentries]; simp
    exact Option.some.inj ((AList.mem_lookup_iff.2 hmem).symm.trans h)
  rw [total, AList.entries_insert, List.map_cons, List.sum_cons, hkerase, total, hentries, hb]
  simp only [List.map_append, List.map_cons, List.sum_append, List.sum_cons]
  abel

end Total
