import Mathlib.Data.List.AList

/-!
# Association lists, all entries at once

* `Assoc.mapVal` : a change of the values; it commutes with lookups and inserts.
* `Assoc.keep` : the entries whose keys satisfy a condition.
-/

namespace Assoc

variable {κ β γ : Type*}

/-- Change every value. -/
def mapVal (f : β → γ) (t : AList fun _ : κ => β) : AList fun _ : κ => γ :=
  ⟨t.entries.map (.map id fun _ => f), t.nodupKeys.map₂ _ _⟩

/-- Keep the entries whose keys satisfy a condition. -/
def keep (p : κ → Bool) (t : AList fun _ : κ => β) : AList fun _ : κ => β :=
  ⟨t.entries.filter fun e => p e.1, t.nodupKeys.sublist List.filter_sublist⟩

theorem mapVal_keep (f : β → γ) (p : κ → Bool) (t : AList fun _ : κ => β) :
    mapVal f (keep p t) = keep p (mapVal f t) := by
  refine AList.ext ?_
  simp only [mapVal, keep, List.filter_map]
  rfl

variable [DecidableEq κ]

theorem lookup_mapVal (f : β → γ) (t : AList fun _ : κ => β) (k : κ) :
    (mapVal f t).lookup k = (t.lookup k).map f :=
  List.dlookup_map₂ k

theorem mapVal_insert (f : β → γ) (t : AList fun _ : κ => β) (k : κ) (b : β) :
    mapVal f (t.insert k b) = (mapVal f t).insert k (f b) := by
  refine AList.ext ?_
  simp only [mapVal, AList.entries_insert, List.map_cons, List.kerase, List.eraseP_map]
  rfl

theorem lookup_keep_eq_some_iff {p : κ → Bool} {t : AList fun _ : κ => β} {k : κ} {b : β} :
    (keep p t).lookup k = some b ↔ p k = true ∧ t.lookup k = some b := by
  rw [← Option.mem_def, AList.mem_lookup_iff, keep, List.mem_filter, ← AList.mem_lookup_iff,
    Option.mem_def, and_comm]

end Assoc
