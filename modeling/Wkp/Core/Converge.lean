import Wkp.Core.MergeLaws

/-!
# The merge from either side

Each device merges the other's version into its own, so both sides of a merge are run.

* `Merge.Agree` : what two merged frontmatters share when they are made from either side.
* `Merge.merge_converges` : **both sides fall back together, and agree when they do not.**
-/

namespace Wkp

open Rust Frontmatter ThreeWay

namespace Merge

/-- The merged frontmatters agree: the scalar fields and the date, and the tags as sets. -/
structure Agree (m m' : Frontmatter) : Prop where
  title : m.title = m'.title
  itemType : m.itemType = m'.itemType
  scope : m.scope = m'.scope
  workspace : m.workspace = m'.workspace
  visibility : m.visibility = m'.visibility
  confidence : m.confidence = m'.confidence
  expires : m.expires = m'.expires
  updated : m.updated = m'.updated
  tags : ∀ tag, tag ∈ m.tags ↔ tag ∈ m'.tags

/-- The merge keeps both documents. -/
def FallsBack (T : CharTables) (base ours theirs : Str) : Prop :=
  merge T base ours theirs = renderConflict T ours theirs

theorem fallsBack_iff (T : CharTables) {base ours theirs : Str} :
    FallsBack T base ours theirs ↔ Diverges base ours theirs := by
  by_cases h : Diverges base ours theirs
  · exact iff_of_true (merge_of_diverges T h) h
  · exact iff_of_false (merge_ne_renderConflict T h ours theirs) h

theorem diverges_comm {base ours theirs : Str} :
    Diverges base ours theirs ↔ Diverges base theirs ours := by
  simp only [Diverges, FieldConflict]
  refine or_congr ?_ conflict_comm
  refine or_congr conflict_comm (or_congr conflict_comm (or_congr conflict_comm ?_))
  exact or_congr conflict_comm (or_congr conflict_comm (or_congr conflict_comm conflict_comm))

/-! ### The parts that are not scalar -/

theorem mem_union_iff {ours theirs : List Str} {tag : Str} :
    tag ∈ union ours theirs ↔ tag ∈ ours ∨ tag ∈ theirs := by
  refine ⟨mem_union, ?_⟩
  induction theirs generalizing ours with
  | nil => simp [union]
  | cons u theirs ih =>
    intro h
    rw [union, List.foldl_cons]
    apply ih
    split_ifs with hu
    · rcases h with h | h
      · exact .inl h
      · rcases List.mem_cons.1 h with rfl | h
        · exact .inl hu
        · exact .inr h
    · simp only [List.mem_append, List.mem_singleton]
      simp only [List.mem_cons] at h
      tauto

theorem maxUpdated_comm (ours theirs : Option Str) :
    maxUpdated ours theirs = maxUpdated theirs ours := by
  cases ours <;> cases theirs <;> simp only [maxUpdated]
  rename_i o t
  rcases lt_trichotomy o t with h | h | h
  · rw [if_pos h, if_neg (not_lt_of_gt h)]
  · rw [h]
  · rw [if_neg (not_lt_of_gt h), if_pos h]

theorem selectBody_comm {base ours theirs : Str} (h : ¬ Conflict base ours theirs) :
    selectBody base ours theirs = selectBody base theirs ours := by
  have ho := resolve_selectBody h
  have ht := resolve_selectBody (mt conflict_comm.1 h)
  rw [resolve_comm, ht] at ho
  exact (Option.some.inj ho).symm

/-- Two merges of the same sides, one from each. -/
theorem Merged.agree {b o t m m' : Frontmatter} (h : Merged b o t m) (h' : Merged b t o m') :
    Agree m m' := by
  have same : ∀ {α : Type} [DecidableEq α] {x y z v w : α},
      resolve x y z = some v → resolve x z y = some w → v = w := by
    intro α _ x y z v w hv hw
    rw [resolve_comm, hw] at hv
    exact (Option.some.inj hv).symm
  exact {
    title := same h.title h'.title
    itemType := same h.itemType h'.itemType
    scope := same h.scope h'.scope
    workspace := same h.workspace h'.workspace
    visibility := same h.visibility h'.visibility
    confidence := same h.confidence h'.confidence
    expires := same h.expires h'.expires
    updated := by rw [h.updated, h'.updated, maxUpdated_comm]
    tags := fun tag => by rw [h.tags, h'.tags, mem_union_iff, mem_union_iff, or_comm] }

/-- **Devices agree on a merge whichever side runs it.**  Both fall back or neither does; a merge
that does not fall back renders its merged frontmatter over its selected body, and from the other
side these are the same up to the order of the tags and the provenance; and a document merged with
itself never falls back. -/
theorem merge_converges (T : CharTables) (base ours theirs : Str) :
    (FallsBack T base ours theirs ↔ FallsBack T base theirs ours) ∧
    (¬ FallsBack T base ours theirs →
      merge T base ours theirs = render T (mergedOf base ours theirs) ++
        '\n' :: selectBody (parse base).body (parse ours).body (parse theirs).body ∧
      merge T base theirs ours = render T (mergedOf base theirs ours) ++
        '\n' :: selectBody (parse base).body (parse theirs).body (parse ours).body ∧
      Agree (mergedOf base ours theirs) (mergedOf base theirs ours) ∧
      selectBody (parse base).body (parse ours).body (parse theirs).body =
        selectBody (parse base).body (parse theirs).body (parse ours).body) ∧
    ¬ FallsBack T base ours ours := by
  simp only [fallsBack_iff]
  refine ⟨diverges_comm, fun h => ?_, not_diverges_self base ours⟩
  have h' : ¬ Diverges base theirs ours := mt diverges_comm.1 h
  exact ⟨merge_of_not_diverges T h, merge_of_not_diverges T h',
    (merged_mergedOf h).agree (merged_mergedOf h'), selectBody_comm fun hc => h (.inr hc)⟩

end Merge

end Wkp
