import Mathlib.Tactic.Tauto
import Mathlib.Data.List.Basic

/-!
# Three-way merging of one value

Over any type: a base value and two values made from it.

* `ThreeWay.Conflict` : both sides changed the base, differently.
* `ThreeWay.resolve` : the merged value, none exactly on a conflict (`resolve_eq_none_iff`).
* `ThreeWay.resolve_comm` : it is the same from either side.
* `ThreeWay.OneSided` : a merged value loses no change made on one side only.
* `ThreeWay.oneSided_transcribe_iff` : when a resolved value still loses none after it has been
  transcribed.
-/

namespace ThreeWay

variable {α : Type*}

/-- Both sides changed the base, to different values. -/
def Conflict (base ours theirs : α) : Prop := ours ≠ base ∧ theirs ≠ base ∧ ours ≠ theirs

/-- `merged` carries a change that one side made alone, and the base when neither side changed
it. -/
def OneSided (base ours theirs merged : α) : Prop :=
  (ours = base → merged = theirs) ∧ (theirs = base → merged = ours)

/-- The value that a side which left the base alone takes over from the other satisfies `P`. -/
def Handed (P : α → Prop) (base ours theirs : α) : Prop :=
  (ours = base → P theirs) ∧ (theirs = base → P ours)

theorem conflict_comm {base ours theirs : α} :
    Conflict base ours theirs ↔ Conflict base theirs ours := by
  constructor <;> rintro ⟨ho, ht, hne⟩ <;> exact ⟨ht, ho, hne.symm⟩

variable [DecidableEq α]

instance (base ours theirs : α) : Decidable (Conflict base ours theirs) :=
  inferInstanceAs (Decidable (_ ∧ _))

instance (base ours theirs merged : α) : Decidable (OneSided base ours theirs merged) :=
  inferInstanceAs (Decidable (_ ∧ _))

/-- The three-way rule: the side that changed wins, and two equal changes are one change. -/
def resolve (base ours theirs : α) : Option α :=
  if ours = theirs then some ours
  else if ours = base then some theirs
  else if theirs = base then some ours
  else none

theorem resolve_eq_none_iff {base ours theirs : α} :
    resolve base ours theirs = none ↔ Conflict base ours theirs := by
  rw [resolve, Conflict]
  split_ifs <;> simp_all

@[simp] theorem resolve_self (base ours : α) : resolve base ours ours = some ours := if_pos rfl

theorem resolve_base_left (base theirs : α) : resolve base base theirs = some theirs := by
  by_cases h : base = theirs
  · rw [resolve, if_pos h, h]
  · rw [resolve, if_neg h, if_pos rfl]

theorem resolve_base_right (base ours : α) : resolve base ours base = some ours := by
  by_cases h : ours = base
  · rw [resolve, if_pos h]
  · rw [resolve, if_neg h, if_neg h, if_pos rfl]

theorem resolve_comm (base ours theirs : α) :
    resolve base ours theirs = resolve base theirs ours := by
  by_cases hc : Conflict base ours theirs
  · rw [resolve_eq_none_iff.2 hc, resolve_eq_none_iff.2 (conflict_comm.1 hc)]
  by_cases ho : ours = base
  · rw [ho, resolve_base_left, resolve_base_right]
  by_cases ht : theirs = base
  · rw [ht, resolve_base_right, resolve_base_left]
  · rw [show ours = theirs from not_not.1 fun hne => hc ⟨ho, ht, hne⟩]

theorem resolve_mem {base ours theirs m : α} (h : resolve base ours theirs = some m) :
    m = ours ∨ m = theirs := by
  rw [resolve] at h
  split_ifs at h <;> simp_all

theorem oneSided_of_resolve {base ours theirs m : α} (h : resolve base ours theirs = some m) :
    OneSided base ours theirs m := by
  constructor
  · rintro rfl
    rw [resolve_base_left] at h
    exact (Option.some.inj h).symm
  · rintro rfl
    rw [resolve_base_right] at h
    exact (Option.some.inj h).symm

/-- A resolved value that is then transcribed by `f` loses no one-sided change exactly when `f`
leaves what is taken over alone. -/
theorem oneSided_transcribe_iff {base ours theirs r : α} {P : α → Prop} (f : α → α)
    (h : resolve base ours theirs = some r) (ho : f ours = ours ↔ P ours)
    (ht : f theirs = theirs ↔ P theirs) :
    OneSided base ours theirs (f r) ↔ Handed P base ours theirs := by
  have hr := oneSided_of_resolve h
  rw [Handed, ← ho, ← ht]
  constructor
  · intro hm
    exact ⟨fun hb => by rw [← hr.1 hb]; exact (hm.1 hb).trans (hr.1 hb).symm,
      fun hb => by rw [← hr.2 hb]; exact (hm.2 hb).trans (hr.2 hb).symm⟩
  · intro hm
    exact ⟨fun hb => by rw [hr.1 hb]; exact hm.1 hb, fun hb => by rw [hr.2 hb]; exact hm.2 hb⟩

end ThreeWay
