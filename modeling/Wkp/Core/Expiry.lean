import Wkp.Core.Ledger

/-!
# Expiry when memory is read

The tier of a row is computed when the row is written and stored.  `Index.expired_iff` says when
no expired item is left in tier 0 or 1 on a later day.
-/

namespace Wkp

open Rust

namespace Index

/-- The expiry date is well formed. -/
def ExpiresOn (expires : Option Str) (date : Date) : Prop :=
  date.Valid ∧ expires = some (Tier.isoDate date)

/-- Materializing tier 0 or 1 on a day returns no item whose well-formed expiry date is
earlier. -/
def ExpiryHonoured (db : Db) (today : ℕ) : Prop :=
  ∀ tier ≤ 1, ∀ row ∈ tierRows db tier, ∀ date, ExpiresOn row.expires date →
    ¬ date < Tier.civilFromDays today

theorem mem_tierRows {db : Db} {tier : ℕ} {row : Row} :
    row ∈ tierRows db tier ↔ row ∈ db.items.map Prod.snd ∧ row.tier = tier := by
  rw [tierRows, List.mem_mergeSort, List.mem_filter, decide_eq_true_iff]

/-- **Expiry is honoured on a day exactly when** no item that was reviewed, of an injected type and
not yet expired when its row was last written, has a well-formed expiry date before that day. -/
theorem expired_iff (calls : List Call) (today : ℕ) (db : Db) (h : (runCalls calls).1 = some db) :
    ExpiryHonoured db today ↔
      ∀ e ∈ (runCalls calls).2,
        Tier.Eligible e.item.path e.item.frontmatter e.item.humanSigned →
        ∀ date, ExpiresOn e.item.frontmatter.expires date →
          Tier.isExpired e.day (Tier.isoDate date) = some false →
          ¬ date < Tier.civilFromDays today := by
  have hrep := represents_runCalls h
  constructor
  · intro hon e he helig date hdate hfresh
    obtain ⟨row, hrow, her⟩ := hrep.row_of_entry he
    obtain ⟨hexp, -, htier⟩ := itemRow_spec her
    have hle : row.tier ≤ 1 := by
      rw [Tier.computeTier_le_one_iff htier]
      refine ⟨helig, fun expires hm => ?_⟩
      obtain rfl : Tier.isoDate date = expires := Option.some.inj (hdate.2.symm.trans hm)
      exact hfresh
    exact hon row.tier hle row (mem_tierRows.2 ⟨hrow, rfl⟩) date (hexp ▸ hdate)
  · intro hcond tier htier row hrow date hdate
    obtain ⟨hmem, rfl⟩ := mem_tierRows.1 hrow
    obtain ⟨e, he, her⟩ := hrep.entry_of_row hmem
    obtain ⟨hexp, -, hcomp⟩ := itemRow_spec her
    obtain ⟨helig, hfresh⟩ := (Tier.computeTier_le_one_iff hcomp).1 htier
    rw [hexp] at hdate
    exact hcond e he helig date hdate (hfresh _ hdate.2)

/-- A reviewed item that expires on the day it is indexed. -/
def exampleExpiring : Item where
  path := "a.md".toList
  frontmatter := { itemType := some .projectState, expires := some "2024-10-04".toList }
  body := []
  humanSigned := true

/-- The index of `exampleExpiring`, built on 2024-10-04. -/
def exampleExpiringDb : Db := ((buildIndex 20000 [exampleExpiring]).toOption).getD createSchema

theorem expired_iff_exampleExpiring :
    (runCalls [.build 20000 [exampleExpiring]]).1 = some exampleExpiringDb ∧
      (ExpiryHonoured exampleExpiringDb 20000 ↔
        ∀ e ∈ (runCalls [.build 20000 [exampleExpiring]]).2,
          Tier.Eligible e.item.path e.item.frontmatter e.item.humanSigned →
          ∀ date, ExpiresOn e.item.frontmatter.expires date →
            Tier.isExpired e.day (Tier.isoDate date) = some false →
            ¬ date < Tier.civilFromDays 20000) := by
  have h : (runCalls [.build 20000 [exampleExpiring]]).1 = some exampleExpiringDb := by
    decide +kernel
  exact ⟨h, expired_iff _ _ _ h⟩

/-- The day of a call. -/
def Call.day : Call → ℕ
  | build today _ | update today _ _ => today

/-- An item indexed on its last day is still in tier 0 the day after. -/
theorem expired_in_tier_zero : ¬ ∀ (calls : List Call) (today : ℕ) (db : Db),
    (∀ c ∈ calls, c.day ≤ today) → (runCalls calls).1 = some db → ExpiryHonoured db today := by
  intro h
  have hon := h [.build 20000 [exampleExpiring]] 20001 exampleExpiringDb (by decide)
    (by decide +kernel)
  have hrow : ∃ row ∈ tierRows exampleExpiringDb 0, row.expires = some "2024-10-04".toList := by
    decide +kernel
  obtain ⟨row, hrow, hexp⟩ := hrow
  refine hon 0 (by decide) row hrow ⟨2024, 10, 4⟩ ⟨by decide, ?_⟩ (by decide +kernel)
  rw [hexp]
  decide +kernel

end Index

end Wkp
