import Wkp.Core.Frontmatter
import Mathlib.Data.List.Infix

/-!
# Tiers

* `Tier.computeTier` : what a harness may see at session start, from the path of an item, its
  frontmatter, whether its last commit is signed by a human, and today's date.
* `Tier.civilFromDays` : a day count to a calendar date.
* `Tier.computeTier_le_one_iff` : what is below tier 2.
-/

namespace Wkp

open Rust

/-- A calendar date. -/
structure Date where
  /-- The year. -/
  year : ℤ
  /-- The month, from 1. -/
  month : ℕ
  /-- The day of the month, from 1. -/
  day : ℕ
  deriving DecidableEq, Repr

namespace Date

/-- Earlier in the calendar. -/
instance : LT Date where
  lt a b := a.year < b.year ∨ (a.year = b.year ∧
    (a.month < b.month ∨ (a.month = b.month ∧ a.day < b.day)))

instance (a b : Date) : Decidable (a < b) :=
  inferInstanceAs (Decidable (a.year < b.year ∨ (a.year = b.year ∧
    (a.month < b.month ∨ (a.month = b.month ∧ a.day < b.day)))))

/-- A date that `YYYY-MM-DD` can write. -/
def Valid (date : Date) : Prop :=
  (0 ≤ date.year ∧ date.year ≤ 9999) ∧ (1 ≤ date.month ∧ date.month ≤ 12) ∧
    (1 ≤ date.day ∧ date.day ≤ 31)

instance (date : Date) : Decidable date.Valid :=
  inferInstanceAs (Decidable ((0 ≤ date.year ∧ date.year ≤ 9999) ∧
    (1 ≤ date.month ∧ date.month ≤ 12) ∧ (1 ≤ date.day ∧ date.day ≤ 31)))

end Date

namespace Tier

/-- The calendar date of a day counted from 1970-01-01. -/
def civilFromDays (z : ℤ) : Date :=
  let z := z + 719468
  let era := (if z ≥ 0 then z else z - 146096).tdiv 146097
  let doe := (z - era * 146097).toNat
  let yoe := (doe - doe / 1460 + doe / 36524 - doe / 146096) / 365
  let y := (yoe : ℤ) + era * 400
  let doy := doe - (365 * yoe + yoe / 4 - yoe / 100)
  let mp := (5 * doy + 2) / 153
  let d := doy - (153 * mp + 2) / 5 + 1
  let m := if mp < 10 then mp + 3 else mp - 9
  ⟨if m ≤ 2 then y + 1 else y, m, d⟩

/-- The decimal digits of `n`, at least `width` of them. -/
def padded (width n : ℕ) : Str :=
  let digits := (Nat.repr n).toList
  List.replicate (width - digits.length) '0' ++ digits

/-- `{year:04}-{month:02}-{day:02}`. -/
def isoDate (date : Date) : Str :=
  let year := if date.year < 0 then '-' :: padded 3 date.year.natAbs
    else padded 4 date.year.natAbs
  year ++ '-' :: (padded 2 date.month ++ '-' :: padded 2 date.day)

/-- Today's date, for a number of days since the epoch. -/
def todayIsoDate (today : ℕ) : Str := isoDate (civilFromDays today)

/-- Whether an expiry date has passed.  None when the tenth byte is not the end of a character:
slicing there panics. -/
def isExpired (today : ℕ) (expires : Str) : Option Bool :=
  if byteLength expires < 10 then some false
  else (takeBytes 10 expires).map fun head => decide (head < todayIsoDate today)

/-- The path is in an inbox. -/
def inInbox (path : Str) : Bool :=
  (stripPrefix path "inbox/".toList).isSome || decide ("/inbox/".toList <:+: path)

/-- The tier by type alone; instructions need a path under `user/` or a project. -/
def typeTier (path : Str) : Option ItemType → ℕ
  | some .instruction =>
    if (stripPrefix path "user/".toList).isSome ∨ "projects/".toList <:+: path then 0 else 2
  | some .projectState => 0
  | some .feedback | some .knowledge => 1
  | _ => 2

/-- The tier of an item; none when it panics. -/
def computeTier (today : ℕ) (path : Str) (fm : Frontmatter) (humanSigned : Bool) : Option ℕ :=
  if inInbox path then some 2
  else if !humanSigned then some 2
  else
    (match fm.expires with
      | none => some false
      | some expires => isExpired today expires).map
      fun expired : Bool => if expired then 2 else typeTier path fm.itemType

/-- The tokens of an item, or a quarter of its characters. -/
def estimateTokens (fm : Frontmatter) (body : Str) : ℕ :=
  fm.tokens.getD (max (body.length % 2 ^ 32 / 4) 1)

/-! ### Below tier 2 -/

/-- What can be below tier 2 on some day: a reviewed item, outside the inboxes, of a type that is
injected. -/
def Eligible (path : Str) (fm : Frontmatter) (humanSigned : Bool) : Prop :=
  inInbox path = false ∧ humanSigned = true ∧ typeTier path fm.itemType ≤ 1

instance (path : Str) (fm : Frontmatter) (humanSigned : Bool) :
    Decidable (Eligible path fm humanSigned) := inferInstanceAs (Decidable (_ ∧ _))

/-- **The gate**: a tier below 2 needs an eligible item that has not expired. -/
theorem computeTier_le_one_iff {today : ℕ} {path : Str} {fm : Frontmatter} {humanSigned : Bool}
    {tier : ℕ} (h : computeTier today path fm humanSigned = some tier) :
    tier ≤ 1 ↔ Eligible path fm humanSigned ∧
      ∀ expires ∈ fm.expires, isExpired today expires = some false := by
  rw [computeTier] at h
  rw [Eligible]
  split_ifs at h with hin hs
  · obtain rfl : 2 = tier := Option.some.inj h
    simp [hin]
  · obtain rfl : 2 = tier := Option.some.inj h
    have : humanSigned = false := by simpa using hs
    simp [this]
  · have hin : inInbox path = false := by simpa using hin
    have hs : humanSigned = true := by simpa using hs
    obtain ⟨expired, hexp, rfl⟩ := Option.map_eq_some_iff.1 h
    cases hfm : fm.expires with
    | none =>
      rw [hfm] at hexp
      obtain rfl : false = expired := Option.some.inj hexp
      simp [hin, hs]
    | some expires =>
      rw [hfm] at hexp
      cases expired <;> simp [hin, hs, show isExpired today expires = _ from hexp]

end Tier

end Wkp
