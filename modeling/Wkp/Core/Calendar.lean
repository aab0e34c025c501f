import Wkp.Core.Tier

/-!
# The calendar

`civil_from_days` turns a count of days into a date by divisions over eras of 400 years that begin on
the first of March.

* `Date.InCalendar`, `Date.tomorrow` : the Gregorian calendar, date by date.
* `Tier.civilFromDays_eq` : a day as a day of a year that begins on the first of March.
* `Tier.civilFromDays_succ` : the next day has the next date.
* `Tier.isoDate_lt_iff` : dates are in the order of their texts.
* `Tier.civilFromDays_gregorian` : **the algorithm is the calendar.**
-/

namespace Wkp

open Rust

/-! ### The calendar -/

namespace Date

/-- The year has a leap day. -/
def IsLeapYear (year : ℤ) : Prop := year % 4 = 0 ∧ (year % 100 ≠ 0 ∨ year % 400 = 0)

instance (year : ℤ) : Decidable (IsLeapYear year) :=
  inferInstanceAs (Decidable (year % 4 = 0 ∧ (year % 100 ≠ 0 ∨ year % 400 = 0)))

/-- The days of a month of a year, with or without a leap day. -/
def monthLength (leap : Bool) : ℕ → ℕ
  | 2 => if leap then 29 else 28
  | 4 | 6 | 9 | 11 => 30
  | _ => 31

/-- The days of the month of the date. -/
def daysInMonth (date : Date) : ℕ := monthLength (decide (IsLeapYear date.year)) date.month

/-- The date is in the calendar. -/
structure InCalendar (date : Date) : Prop where
  /-- The month is. -/
  month : 1 ≤ date.month ∧ date.month ≤ 12
  /-- The day is. -/
  day : 1 ≤ date.day ∧ date.day ≤ date.daysInMonth

/-- The next date of the calendar. -/
def tomorrow (date : Date) : Date :=
  if date.day < date.daysInMonth then { date with day := date.day + 1 }
  else if date.month < 12 then { date with month := date.month + 1, day := 1 }
  else ⟨date.year + 1, 1, 1⟩

theorem lt_tomorrow (date : Date) : date < date.tomorrow := by
  unfold tomorrow
  split_ifs with hday hmonth
  · exact .inr ⟨rfl, .inr ⟨rfl, Nat.lt_succ_self _⟩⟩
  · exact .inr ⟨rfl, .inl (Nat.lt_succ_self _)⟩
  · exact .inl (Int.lt_succ _)

theorem lt_iff {a b : Date} : a < b ↔ a.year < b.year ∨ (a.year = b.year ∧
    (a.month < b.month ∨ (a.month = b.month ∧ a.day < b.day))) := Iff.rfl

theorem lt_trans {a b c : Date} (hab : a < b) (hbc : b < c) : a < c := by
  rw [lt_iff] at hab hbc ⊢
  omega

theorem lt_irrefl (a : Date) : ¬ a < a := by
  rw [lt_iff]
  omega

end Date

namespace Tier

/-! ### Years of an era -/

/-- The days of an era before its year `y`, a year that begins on the first of March. -/
def eraDays (y : ℕ) : ℕ := 365 * y + y / 4 - y / 100 + y / 400

/-- The days of an era without its leap days, up to the day `doe`. -/
def plainDays (doe : ℕ) : ℕ := doe - doe / 1460 + doe / 36524 - doe / 146096

theorem plainDays_mono {a b : ℕ} (h : a ≤ b) : plainDays a ≤ plainDays b := by
  obtain ⟨n, rfl⟩ := Nat.exists_eq_add_of_le h
  clear h
  induction n with
  | zero => exact le_rfl
  | succ n ih =>
    refine ih.trans ?_
    rw [← Nat.add_assoc]
    generalize a + n = d
    unfold plainDays
    omega

theorem plainDays_eraDays : ∀ y < 400, 365 * y ≤ plainDays (eraDays y) ∧
    plainDays (eraDays (y + 1) - 1) < 365 * (y + 1) := by
  decide +kernel

theorem yearOfEra_spec {doe : ℕ} (hdoe : doe < 146097) : plainDays doe / 365 < 400 ∧
    eraDays (plainDays doe / 365) ≤ doe ∧ doe < eraDays (plainDays doe / 365 + 1) := by
  have hlast : plainDays doe / 365 < 400 := by
    have hle : plainDays doe ≤ plainDays 146096 := plainDays_mono (by omega)
    have hend : plainDays 146096 = 145999 := by decide
    omega
  refine ⟨hlast, ?_, ?_⟩
  · by_contra hlt
    generalize hy : plainDays doe / 365 = y at hlast hlt
    cases y with
    | zero => exact hlt (by simp [eraDays])
    | succ y =>
      have hle : plainDays doe ≤ plainDays (eraDays (y + 1) - 1) := plainDays_mono (by omega)
      have := (plainDays_eraDays y (by omega)).2
      omega
  · by_contra hle
    generalize hy : plainDays doe / 365 = y at hlast hle
    have hge : plainDays (eraDays (y + 1)) ≤ plainDays doe := plainDays_mono (by omega)
    by_cases hy' : y + 1 < 400
    · have := (plainDays_eraDays (y + 1) hy').1
      omega
    · obtain rfl : y = 399 := by omega
      have hend : eraDays (399 + 1) = 146097 := by decide
      omega

/-- The days before the first of March of a year, counted from that of the year 0. -/
def marchDays (y : ℤ) : ℤ := 365 * y + y / 4 - y / 100 + y / 400

/-- The month and the day of the month, from the day of a year that begins on the first of March. -/
def monthDay (doy : ℕ) : ℕ × ℕ :=
  let mp := (5 * doy + 2) / 153
  (if mp < 10 then mp + 3 else mp - 9, doy - (153 * mp + 2) / 5 + 1)

/-- The date of a day of such a year. -/
def marchDate (y : ℤ) (doy : ℕ) : Date :=
  ⟨if (monthDay doy).1 ≤ 2 then y + 1 else y, (monthDay doy).1, (monthDay doy).2⟩

theorem marchDays_era (era : ℤ) (yoe : ℕ) :
    marchDays (yoe + era * 400) = era * 146097 + eraDays yoe := by
  unfold marchDays eraDays
  have h4 : ((yoe : ℤ) + era * 400) / 4 = (yoe : ℤ) / 4 + era * 100 := by omega
  have h100 : ((yoe : ℤ) + era * 400) / 100 = (yoe : ℤ) / 100 + era * 4 := by omega
  have h400 : ((yoe : ℤ) + era * 400) / 400 = (yoe : ℤ) / 400 + era := by omega
  rw [h4, h100, h400]
  omega

theorem tdiv_era (z : ℤ) : (if z ≥ 0 then z else z - 146096).tdiv 146097 = z / 146097 := by
  split_ifs with h
  · exact Int.tdiv_eq_ediv_of_nonneg h
  · rw [Int.tdiv_eq_ediv, show Int.sign 146097 = 1 from rfl]
    split_ifs <;> omega

/-- A day of the algorithm is a day of a year that begins on the first of March. -/
theorem civilFromDays_eq (z : ℤ) : ∃ y doy, civilFromDays z = marchDate y doy ∧
    z + 719468 = marchDays y + doy ∧ z + 719468 < marchDays (y + 1) := by
  obtain ⟨doe, hdoe⟩ : ∃ doe : ℕ, z + 719468 - (z + 719468) / 146097 * 146097 = doe :=
    Int.eq_ofNat_of_zero_le (by omega)
  obtain ⟨hlast, hge, hlt⟩ := yearOfEra_spec (show doe < 146097 by omega)
  generalize hera : (z + 719468) / 146097 = era at hdoe
  obtain ⟨yoe, hyoe⟩ : ∃ yoe, plainDays doe / 365 = yoe := ⟨_, rfl⟩
  rw [hyoe] at hlast hge hlt
  have hnext : (yoe : ℤ) + era * 400 + 1 = ((yoe + 1 : ℕ) : ℤ) + era * 400 := by omega
  refine ⟨yoe + era * 400, doe - (365 * yoe + yoe / 4 - yoe / 100), ?_, ?_, ?_⟩
  · rw [civilFromDays, tdiv_era, hera, hdoe, Int.toNat_natCast,
      show (doe - doe / 1460 + doe / 36524 - doe / 146096) / 365 = yoe from hyoe]
    rfl
  · rw [marchDays_era]
    have heq : eraDays yoe = 365 * yoe + yoe / 4 - yoe / 100 := by
      unfold eraDays
      omega
    rw [← heq]
    omega
  · rw [hnext, marchDays_era]
    omega

/-- The days of a year that begins on the first of March: it ends with the February of the next. -/
def yearLength (y : ℤ) : ℕ := if Date.IsLeapYear (y + 1) then 366 else 365

theorem yearLength_pos (y : ℤ) : 0 < yearLength y := by
  unfold yearLength
  split_ifs <;> decide

theorem marchDays_succ (y : ℤ) : marchDays (y + 1) = marchDays y + yearLength y := by
  by_cases hleap : Date.IsLeapYear (y + 1)
  · rw [yearLength, if_pos hleap]
    unfold Date.IsLeapYear at hleap
    unfold marchDays
    omega
  · rw [yearLength, if_neg hleap]
    unfold Date.IsLeapYear at hleap
    unfold marchDays
    omega

theorem marchDays_lt_iff {y y' : ℤ} : marchDays y < marchDays y' ↔ y < y' := by
  refine StrictMono.lt_iff_lt (strictMono_int_of_lt_succ fun y => ?_)
  have hpos := yearLength_pos y
  rw [marchDays_succ]
  omega

theorem monthDay_bounds : ∀ doy < 366, (1 ≤ (monthDay doy).1 ∧ (monthDay doy).1 ≤ 12) ∧
    1 ≤ (monthDay doy).2 ∧ ∀ leap, (doy = 365 → leap = true) →
      (monthDay doy).2 ≤ Date.monthLength leap (monthDay doy).1 := by
  decide +kernel

theorem monthDay_succ : ∀ doy < 365, ∀ leap, (doy = 364 → leap = true) →
    ((monthDay doy).2 < Date.monthLength leap (monthDay doy).1 ∧
      monthDay (doy + 1) = ((monthDay doy).1, (monthDay doy).2 + 1)) ∨
    ¬ (monthDay doy).2 < Date.monthLength leap (monthDay doy).1 ∧ (monthDay doy).1 ≠ 2 ∧
      monthDay (doy + 1) = (if (monthDay doy).1 < 12 then (monthDay doy).1 + 1 else 1, 1) := by
  decide +kernel

theorem monthLength_of_ne {m : ℕ} (h : m ≠ 2) (leap leap' : Bool) :
    Date.monthLength leap m = Date.monthLength leap' m := by
  unfold Date.monthLength
  split
  · exact absurd rfl h
  · rfl
  · rfl
  · rfl
  · rfl
  · rfl

/-- The only month whose length differs is in the calendar year that begins in it. -/
theorem daysInMonth_marchDate (y : ℤ) (doy : ℕ) : (marchDate y doy).daysInMonth =
    Date.monthLength (decide (Date.IsLeapYear (y + 1))) (monthDay doy).1 := by
  unfold Date.daysInMonth marchDate
  dsimp only
  by_cases hm : (monthDay doy).1 = 2
  · rw [if_pos (by omega)]
  · exact monthLength_of_ne hm _ _

/-- The day is one of the year. -/
def InYear (y : ℤ) (doy : ℕ) : Prop := doy < yearLength y

theorem InYear.bounds {y : ℤ} {doy : ℕ} (h : InYear y doy) :
    doy < 366 ∧ (doy = 365 → decide (Date.IsLeapYear (y + 1)) = true) := by
  unfold InYear yearLength at h
  split_ifs at h with hleap
  · exact ⟨h, fun _ => decide_eq_true hleap⟩
  · exact ⟨h.trans (by decide), fun hday => absurd (hday ▸ h) (by decide)⟩

theorem inCalendar_marchDate {y : ℤ} {doy : ℕ} (h : InYear y doy) :
    (marchDate y doy).InCalendar := by
  obtain ⟨hlt, hleap⟩ := h.bounds
  obtain ⟨hmonth, hday, hlength⟩ := monthDay_bounds doy hlt
  refine ⟨hmonth, hday, ?_⟩
  rw [daysInMonth_marchDate]
  exact hlength _ hleap

theorem tomorrow_marchDate {y : ℤ} {doy : ℕ} (h : InYear y (doy + 1)) :
    (marchDate y doy).tomorrow = marchDate y (doy + 1) := by
  obtain ⟨hlt, hleap⟩ := h.bounds
  unfold Date.tomorrow
  rw [daysInMonth_marchDate]
  unfold marchDate
  dsimp only
  rcases monthDay_succ doy (by omega) (decide (Date.IsLeapYear (y + 1)))
      (fun hday => hleap (by omega)) with ⟨hday, hnext⟩ | ⟨hday, hne, hnext⟩
  · rw [if_pos hday, hnext]
  · have hmonth := (monthDay_bounds doy (by omega)).1
    rw [if_neg hday, hnext]
    by_cases hdec : (monthDay doy).1 < 12
    · -- the year does not begin between the two months, as the first is not February
      have hyear : (monthDay doy).1 ≤ 2 ↔ (monthDay doy).1 + 1 ≤ 2 := by omega
      simp only [hdec, if_true, hyear]
    · have hlate : ¬ (monthDay doy).1 ≤ 2 := by omega
      simp only [hdec, if_false, hlate]
      rfl

theorem tomorrow_marchDate_last {y : ℤ} {doy : ℕ} (h : InYear y doy) (hlast : ¬ InYear y (doy + 1)) :
    (marchDate y doy).tomorrow = marchDate (y + 1) 0 := by
  have hend : doy = if Date.IsLeapYear (y + 1) then 365 else 364 := by
    unfold InYear yearLength at h hlast
    split_ifs at * <;> omega
  unfold Date.tomorrow
  rw [daysInMonth_marchDate]
  unfold marchDate
  have hfirst : monthDay 0 = (3, 1) := by decide
  split_ifs at hend with hleap
  · have hday : monthDay 365 = (2, 29) := by decide
    simp [hend, hleap, hday, hfirst, Date.monthLength]
  · have hday : monthDay 364 = (2, 28) := by decide
    simp [hend, hleap, hday, hfirst, Date.monthLength]

theorem civilFromDays_inYear (z : ℤ) : ∃ y doy, civilFromDays z = marchDate y doy ∧
    z + 719468 = marchDays y + doy ∧ InYear y doy := by
  obtain ⟨y, doy, hdate, hdays, hlt⟩ := civilFromDays_eq z
  refine ⟨y, doy, hdate, hdays, ?_⟩
  rw [marchDays_succ] at hlt
  unfold InYear
  omega

theorem civilFromDays_of_inYear {y z : ℤ} {doy : ℕ} (hin : InYear y doy)
    (hdays : z + 719468 = marchDays y + doy) : civilFromDays z = marchDate y doy := by
  obtain ⟨y', doy', hdate, hdays', hin'⟩ := civilFromDays_inYear z
  have hsucc := marchDays_succ y
  have hsucc' := marchDays_succ y'
  unfold InYear at hin hin'
  have hlt : marchDays y < marchDays (y' + 1) := by omega
  have hlt' : marchDays y' < marchDays (y + 1) := by omega
  rw [marchDays_lt_iff] at hlt hlt'
  obtain rfl : y' = y := by omega
  obtain rfl : doy' = doy := by omega
  exact hdate

/-- The next day is the next of the year, or the first of the next year. -/
theorem civilFromDays_succ (z : ℤ) : civilFromDays (z + 1) = (civilFromDays z).tomorrow := by
  obtain ⟨y, doy, hdate, hdays, hin⟩ := civilFromDays_inYear z
  rw [hdate]
  by_cases hnext : InYear y (doy + 1)
  · rw [tomorrow_marchDate hnext]
    refine civilFromDays_of_inYear hnext ?_
    omega
  · rw [tomorrow_marchDate_last hin hnext]
    refine civilFromDays_of_inYear (yearLength_pos _) ?_
    unfold InYear at hin hnext
    rw [marchDays_succ]
    omega

theorem civilFromDays_inCalendar (z : ℤ) : (civilFromDays z).InCalendar := by
  obtain ⟨y, doy, hdate, -, hin⟩ := civilFromDays_inYear z
  rw [hdate]
  exact inCalendar_marchDate hin

theorem civilFromDays_lt_add (z : ℤ) (n : ℕ) :
    civilFromDays z < civilFromDays (z + (n + 1 : ℕ)) := by
  induction n with
  | zero =>
    rw [zero_add, Nat.cast_one, civilFromDays_succ]
    exact Date.lt_tomorrow _
  | succ n ih =>
    refine Date.lt_trans ih ?_
    rw [Nat.cast_succ (n + 1), ← add_assoc, civilFromDays_succ]
    exact Date.lt_tomorrow _

/-- Days are in the order of their dates. -/
theorem civilFromDays_lt_iff {a b : ℤ} : civilFromDays a < civilFromDays b ↔ a < b := by
  have hlt : ∀ {a b : ℤ}, a < b → civilFromDays a < civilFromDays b := by
    intro a b h
    obtain ⟨n, rfl⟩ : ∃ n : ℕ, b = a + (n + 1 : ℕ) := ⟨(b - a - 1).toNat, by omega⟩
    exact civilFromDays_lt_add a n
  refine ⟨fun h => ?_, hlt⟩
  by_contra hle
  rcases (not_lt.1 hle).eq_or_lt with rfl | hba
  · exact Date.lt_irrefl _ h
  · exact Date.lt_irrefl _ (Date.lt_trans h (hlt hba))

/-- The day of a year that begins on the first of March, from the month and the day. -/
def dayOfYear (month day : ℕ) : ℕ :=
  (153 * (if 2 < month then month - 3 else month + 9) + 2) / 5 + day - 1

theorem dayOfYear_spec : ∀ month < 12, ∀ day < 31, ∀ leap, day < Date.monthLength leap (month + 1) →
    dayOfYear (month + 1) (day + 1) < (if leap then 366 else 365) ∧
      monthDay (dayOfYear (month + 1) (day + 1)) = (month + 1, day + 1) := by
  decide +kernel

theorem monthLength_le (leap : Bool) (month : ℕ) : Date.monthLength leap month ≤ 31 := by
  unfold Date.monthLength
  split
  · cases leap <;> decide
  all_goals decide

theorem exists_civilFromDays_eq {date : Date} (h : date.InCalendar) :
    ∃ z, civilFromDays z = date := by
  obtain ⟨year, month, day⟩ := date
  obtain ⟨⟨hmonth, hmonth'⟩, hday, hday'⟩ := h
  dsimp only at hmonth hmonth' hday
  -- the year that begins on the first of March before the date
  obtain ⟨y, hy⟩ : ∃ y, year = if month ≤ 2 then y + 1 else y :=
    ⟨if month ≤ 2 then year - 1 else year, by split_ifs <;> omega⟩
  have hlength : Date.monthLength (decide (Date.IsLeapYear (y + 1))) month =
      Date.monthLength (decide (Date.IsLeapYear year)) month := by
    by_cases hm : month = 2
    · rw [hy, if_pos (by omega)]
    · exact monthLength_of_ne hm _ _
  have hle : day ≤ Date.monthLength (decide (Date.IsLeapYear (y + 1))) month := by
    rw [hlength]
    exact hday'
  obtain ⟨month, rfl⟩ := Nat.exists_eq_add_of_le' hmonth
  obtain ⟨day, rfl⟩ := Nat.exists_eq_add_of_le' hday
  have hlast := hle.trans (monthLength_le _ _)
  obtain ⟨hlt, hmd⟩ := dayOfYear_spec month (by omega) day (by omega)
    (decide (Date.IsLeapYear (y + 1))) hle
  have hin : InYear y (dayOfYear (month + 1) (day + 1)) := by
    simpa [InYear, yearLength] using hlt
  refine ⟨marchDays y + dayOfYear (month + 1) (day + 1) - 719468, ?_⟩
  rw [civilFromDays_of_inYear hin (by omega), marchDate, hmd, hy]

/-! ### Unsigned numbers -/

/-- A subtraction of unsigned numbers; none when it underflows. -/
def checkedSub (a b : ℕ) : Option ℕ := if b ≤ a then some (a - b) else none

theorem checkedSub_of_le {a b : ℕ} (h : b ≤ a) : checkedSub a b = some (a - b) := if_pos h

/-- `civilFromDays` with its subtractions of unsigned numbers checked, the first of them being the
conversion of a signed one. -/
def checkedCivilFromDays (z : ℤ) : Option Date := do
  let z := z + 719468
  let era := (if z ≥ 0 then z else z - 146096).tdiv 146097
  let doe ← if 0 ≤ z - era * 146097 then some (z - era * 146097).toNat else none
  let days ← checkedSub doe (doe / 1460)
  let days ← checkedSub (days + doe / 36524) (doe / 146096)
  let yoe := days / 365
  let y := (yoe : ℤ) + era * 400
  let before ← checkedSub (365 * yoe + yoe / 4) (yoe / 100)
  let doy ← checkedSub doe before
  let mp := (5 * doy + 2) / 153
  let d ← checkedSub doy ((153 * mp + 2) / 5)
  let m ← if mp < 10 then some (mp + 3) else checkedSub mp 9
  return ⟨if m ≤ 2 then y + 1 else y, m, d + 1⟩

theorem checkedCivilFromDays_eq (z : ℤ) : checkedCivilFromDays z = some (civilFromDays z) := by
  obtain ⟨doe, hdoe⟩ : ∃ doe : ℕ, z + 719468 - (z + 719468) / 146097 * 146097 = doe :=
    Int.eq_ofNat_of_zero_le (by omega)
  obtain ⟨-, hge, -⟩ := yearOfEra_spec (show doe < 146097 by omega)
  unfold plainDays at hge
  unfold checkedCivilFromDays civilFromDays
  simp only [tdiv_era, hdoe, Int.natCast_nonneg, if_true, Int.toNat_natCast, Option.bind_eq_bind,
    Option.bind_some]
  rw [checkedSub_of_le (by omega), Option.bind_some, checkedSub_of_le (by omega), Option.bind_some]
  generalize (doe - doe / 1460 + doe / 36524 - doe / 146096) / 365 = yoe at hge ⊢
  unfold eraDays at hge
  rw [checkedSub_of_le (by omega), Option.bind_some, checkedSub_of_le (by omega), Option.bind_some]
  generalize doe - (365 * yoe + yoe / 4 - yoe / 100) = doy
  rw [checkedSub_of_le (by omega), Option.bind_some]
  by_cases hmp : (5 * doy + 2) / 153 < 10
  · simp only [hmp, if_true]
    rfl
  · simp only [hmp, if_false]
    rw [checkedSub_of_le (by omega)]
    rfl

/-! ### Dates as texts -/

theorem digitChar_lt_iff : ∀ m < 10, ∀ n < 10, m.digitChar < n.digitChar ↔ m < n := by
  decide +kernel

theorem padded_one {n : ℕ} (h : n < 10) : padded 1 n = [n.digitChar] := by
  rw [padded, Nat.toList_repr, Nat.toDigits_of_lt_base h]
  rfl

/-- One digit more: the digits of a tenth, and the last digit. -/
theorem padded_succ {w : ℕ} (hw : 0 < w) (n : ℕ) :
    padded (w + 1) n = padded w (n / 10) ++ [(n % 10).digitChar] := by
  rw [padded, padded, Nat.toList_repr, Nat.toList_repr]
  by_cases hn : n < 10
  · rw [Nat.toDigits_of_lt_base hn, Nat.div_eq_of_lt hn, Nat.mod_eq_of_lt hn,
      Nat.toDigits_of_lt_base (by omega)]
    obtain ⟨w, rfl⟩ := Nat.exists_eq_add_one.2 hw
    simp [List.replicate_succ']
  · rw [Nat.toDigits_of_base_le (by omega) (by omega)]
    simp

theorem length_padded {w n : ℕ} (h : n < 10 ^ (w + 1)) : (padded (w + 1) n).length = w + 1 := by
  induction w generalizing n with
  | zero => rw [padded_one h, List.length_singleton]
  | succ w ih =>
    rw [padded_succ (Nat.succ_pos w), List.length_append, List.length_singleton,
      ih (by rw [pow_succ] at h; omega)]

theorem digitChar_inj : ∀ m < 10, ∀ n < 10, m.digitChar = n.digitChar → m = n := by
  decide +kernel

/-- Numbers of one width are told apart by their texts, and in the order of these. -/
theorem padded_spec {w m n : ℕ} (hm : m < 10 ^ (w + 1)) (hn : n < 10 ^ (w + 1)) :
    (padded (w + 1) m < padded (w + 1) n ↔ m < n) ∧
      (padded (w + 1) m = padded (w + 1) n ↔ m = n) := by
  induction w generalizing m n with
  | zero =>
    rw [padded_one hm, padded_one hn, List.cons_lt_cons_iff, digitChar_lt_iff m hm n hn]
    refine ⟨by simp, fun h => digitChar_inj m hm n hn (List.cons.inj h).1, ?_⟩
    rintro rfl
    rfl
  | succ w ih =>
    rw [pow_succ] at hm hn
    have hmt : m / 10 < 10 ^ (w + 1) := by omega
    have hnt : n / 10 < 10 ^ (w + 1) := by omega
    obtain ⟨hlt, heq⟩ := ih hmt hnt
    have hlen : (padded (w + 1) (m / 10)).length = (padded (w + 1) (n / 10)).length := by
      rw [length_padded hmt, length_padded hnt]
    rw [padded_succ (Nat.succ_pos w), padded_succ (Nat.succ_pos w), append_lt_append_iff hlen,
      hlt, heq, List.append_eq_append_iff_of_size_eq_left hlen, heq, List.cons_lt_cons_iff,
      digitChar_lt_iff _ (Nat.mod_lt _ (by decide)) _ (Nat.mod_lt _ (by decide))]
    constructor
    · simp only [List.not_lt_nil, and_false, or_false]
      omega
    · constructor
      · rintro ⟨htens, hones⟩
        have hones := digitChar_inj _ (Nat.mod_lt m (by decide)) _ (Nat.mod_lt n (by decide))
          (List.cons.inj hones).1
        omega
      · rintro rfl
        exact ⟨rfl, rfl⟩

/-- **Dates that `YYYY-MM-DD` can write are in the order of their texts.** -/
theorem isoDate_lt_iff {a b : Date} (ha : a.Valid) (hb : b.Valid) :
    isoDate a < isoDate b ↔ a < b := by
  obtain ⟨⟨hay, hay'⟩, ⟨-, ham⟩, -, had⟩ := ha
  obtain ⟨⟨hby, hby'⟩, ⟨-, hbm⟩, -, hbd⟩ := hb
  have hyear := padded_spec (w := 3) (m := a.year.natAbs) (n := b.year.natAbs) (by omega) (by omega)
  have hmonth := padded_spec (w := 1) (m := a.month) (n := b.month) (by omega) (by omega)
  have hday := padded_spec (w := 1) (m := a.day) (n := b.day) (by omega) (by omega)
  rw [isoDate, isoDate, if_neg (by omega), if_neg (by omega),
    append_lt_append_iff (by rw [length_padded (by omega), length_padded (by omega)]), hyear.1,
    hyear.2, List.cons_lt_cons_iff,
    append_lt_append_iff (by rw [length_padded (by omega), length_padded (by omega)]), hmonth.1,
    hmonth.2, List.cons_lt_cons_iff, hday.1]
  show _ ↔ a.year < b.year ∨ (a.year = b.year ∧
    (a.month < b.month ∨ (a.month = b.month ∧ a.day < b.day)))
  simp only [lt_irrefl, false_or, true_and]
  omega

theorem ascii_padded (w n : ℕ) : ∀ c ∈ padded w n, c.utf8Size = 1 := by
  rintro c hc
  rcases List.mem_append.1 hc with hc | hc
  · rw [List.eq_of_mem_replicate hc]
    rfl
  · rw [Nat.toList_repr] at hc
    have hd := Nat.isDigit_of_mem_toDigits (by decide) (by decide) hc
    simp only [Char.isDigit, Bool.and_eq_true, decide_eq_true_eq] at hd
    have hnine : c.val ≤ '9'.val := hd.2
    exact Char.utf8Size_eq_one_iff.2 (UInt32.le_trans hnine (by decide))

theorem isoDate_ascii {date : Date} (h : date.Valid) :
    (isoDate date).length = 10 ∧ ∀ c ∈ isoDate date, c.utf8Size = 1 := by
  obtain ⟨⟨hy, hy'⟩, ⟨-, hm⟩, -, hd⟩ := h
  rw [isoDate, if_neg (by omega)]
  constructor
  · simp only [List.length_append, List.length_cons]
    rw [length_padded (by omega), length_padded (by omega), length_padded (by omega)]
  · simp only [List.mem_append, List.mem_cons]
    rintro c (hc | rfl | hc | rfl | hc)
    · exact ascii_padded _ _ c hc
    · rfl
    · exact ascii_padded _ _ c hc
    · rfl
    · exact ascii_padded _ _ c hc

/-- The date is of a year that four digits write. -/
def FourDigits (date : Date) : Prop := 0 ≤ date.year ∧ date.year ≤ 9999

theorem valid_of_inCalendar {date : Date} (h : date.InCalendar) (hyear : FourDigits date) :
    date.Valid :=
  ⟨hyear, h.month, h.day.1, h.day.2.trans (monthLength_le _ _)⟩

theorem valid_civilFromDays {today : ℕ} (hyear : (civilFromDays today).year ≤ 9999) :
    (civilFromDays today).Valid := by
  refine valid_of_inCalendar (civilFromDays_inCalendar _) ⟨?_, hyear⟩
  have hepoch : ¬ civilFromDays today < civilFromDays 0 := by
    rw [civilFromDays_lt_iff]
    omega
  by_contra hneg
  refine hepoch (.inl ?_)
  rw [show (civilFromDays 0).year = 1970 by decide]
  omega

/-- A well-formed date has expired exactly when it is earlier than today. -/
theorem isExpired_isoDate {today : ℕ} {date : Date} (htoday : FourDigits (civilFromDays today))
    (hdate : date.Valid) :
    isExpired today (isoDate date) = some (decide (date < civilFromDays today)) := by
  obtain ⟨hlen, hascii⟩ := isoDate_ascii hdate
  have hhead := takeBytes_of_ascii hascii
  rw [hlen] at hhead
  rw [isExpired, byteLength_of_ascii hascii, hlen, if_neg (by decide), hhead, Option.map_some,
    todayIsoDate]
  exact congrArg some (decide_eq_decide.2
    (isoDate_lt_iff hdate (valid_of_inCalendar (civilFromDays_inCalendar _) htoday)))

/-- The dates of the days are those of the calendar, one after another from the epoch. -/
structure IsGregorian (date : ℤ → Date) : Prop where
  /-- Each is in the calendar. -/
  inCalendar : ∀ z, (date z).InCalendar
  /-- Each is followed by the next. -/
  next : ∀ z, date (z + 1) = (date z).tomorrow
  /-- The first day is that of the epoch. -/
  epoch : date 0 = ⟨1970, 1, 1⟩

/-- **`civilFromDays` is the Gregorian calendar**, no subtraction in it underflows, its dates are in
the order of their texts, and a date has expired exactly when its day is before today. -/
theorem civilFromDays_gregorian : IsGregorian civilFromDays ∧
    (∀ z, checkedCivilFromDays z = some (civilFromDays z)) ∧
    (∀ a b, FourDigits (civilFromDays a) → FourDigits (civilFromDays b) →
      (isoDate (civilFromDays a) < isoDate (civilFromDays b) ↔ a < b)) ∧
    ∀ (today : ℕ) (date : Date), FourDigits (civilFromDays today) → date.InCalendar →
      FourDigits date → ∃ z, civilFromDays z = date ∧
        isExpired today (isoDate date) = some (decide (z < today)) := by
  refine ⟨⟨civilFromDays_inCalendar, civilFromDays_succ, by decide⟩, checkedCivilFromDays_eq, ?_, ?_⟩
  · intro a b ha hb
    rw [isoDate_lt_iff (valid_of_inCalendar (civilFromDays_inCalendar a) ha)
      (valid_of_inCalendar (civilFromDays_inCalendar b) hb), civilFromDays_lt_iff]
  · intro today date htoday hdate hyear
    obtain ⟨z, rfl⟩ := exists_civilFromDays_eq hdate
    refine ⟨z, rfl, ?_⟩
    rw [isExpired_isoDate htoday (valid_of_inCalendar hdate hyear)]
    simp only [civilFromDays_lt_iff]

/-- A leap day, on the day after it. -/
theorem leapDay_expired : ∃ z, civilFromDays z = ⟨2024, 2, 29⟩ ∧
    isExpired 19783 (isoDate ⟨2024, 2, 29⟩) = some (decide (z < (19783 : ℕ))) :=
  civilFromDays_gregorian.2.2.2 19783 ⟨2024, 2, 29⟩ (by unfold FourDigits; decide)
    ⟨by decide, by decide⟩ (by unfold FourDigits; decide)

end Tier
end Wkp
