import Mathlib.Data.Nat.Notation
import Mathlib.Tactic.IntervalCases

/-!
# Days of the calendar

The Gregorian calendar, as the number of days from its first day to a date, and the
computation of a date from a number of days that goes by eras of four hundred
years, each begun in March. The computation is the inverse of the count.
-/

namespace Kerbridge.CivilTime

/-- A year of 366 days. -/
def Leap (y : ℕ) : Prop := y % 4 = 0 ∧ (y % 100 ≠ 0 ∨ y % 400 = 0)

instance (y : ℕ) : Decidable (Leap y) := inferInstanceAs (Decidable (_ ∧ _))

/-- The days of a month. -/
def daysIn (leap : Bool) : ℕ → ℕ
  | 2 => if leap then 29 else 28
  | 4 => 30
  | 6 => 30
  | 9 => 30
  | 11 => 30
  | _ => 31

/-- The days of a year before a month. -/
def daysBefore (leap : Bool) : ℕ → ℕ
  | 0 => 0
  | 1 => 0
  | m + 2 => daysBefore leap (m + 1) + daysIn leap (m + 1)

/-- The days from the first of January of the year one to that of a year. -/
def yearStart (y : ℕ) : ℕ := 365 * (y - 1) + ((y - 1) / 4 - (y - 1) / 100 + (y - 1) / 400)

/-- The days from the first of January of the year one to a date. -/
def ordinal (y m d : ℕ) : ℕ := yearStart y + daysBefore (decide (Leap y)) m + (d - 1)

/-- The first of January 1970, so counted. -/
def epoch : ℕ := 719162

/-- A date of the calendar. -/
def Valid (y m d : ℕ) : Prop :=
  1 ≤ y ∧ 1 ≤ m ∧ m ≤ 12 ∧ 1 ≤ d ∧ d ≤ daysIn (decide (Leap y)) m

instance (y m d : ℕ) : Decidable (Valid y m d) := inferInstanceAs (Decidable (_ ∧ _))

/-- The year of an era, of a day of the era. -/
def yearOfEra (doe : ℕ) : ℕ := (doe - doe / 1460 + doe / 36524 - doe / 146096) / 365

/-- The date of a number of days since the epoch. -/
def civilFromDays (z : ℕ) : ℕ × ℕ × ℕ :=
  let z := z + 719468
  let era := z / 146097
  let doe := z % 146097
  let yoe := yearOfEra doe
  let y := yoe + era * 400
  let doy := doe - (365 * yoe + yoe / 4 - yoe / 100)
  let mp := (5 * doy + 2) / 153
  let d := doy - (153 * mp + 2) / 5 + 1
  let m := if mp < 10 then mp + 3 else mp - 9
  (if m ≤ 2 then y + 1 else y, m, d)

/-- A day of a century, by cycles of four years and the days of one. -/
theorem yearOfEra_eq {e q s : ℕ} (he : e ≤ 3) (hq : q ≤ 24) (hs : s ≤ 1460)
    (hlast : q = 24 → s ≤ 1459) :
    yearOfEra (36524 * e + 1461 * q + s) = 100 * e + 4 * q + min (s / 365) 3 := by
  have hcentury : (36524 * e + 1461 * q + s) / 36524 = e := by omega
  have hera : (36524 * e + 1461 * q + s) / 146096 = 0 := by omega
  obtain ⟨t, ht⟩ : ∃ t, t = (24 * e + q + s) / 1460 := ⟨_, rfl⟩
  have hfour : (36524 * e + 1461 * q + s) / 1460 = 25 * e + q + t := by omega
  have hdays : 36524 * e + 1461 * q + s - (25 * e + q + t) + e - 0 =
      365 * (100 * e + 4 * q) + (s - t) := by omega
  unfold yearOfEra
  rw [hcentury, hera, hfour, hdays, Nat.mul_add_div (by omega)]
  omega

/-- A day of an era is a day of its year, which begins in March: at most the 365th, and
that only when the February after is of 29 days. -/
theorem yearOfEra_split {doe : ℕ} (h : doe < 146097) : ∃ doy, yearOfEra doe ≤ 399 ∧
    doe = 365 * yearOfEra doe + yearOfEra doe / 4 - yearOfEra doe / 100 + doy ∧ doy ≤ 365 ∧
    (doy = 365 → (yearOfEra doe + 1) % 4 = 0 ∧
      ((yearOfEra doe + 1) % 100 ≠ 0 ∨ yearOfEra doe = 399)) := by
  by_cases hend : doe = 146096
  · exact ⟨365, by subst hend; decide⟩
  · obtain ⟨e, he⟩ : ∃ e, e = doe / 36524 := ⟨_, rfl⟩
    obtain ⟨q, hq⟩ : ∃ q, q = (doe - 36524 * e) / 1461 := ⟨_, rfl⟩
    obtain ⟨s, hs⟩ : ∃ s, s = doe - 36524 * e - 1461 * q := ⟨_, rfl⟩
    obtain ⟨g, hg⟩ : ∃ g, g = min (s / 365) 3 := ⟨_, rfl⟩
    have hdoe : doe = 36524 * e + 1461 * q + s := by omega
    have hyear : yearOfEra doe = 100 * e + 4 * q + g := by
      rw [hg, ← yearOfEra_eq (by omega) (by omega) (by omega) (by omega), ← hdoe]
    have hfour : (100 * e + 4 * q + g) / 4 = 25 * e + q := by omega
    have hhundred : (100 * e + 4 * q + g) / 100 = e := by omega
    refine ⟨s - 365 * g, ?_, ?_, ?_, ?_⟩
    · omega
    · rw [hyear, hfour, hhundred]
      omega
    · omega
    · intro hlast
      rw [hyear]
      omega

/-- The months of a year that begins in March: their first days, and what follows. -/
theorem month_of_day {doy : ℕ} (h : doy ≤ 365) (leap : Bool) (hleap : doy = 365 → leap = true) :
    let mp := (5 * doy + 2) / 153
    let d := doy - (153 * mp + 2) / 5 + 1
    (mp < 10 → daysBefore leap (mp + 3) + (d - 1) + (if leap then 0 else 1) = doy + 60 ∧
      d ≤ daysIn leap (mp + 3)) ∧
    (10 ≤ mp → mp ≤ 11 ∧ daysBefore leap (mp - 9) + (d - 1) + 306 = doy ∧
      d ≤ daysIn leap (mp - 9)) := by
  intro mp d
  have hmp : mp = (5 * doy + 2) / 153 := rfl
  have hd : d = doy - (153 * mp + 2) / 5 + 1 := rfl
  have hbound : mp ≤ 11 := by omega
  clear_value mp d
  cases leap with
  | false =>
    have hshort : doy ≤ 364 := by
      by_contra hlong
      cases hleap (by omega)
    interval_cases mp <;> simp [daysBefore, daysIn] <;> omega
  | true =>
    interval_cases mp <;> simp [daysBefore, daysIn] <;> omega

/-- The leap days up to a year are those before it, and its own. -/
theorem leaps_succ {y : ℕ} (h : 1 ≤ y) : y / 4 - y / 100 + y / 400 =
    (y - 1) / 4 - (y - 1) / 100 + (y - 1) / 400 + if decide (Leap y) then 1 else 0 := by
  by_cases hleap : Leap y
  · rw [decide_eq_true hleap, if_pos rfl]
    unfold Leap at hleap
    omega
  · rw [decide_eq_false hleap]
    unfold Leap at hleap
    simp only [Bool.false_eq_true, if_false]
    omega

/-- A year is of 365 days, or of one more when it is a leap year. -/
theorem yearStart_succ {y : ℕ} (h : 1 ≤ y) :
    yearStart (y + 1) = yearStart y + 365 + if decide (Leap y) then 1 else 0 := by
  unfold yearStart
  rw [Nat.add_sub_cancel, leaps_succ h]
  generalize (y - 1) / 4 - (y - 1) / 100 + (y - 1) / 400 = leaps
  omega

/-- A later year starts later. -/
theorem yearStart_mono {a b : ℕ} (ha : 1 ≤ a) (h : a ≤ b) : yearStart a ≤ yearStart b := by
  induction b, h using Nat.le_induction with
  | base => exact Nat.le_refl _
  | succ b hb ih =>
    rw [yearStart_succ (by omega)]
    omega

/-- The computed date is a date of the calendar, and the days up to it are those it was
computed from. -/
theorem ordinal_civilFromDays (z : ℕ) {y m d : ℕ} (h : civilFromDays z = (y, m, d)) :
    Valid y m d ∧ ordinal y m d = z + epoch := by
  obtain ⟨era, hera⟩ : ∃ era, era = (z + 719468) / 146097 := ⟨_, rfl⟩
  obtain ⟨doe, hdoe⟩ : ∃ doe, doe = (z + 719468) % 146097 := ⟨_, rfl⟩
  obtain ⟨doy, hyear, hsplit, hlast, hleap⟩ := @yearOfEra_split doe (by omega)
  obtain ⟨yoe, hyoe⟩ : ∃ yoe, yoe = yearOfEra doe := ⟨_, rfl⟩
  rw [← hyoe] at hyear hsplit hleap
  have hdoy : doe - (365 * yoe + yoe / 4 - yoe / 100) = doy := by omega
  unfold civilFromDays at h
  simp only [← hera, ← hdoe, ← hyoe, hdoy, Prod.mk.injEq] at h
  obtain ⟨mp, hmp⟩ : ∃ mp, mp = (5 * doy + 2) / 153 := ⟨_, rfl⟩
  simp only [← hmp] at h
  obtain ⟨rfl, rfl, rfl⟩ := h
  have hnextYear : yearStart (yoe + era * 400 + 1) + doy = z + 719468 := by
    have hfour : (yoe + era * 400) / 4 = yoe / 4 + 100 * era := by omega
    have hhundred : (yoe + era * 400) / 100 = yoe / 100 + 4 * era := by omega
    have hfourhundred : (yoe + era * 400) / 400 = era := by omega
    unfold yearStart
    rw [Nat.add_sub_cancel, hfour, hhundred, hfourhundred]
    omega
  by_cases hspring : mp < 10
  · -- March to December belong to the year the era's year begins in.
    have hmonth := (month_of_day hlast (decide (Leap (yoe + era * 400))) (by omega)).1
      (by omega)
    simp only [← hmp] at hmonth
    have hstart := yearStart_succ (y := yoe + era * 400) (by omega)
    rw [if_pos hspring, if_neg (by omega)]
    refine ⟨⟨by omega, by omega, by omega, by omega, hmonth.2⟩, ?_⟩
    unfold ordinal epoch
    cases hcase : decide (Leap (yoe + era * 400)) with
    | false =>
      rw [hcase] at hmonth hstart
      simp only [Bool.false_eq_true, if_false] at hmonth hstart
      omega
    | true =>
      rw [hcase] at hmonth hstart
      simp only [if_true] at hmonth hstart
      omega
  · -- January and February belong to the next one.
    have hnext : doy = 365 → decide (Leap (yoe + era * 400 + 1)) = true := by
      intro hlast
      have hlong := hleap hlast
      rw [decide_eq_true_eq, Leap]
      omega
    have hmonth := (month_of_day hlast (decide (Leap (yoe + era * 400 + 1))) hnext).2 (by omega)
    simp only [← hmp] at hmonth
    rw [if_neg hspring, if_pos (by omega)]
    refine ⟨⟨by omega, by omega, by omega, by omega, hmonth.2.2⟩, ?_⟩
    unfold ordinal epoch
    omega

/-- A month has at most thirty-one days. -/
theorem daysIn_le (leap : Bool) (m : ℕ) : daysIn leap m ≤ 31 := by
  unfold daysIn
  split
  · split <;> omega
  all_goals omega

/-- A date lies within its year. -/
theorem day_within {leap : Bool} {m d : ℕ} (hm : 1 ≤ m ∧ m ≤ 12) (hd : d ≤ daysIn leap m) :
    daysBefore leap m + d ≤ 365 + if leap then 1 else 0 := by
  obtain ⟨hfirst, hlast⟩ := hm
  cases leap with
  | false => interval_cases m <;> simp [daysBefore, daysIn] at hd ⊢ <;> omega
  | true => interval_cases m <;> simp [daysBefore, daysIn] at hd ⊢ <;> omega

/-- The days that thirty-two bits of seconds reach lie in these years. -/
theorem civilFromDays_year {z y m d : ℕ} (h : civilFromDays z = (y, m, d)) (hz : z < 49711) :
    1970 ≤ y ∧ y ≤ 2106 := by
  obtain ⟨⟨hy, hfirst, hlast, hday, hlength⟩, hordinal⟩ := ordinal_civilFromDays z h
  have hwithin := day_within ⟨hfirst, hlast⟩ hlength
  have hstart := yearStart_succ hy
  have hepoch : yearStart 1970 = 719162 := by decide
  have hend : yearStart 2107 = 769200 := by decide
  unfold ordinal epoch at hordinal
  refine ⟨?_, ?_⟩
  · by_contra hearly
    have hbefore : yearStart (y + 1) ≤ yearStart 1970 := yearStart_mono (by omega) (by omega)
    omega
  · by_contra hlate
    have hafter : yearStart 2107 ≤ yearStart y := yearStart_mono (by omega) (by omega)
    omega

end Kerbridge.CivilTime
