import Kerbridge.CivilTime
import Kerbridge.RetentionClock

/-!
# Day numbers in sixty-four bits

The two conversions of a day number, each term checked against the integer type
that holds it, over the same conversions on unbounded integers: which dates and
which day numbers the type is wide enough for, and that there each conversion
undoes the other.
-/

namespace Kerbridge.DayArithmetic

open CivilTime UnicodeText RetentionClock

/-- The integers of sixty-four bits, of either sign. -/
def Within64 (n : ℤ) : Prop := -9223372036854775808 ≤ n ∧ n ≤ 9223372036854775807

instance (n : ℤ) : Decidable (Within64 n) := inferInstanceAs (Decidable (_ ∧ _))

/-- What stops a computation. -/
inductive Panic where
  /-- A term its type does not hold. -/
  | overflow
  /-- An index behind the end. -/
  | index
  /-- A cut behind the end of a text, or inside a character. -/
  | slice
  deriving DecidableEq

/-- A term of the arithmetic, as `i64` holds it. -/
def i64 (n : ℤ) : Except Panic ℤ := if Within64 n then .ok n else .error .overflow

/-- `str::parse` at `i64`. -/
def parseI64 (s : String) : Option ℤ := (parseSigned s.toList).filter fun n => Within64 n

/-- A term its type holds. -/
theorem i64_within {n : ℤ} (h : Within64 n) : i64 n = .ok n := if_pos h

/-- A term its type does not hold. -/
theorem i64_beyond {n : ℤ} (h : ¬Within64 n) : i64 n = .error .overflow := if_neg h

/-- `days_from_civil`, each term checked. A quotient of a term is no farther from
zero than the term. -/
def daysFromCivil64 (y m d : ℤ) : Except Panic (Option ℤ) :=
  if !(decide (1 ≤ m) && decide (m ≤ 12)) || !(decide (1 ≤ d) && decide (d ≤ 31)) then .ok none
  else do
    let y ← i64 (y - if m ≤ 2 then 1 else 0)
    let era := y / 400
    let eraYears ← i64 (era * 400)
    let yoe ← i64 (y - eraYears)
    let mp ← i64 (if m > 2 then m - 3 else m + 9)
    let scaled ← i64 (153 * mp)
    let rounded ← i64 (scaled + 2)
    let dated ← i64 (rounded / 5 + d)
    let doy ← i64 (dated - 1)
    let yearDays ← i64 (yoe * 365)
    let leaps ← i64 (yearDays + yoe / 4)
    let centuries ← i64 (leaps - yoe / 100)
    let doe ← i64 (centuries + doy)
    let eraDays ← i64 (era * 146097)
    let total ← i64 (eraDays + doe)
    let days ← i64 (total - 719468)
    return some days

/-- The year of an era, as the code computes it from a day of the era. -/
def eraYear (doe : ℤ) : ℤ := (doe - doe / 1460 + doe / 36524 - doe / 146096) / 365

/-- `civil_from_days` on unbounded integers. The divisions after the era are of
numbers that are not negative. -/
def civilOfDays (z : ℤ) : ℤ × ℤ × ℤ :=
  let z := z + 719468
  let era := z / 146097
  let doe := z % 146097
  let yoe := eraYear doe
  let doy := doe - (365 * yoe + yoe / 4 - yoe / 100)
  let mp := (5 * doy + 2) / 153
  let day := doy - (153 * mp + 2) / 5 + 1
  let month := if mp < 10 then mp + 3 else mp - 9
  (yoe + era * 400 + if month ≤ 2 then 1 else 0, month, day)

/-- `civil_from_days`, each term checked. -/
def civilFromDays64 (z : ℤ) : Except Panic (ℤ × ℤ × ℤ) := do
  let shifted ← i64 (z + 719468)
  let era := shifted / 146097
  let doe := shifted % 146097
  let fours ← i64 (doe - doe / 1460)
  let hundreds ← i64 (fours + doe / 36524)
  let eras ← i64 (hundreds - doe / 146096)
  let yoe := eras / 365
  let yearDays ← i64 (365 * yoe)
  let leaps ← i64 (yearDays + yoe / 4)
  let centuries ← i64 (leaps - yoe / 100)
  let doy ← i64 (doe - centuries)
  let fives ← i64 (5 * doy)
  let rounded ← i64 (fives + 2)
  let mp := rounded / 153
  let scaled ← i64 (153 * mp)
  let started ← i64 (scaled + 2)
  let dated ← i64 (doy - started / 5)
  let day ← i64 (dated + 1)
  let month ← i64 (if mp < 10 then mp + 3 else mp - 9)
  let eraYears ← i64 (era * 400)
  let year ← i64 (yoe + eraYears)
  let year ← i64 (year + if month ≤ 2 then 1 else 0)
  return (year, month, day)

/-- A year of 366 days, before the first as well. -/
def LeapYear (y : ℤ) : Prop := y % 4 = 0 ∧ (y % 100 ≠ 0 ∨ y % 400 = 0)

instance (y : ℤ) : Decidable (LeapYear y) := inferInstanceAs (Decidable (_ ∧ _))

/-- A real date of the Gregorian calendar, carried on backwards. -/
def RealDate (y m d : ℤ) : Prop :=
  1 ≤ m ∧ m ≤ 12 ∧ 1 ≤ d ∧ d ≤ daysIn (decide (LeapYear y)) m.toNat

instance (y m d : ℤ) : Decidable (RealDate y m d) := inferInstanceAs (Decidable (_ ∧ _))

/-- The day numbers whose arithmetic stays within the type. -/
def Held (z : ℤ) : Prop := -9223372036854775808 ≤ z ∧ z + 719468 ≤ 9223372036854775807

instance (z : ℤ) : Decidable (Held z) := inferInstanceAs (Decidable (_ ∧ _))

/-- A term its type holds goes on. -/
theorem i64_bind {α : Type} {n : ℤ} (h : Within64 n) (f : ℤ → Except Panic α) :
    (i64 n >>= f) = f n := by
  rw [i64_within h]
  rfl

/-- A term its type does not hold ends the computation. -/
theorem i64_stop {α : Type} {n : ℤ} (h : ¬Within64 n) (f : ℤ → Except Panic α) :
    (i64 n >>= f) = .error .overflow := by
  rw [i64_beyond h]
  rfl

/-- A date the calendar admits, in the terms the code names: the day of its year, the day of
its era, and the day number. -/
theorem daysFromCivil_terms {y m d : ℤ} (hm : 1 ≤ m ∧ m ≤ 12) (hd : 1 ≤ d ∧ d ≤ 31) :
    ∃ shifted mp yoe doy doe, shifted = (y - if m ≤ 2 then 1 else 0) ∧
      mp = (if m > 2 then m - 3 else m + 9) ∧ yoe = shifted - shifted / 400 * 400 ∧
      doy = (153 * mp + 2) / 5 + d - 1 ∧ doe = yoe * 365 + yoe / 4 - yoe / 100 + doy ∧
      (0 ≤ mp ∧ mp ≤ 11) ∧ (0 ≤ yoe ∧ yoe ≤ 399) ∧ (0 ≤ doe ∧ doe ≤ 146098) ∧
      daysFromCivil y m d = some (shifted / 400 * 146097 + doe - 719468) := by
  have hmp : 0 ≤ (if m > 2 then m - 3 else m + 9) ∧ (if m > 2 then m - 3 else m + 9) ≤ 11 := by
    split <;> omega
  refine ⟨_, _, _, _, _, rfl, rfl, rfl, rfl, rfl, hmp, by omega, by omega, ?_⟩
  unfold daysFromCivil
  rw [if_neg (by simp [hm, hd])]

/-- A date the calendar admits has a day number. -/
theorem daysFromCivil_some {y m d : ℤ} (hm : 1 ≤ m ∧ m ≤ 12) (hd : 1 ≤ d ∧ d ≤ 31) :
    ∃ z, daysFromCivil y m d = some z := by
  obtain ⟨_, _, _, _, _, -, -, -, -, -, -, -, -, hdays⟩ := daysFromCivil_terms (y := y) hm hd
  exact ⟨_, hdays⟩

/-- The checked conversion of a date is the exact one as far as the type reaches, and
overflows beyond. -/
theorem daysFromCivil64_eq {y m d : ℤ} (hy : Within64 y) : daysFromCivil64 y m d =
    match daysFromCivil y m d with
    | none => .ok none
    | some z => if Held z then .ok (some z) else .error .overflow := by
  by_cases hrange : (1 ≤ m ∧ m ≤ 12) ∧ (1 ≤ d ∧ d ≤ 31)
  · obtain ⟨hm, hd⟩ := hrange
    obtain ⟨shifted, mp, yoe, doy, doe, hshifted, hmp, hyoe, hdoy, hdoe, ⟨hmp₁, hmp₂⟩,
      ⟨hyoe₁, hyoe₂⟩, ⟨hdoe₁, hdoe₂⟩, hdays⟩ := daysFromCivil_terms (y := y) hm hd
    obtain ⟨hlow, hhigh⟩ : y - 1 ≤ shifted ∧ shifted ≤ y := by
      rw [hshifted]
      split <;> omega
    unfold Within64 at hy
    rw [hdays]
    dsimp only
    unfold daysFromCivil64
    rw [if_neg (by simp [hm, hd]), ← hshifted, ← hmp]
    dsimp only
    -- Of all the terms only these five can leave the type.
    by_cases hfirst : Within64 shifted
    · rw [i64_bind hfirst]
      by_cases hera : Within64 (shifted / 400 * 400)
      · rw [i64_bind hera, ← hyoe, i64_bind (by unfold Within64; omega),
          i64_bind (by unfold Within64; omega), i64_bind (by unfold Within64; omega),
          i64_bind (by unfold Within64; omega), i64_bind (by unfold Within64; omega),
          i64_bind (by unfold Within64; omega), ← hdoy, i64_bind (by unfold Within64; omega),
          i64_bind (by unfold Within64; omega), i64_bind (by unfold Within64; omega), ← hdoe,
          i64_bind (by unfold Within64; omega)]
        by_cases hproduct : Within64 (shifted / 400 * 146097)
        · rw [i64_bind hproduct]
          by_cases htotal : Within64 (shifted / 400 * 146097 + doe)
          · rw [i64_bind htotal]
            by_cases hlast : Within64 (shifted / 400 * 146097 + doe - 719468)
            · rw [i64_bind hlast, if_pos]
              · rfl
              · unfold Within64 at htotal hlast
                unfold Held
                omega
            · rw [i64_stop hlast, if_neg]
              unfold Within64 at hlast
              unfold Held
              omega
          · rw [i64_stop htotal, if_neg]
            unfold Within64 at hproduct htotal
            unfold Held
            omega
        · rw [i64_stop hproduct, if_neg]
          unfold Within64 at hproduct
          unfold Held
          omega
      · rw [i64_stop hera, if_neg]
        unfold Within64 at hera
        unfold Held
        omega
    · rw [i64_stop hfirst, if_neg]
      unfold Within64 at hfirst
      unfold Held
      omega
  · unfold daysFromCivil64 daysFromCivil
    have hrefused : (!(decide (1 ≤ m) && decide (m ≤ 12)) || !(decide (1 ≤ d) && decide (d ≤ 31))) =
        true := by
      simp only [Bool.or_eq_true, Bool.not_eq_true', Bool.and_eq_false_iff, decide_eq_false_iff_not]
      omega
    rw [if_pos hrefused, if_pos hrefused]

/-- The year of an era is the one computed from a natural number of days. -/
theorem eraYear_natCast (n : ℕ) : eraYear n = yearOfEra n := by
  unfold eraYear yearOfEra
  omega

/-- A day of an era is a day of its year, which begins in March. -/
theorem eraYear_split {doe : ℤ} (h : 0 ≤ doe ∧ doe < 146097) : ∃ doy, (0 ≤ doy ∧ doy ≤ 365) ∧
    (0 ≤ eraYear doe ∧ eraYear doe ≤ 399) ∧
    doe = 365 * eraYear doe + eraYear doe / 4 - eraYear doe / 100 + doy ∧
    (doy = 365 → (eraYear doe + 1) % 4 = 0 ∧
      ((eraYear doe + 1) % 100 ≠ 0 ∨ eraYear doe = 399)) := by
  obtain ⟨n, rfl⟩ := Int.eq_ofNat_of_zero_le h.1
  obtain ⟨doy, hyear, hsplit, hlast, hleap⟩ := @yearOfEra_split n (by omega)
  rw [eraYear_natCast]
  exact ⟨doy, by omega, by omega, by omega, by omega⟩

/-- The first days of two years of an era are as far apart as the earlier year is long. -/
theorem years_apart {a b : ℤ} (hab : a < b) :
    365 * a + a / 4 - a / 100 + 365 ≤ 365 * b + b / 4 - b / 100 ∧
      ((a + 1) % 4 = 0 → (a + 1) % 100 ≠ 0 →
        365 * a + a / 4 - a / 100 + 366 ≤ 365 * b + b / 4 - b / 100) := by
  rcases Int.lt_or_le (a + 1) b with hfar | hnext
  · exact ⟨by omega, by omega⟩
  · obtain rfl : b = a + 1 := by omega
    by_cases hcentury : (a + 1) % 100 = 0
    · have hfour : (a + 1) % 4 = 0 := by omega
      have hfours : (a + 1) / 4 = a / 4 + 1 := by omega
      have hhundreds : (a + 1) / 100 = a / 100 + 1 := by omega
      exact ⟨by omega, by omega⟩
    · have hhundreds : (a + 1) / 100 = a / 100 := by omega
      exact ⟨by omega, by omega⟩

/-- A day of an era has one year. -/
theorem eraYear_unique {yoe doy : ℤ} (hyoe : 0 ≤ yoe ∧ yoe ≤ 399) (hdoy : 0 ≤ doy ∧ doy ≤ 365)
    (hleap : doy = 365 → (yoe + 1) % 4 = 0 ∧ ((yoe + 1) % 100 ≠ 0 ∨ yoe = 399)) :
    eraYear (365 * yoe + yoe / 4 - yoe / 100 + doy) = yoe := by
  obtain ⟨doe, hdoe⟩ : ∃ doe, doe = 365 * yoe + yoe / 4 - yoe / 100 + doy := ⟨_, rfl⟩
  obtain ⟨doy', hdoy', hyear', hsplit, hleap'⟩ := @eraYear_split doe (by omega)
  rw [← hdoe]
  generalize eraYear doe = yoe' at *
  rcases lt_trichotomy yoe' yoe with hlt | heq | hgt
  · have hapart := years_apart hlt
    omega
  · exact heq
  · have hapart := years_apart hgt
    omega

/-- The checked conversion of a day number is the exact one as far as the type reaches,
and overflows beyond. -/
theorem civilFromDays64_eq {z : ℤ} (hz : Within64 z) : civilFromDays64 z =
    if Held z then .ok (civilOfDays z) else .error .overflow := by
  unfold Within64 at hz
  by_cases hsum : Within64 (z + 719468)
  · obtain ⟨era, hera⟩ : ∃ era, era = (z + 719468) / 146097 := ⟨_, rfl⟩
    obtain ⟨doe, hdoe⟩ : ∃ doe, doe = (z + 719468) % 146097 := ⟨_, rfl⟩
    obtain ⟨doy, hdoy, hyear, hsplit, -⟩ := @eraYear_split doe (by omega)
    unfold Within64 at hsum
    rw [if_pos (show Held z from ⟨hz.1, hsum.2⟩)]
    unfold civilFromDays64 civilOfDays
    rw [i64_bind (by unfold Within64; omega)]
    dsimp only
    rw [← hera, ← hdoe, i64_bind (by unfold Within64; omega), i64_bind (by unfold Within64; omega),
      i64_bind (by unfold Within64; omega), ← eraYear]
    generalize eraYear doe = yoe at *
    obtain ⟨hdoy₁, hdoy₂⟩ := hdoy
    obtain ⟨hyear₁, hyear₂⟩ := hyear
    have hspent : doe - (365 * yoe + yoe / 4 - yoe / 100) = doy := by omega
    rw [i64_bind (by unfold Within64; omega), i64_bind (by unfold Within64; omega),
      i64_bind (by unfold Within64; omega), i64_bind (by unfold Within64; omega), hspent,
      i64_bind (by unfold Within64; omega), i64_bind (by unfold Within64; omega)]
    obtain ⟨mp, hmp⟩ : ∃ mp, mp = (5 * doy + 2) / 153 := ⟨_, rfl⟩
    obtain ⟨month, hmonth⟩ : ∃ month, month = if mp < 10 then mp + 3 else mp - 9 := ⟨_, rfl⟩
    have hmonthRange : -10 ≤ month ∧ month ≤ 12 := by
      rw [hmonth]
      split <;> omega
    rw [← hmp, i64_bind (by unfold Within64; omega), i64_bind (by unfold Within64; omega),
      i64_bind (by unfold Within64; omega), i64_bind (by unfold Within64; omega), ← hmonth,
      i64_bind (by unfold Within64; omega), i64_bind (by unfold Within64; omega),
      i64_bind (by unfold Within64; omega), i64_bind (by unfold Within64; split <;> omega)]
    rfl
  · rw [if_neg]
    · unfold civilFromDays64
      rw [i64_stop hsum]
    · unfold Within64 at hsum
      unfold Held
      omega

/-- The month of a number of months from March. -/
def monthOf (mp : ℤ) : ℤ := if mp < 10 then mp + 3 else mp - 9

/-- A day of a year that begins in March is a day of its month. -/
theorem day_of_month {doy : ℤ} (h : 0 ≤ doy ∧ doy ≤ 365) (leap : Bool)
    (hleap : doy = 365 → leap = true) : (0 ≤ (5 * doy + 2) / 153 ∧ (5 * doy + 2) / 153 ≤ 11) ∧
    1 ≤ doy - (153 * ((5 * doy + 2) / 153) + 2) / 5 + 1 ∧
    doy - (153 * ((5 * doy + 2) / 153) + 2) / 5 + 1 ≤
      daysIn leap (monthOf ((5 * doy + 2) / 153)).toNat := by
  obtain ⟨n, rfl⟩ := Int.eq_ofNat_of_zero_le h.1
  have hmonths := @month_of_day n (by omega) leap fun hlast => hleap (by omega)
  obtain ⟨k, hk⟩ : ∃ k, k = (5 * n + 2) / 153 := ⟨_, rfl⟩
  have hcast : (5 * (n : ℤ) + 2) / 153 = (k : ℤ) := by omega
  dsimp only at hmonths
  rw [← hk] at hmonths
  rw [hcast]
  unfold monthOf
  by_cases hspring : k < 10
  · rw [if_pos (by omega), show ((k : ℤ) + 3).toNat = k + 3 by omega]
    have hdays := (hmonths.1 hspring).2
    omega
  · rw [if_neg (by omega), show ((k : ℤ) - 9).toNat = k - 9 by omega]
    have hdays := (hmonths.2 (by omega)).2.2
    omega

/-- A day of a month is a day of a year that begins in March, and the month and the day are
read back from it. -/
theorem month_of_date {mp d : ℤ} {leap : Bool} (hmp : 0 ≤ mp ∧ mp ≤ 11) (hd : 1 ≤ d)
    (hlength : d ≤ daysIn leap (monthOf mp).toNat) :
    (0 ≤ (153 * mp + 2) / 5 + d - 1 ∧ (153 * mp + 2) / 5 + d - 1 ≤ 365) ∧
    ((153 * mp + 2) / 5 + d - 1 = 365 → mp = 11 ∧ leap = true) ∧
    (5 * ((153 * mp + 2) / 5 + d - 1) + 2) / 153 = mp := by
  obtain ⟨hlow, hhigh⟩ := hmp
  cases leap with
  | false => interval_cases mp <;> simp [monthOf, daysIn] at hlength ⊢ <;> omega
  | true => interval_cases mp <;> simp [monthOf, daysIn] at hlength ⊢ <;> omega

/-- The date of a day number is a real one, and its day number is that number. -/
theorem daysFromCivil_civilOfDays {z y m d : ℤ} (h : civilOfDays z = (y, m, d)) :
    RealDate y m d ∧ daysFromCivil y m d = some z := by
  obtain ⟨era, hera⟩ : ∃ era, era = (z + 719468) / 146097 := ⟨_, rfl⟩
  obtain ⟨doe, hdoe⟩ : ∃ doe, doe = (z + 719468) % 146097 := ⟨_, rfl⟩
  obtain ⟨doy, hdoy, hyear, hsplit, hleap⟩ := @eraYear_split doe (by omega)
  unfold civilOfDays at h
  dsimp only at h
  rw [← hera, ← hdoe] at h
  generalize eraYear doe = yoe at *
  have hspent : doe - (365 * yoe + yoe / 4 - yoe / 100) = doy := by omega
  rw [hspent, ← monthOf] at h
  obtain ⟨hy, hm, hd⟩ : yoe + era * 400 + (if monthOf ((5 * doy + 2) / 153) ≤ 2 then 1 else 0) = y ∧
      monthOf ((5 * doy + 2) / 153) = m ∧ doy - (153 * ((5 * doy + 2) / 153) + 2) / 5 + 1 = d := by
    simpa only [Prod.mk.injEq] using h
  have hlast : doy = 365 → decide (LeapYear y) = true := by
    intro hlast
    have hlong := hleap hlast
    have hmonth : m = 2 := by rw [← hm, hlast]; decide
    rw [hm, hmonth, if_pos (by decide)] at hy
    rw [decide_eq_true_eq, LeapYear]
    omega
  obtain ⟨hmp, hday, hlength⟩ := day_of_month hdoy (decide (LeapYear y)) hlast
  rw [hm, hd] at hlength
  rw [hd] at hday
  obtain ⟨mp, hmpDef⟩ : ∃ mp, mp = (5 * doy + 2) / 153 := ⟨_, rfl⟩
  rw [← hmpDef] at hm hd hy hmp
  have hmonths : 1 ≤ m ∧ m ≤ 12 ∧ (if m > 2 then m - 3 else m + 9) = mp := by
    rw [← hm]
    unfold monthOf
    split <;> split <;> omega
  obtain ⟨hm₁, hm₂, hback⟩ := hmonths
  have hd₂ := daysIn_le (decide (LeapYear y)) m.toNat
  refine ⟨⟨hm₁, hm₂, hday, hlength⟩, ?_⟩
  obtain ⟨shifted, mp', yoe', doy', doe', hshifted, hmp', hyoe', hdoy', hdoe', -, -, -, hdays⟩ :=
    daysFromCivil_terms (y := y) ⟨hm₁, hm₂⟩ (d := d) ⟨hday, by omega⟩
  have hyears : shifted = yoe + era * 400 := by
    rw [hm] at hy
    omega
  have heras : shifted / 400 = era := by omega
  have hyearBack : yoe' = yoe := by omega
  have hmpBack : mp' = mp := hmp'.trans hback
  have hdoyBack : doy' = doy := by
    rw [hdoy', hmpBack]
    omega
  rw [hdays, heras, hdoe', hyearBack, hdoyBack]
  congr 1
  omega

/-- A real date is the date of its day number. -/
theorem civilOfDays_daysFromCivil {y m d : ℤ} (h : RealDate y m d) :
    ∃ z, daysFromCivil y m d = some z ∧ civilOfDays z = (y, m, d) := by
  obtain ⟨hm₁, hm₂, hday, hlength⟩ := h
  have hd₂ := daysIn_le (decide (LeapYear y)) m.toNat
  obtain ⟨shifted, mp, yoe, doy, doe, hshifted, hmp, hyoe, hdoy, hdoe, hmpRange, hyoeRange,
    hdoeRange, hdays⟩ := daysFromCivil_terms (y := y) ⟨hm₁, hm₂⟩ (d := d) ⟨hday, by omega⟩
  have hmonth : monthOf mp = m := by
    rw [hmp]
    unfold monthOf
    split <;> split <;> omega
  rw [← hmonth] at hlength
  obtain ⟨hdoyRange, hlast, hback⟩ := month_of_date hmpRange hday hlength
  rw [← hdoy] at hdoyRange hlast hback
  have hleap : doy = 365 → (yoe + 1) % 4 = 0 ∧ ((yoe + 1) % 100 ≠ 0 ∨ yoe = 399) := by
    intro hend
    obtain ⟨hfebruary, hlong⟩ := hlast hend
    rw [decide_eq_true_eq, LeapYear] at hlong
    have hshift : shifted = y - 1 := by
      rw [hshifted, if_pos]
      rw [← hmonth, hfebruary]
      decide
    omega
  have hyear := eraYear_unique hyoeRange hdoyRange hleap
  refine ⟨_, hdays, ?_⟩
  have hsplit : 365 * yoe + yoe / 4 - yoe / 100 + doy = doe := by omega
  rw [hsplit] at hyear
  unfold civilOfDays
  dsimp only
  have hera : (shifted / 400 * 146097 + doe - 719468 + 719468) / 146097 = shifted / 400 := by
    omega
  have hrest : (shifted / 400 * 146097 + doe - 719468 + 719468) % 146097 = doe := by omega
  rw [hera, hrest, hyear, ← hsplit]
  have hspent : 365 * yoe + yoe / 4 - yoe / 100 + doy - (365 * yoe + yoe / 4 - yoe / 100) = doy := by
    omega
  rw [hspent, hback, ← monthOf, hmonth]
  have hyears : yoe + shifted / 400 * 400 + (if m ≤ 2 then 1 else 0) = y := by omega
  have hdays : doy - (153 * mp + 2) / 5 + 1 = d := by omega
  rw [hyears, hdays]

/-- The month and the day of a converted date. -/
theorem daysFromCivil_range {y m d z : ℤ} (h : daysFromCivil y m d = some z) :
    (1 ≤ m ∧ m ≤ 12) ∧ (1 ≤ d ∧ d ≤ 31) := by
  unfold daysFromCivil at h
  split at h
  · cases h
  · rename_i hrange
    simpa only [Bool.or_eq_true, Bool.not_eq_true', Bool.and_eq_false_iff, decide_eq_false_iff_not,
      not_or, not_not] using hrange

/-- The dates from the first one on whose day number the type holds. -/
def NotBefore (y m d : ℤ) : Prop :=
  -25252734927764585 < y ∨ y = -25252734927764585 ∧ (6 < m ∨ m = 6 ∧ 7 ≤ d)

instance (y m d : ℤ) : Decidable (NotBefore y m d) := inferInstanceAs (Decidable (_ ∨ _))

/-- The dates up to the last one whose day number is computed within the type. -/
def NotAfter (y m d : ℤ) : Prop :=
  y < 25252734927766554 ∨ y = 25252734927766554 ∧ (m < 9 ∨ m = 9 ∧ d ≤ 25)

instance (y m d : ℤ) : Decidable (NotAfter y m d) := inferInstanceAs (Decidable (_ ∨ _))

/-- The terms of a date stay within the type on the dates between those two. -/
theorem held_iff {y m d z : ℤ} (h : daysFromCivil y m d = some z) :
    Held z ↔ NotBefore y m d ∧ NotAfter y m d := by
  obtain ⟨hm, hd⟩ := daysFromCivil_range h
  obtain ⟨shifted, mp, yoe, doy, doe, hshifted, hmp, hyoe, hdoy, hdoe, -, hyoeRange, -, hdays⟩ :=
    daysFromCivil_terms (y := y) hm hd
  rw [h, Option.some_inj] at hdays
  obtain ⟨hm₁, hm₂⟩ := hm
  have hlow : -9223372036854775808 ≤ z ↔ NotBefore y m d := by
    unfold NotBefore
    interval_cases m <;> simp at hshifted hmp ⊢ <;> omega
  have hhigh : z + 719468 ≤ 9223372036854775807 ↔ NotAfter y m d := by
    unfold NotAfter
    interval_cases m <;> simp at hshifted hmp ⊢ <;> omega
  rw [← hlow, ← hhigh, Held]

/-- A day number has a real date and comes back from it exactly as far as the type reaches. -/
theorem civilFromDays64_inverse (z : Int64) :
    (∃ y m d, civilFromDays64 z.toInt = .ok (y, m, d) ∧ RealDate y m d ∧
      daysFromCivil64 y m d = .ok (some z.toInt)) ↔ Held z.toInt := by
  have hz : Within64 z.toInt := ⟨z.le_toInt, Int.le_of_lt_add_one z.toInt_lt⟩
  rw [civilFromDays64_eq hz]
  constructor
  · rintro ⟨y, m, d, hdate, -⟩
    by_contra hheld
    rw [if_neg hheld] at hdate
    cases hdate
  · intro hheld
    rcases hdate : civilOfDays z.toInt with ⟨y, m, d⟩
    obtain ⟨hreal, hdays⟩ := daysFromCivil_civilOfDays hdate
    have hyear : Within64 y := by
      obtain ⟨hfirst, hlast⟩ := (held_iff hdays).mp hheld
      unfold NotBefore at hfirst
      unfold NotAfter at hlast
      unfold Within64
      omega
    refine ⟨y, m, d, by rw [if_pos hheld], hreal, ?_⟩
    rw [daysFromCivil64_eq hyear, hdays]
    dsimp only
    rw [if_pos hheld]

/-- A real date comes back from its day number exactly between the first and the last date
the type reaches. -/
theorem daysFromCivil64_inverse (y m d : Int64) (h : RealDate y.toInt m.toInt d.toInt) :
    (∃ z, daysFromCivil64 y.toInt m.toInt d.toInt = .ok (some z) ∧
      civilFromDays64 z = .ok (y.toInt, m.toInt, d.toInt)) ↔
    NotBefore y.toInt m.toInt d.toInt ∧ NotAfter y.toInt m.toInt d.toInt := by
  have hy : Within64 y.toInt := ⟨y.le_toInt, Int.le_of_lt_add_one y.toInt_lt⟩
  obtain ⟨z, hdays, hdate⟩ := civilOfDays_daysFromCivil h
  rw [daysFromCivil64_eq hy, hdays, ← held_iff hdays]
  dsimp only
  constructor
  · rintro ⟨_, hok, -⟩
    by_contra hheld
    rw [if_neg hheld] at hok
    cases hok
  · intro hheld
    refine ⟨z, by rw [if_pos hheld], ?_⟩
    have hz : Within64 z := by
      unfold Held at hheld
      unfold Within64
      omega
    rw [civilFromDays64_eq hz, if_pos hheld, hdate]

end Kerbridge.DayArithmetic
