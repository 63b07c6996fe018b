import Syndication.Time.Calendar

/-!
# Proofs.Time.Calendar — every day has one date

A day of an era lies in the year whose first day is the last one not after it. The formula that finds
this year grows with the day, so it is enough to look at the first and the last day of each of the 400
years of an era. From the year on, the two directions of the calendar undo each other step by step.

## Contents
* `yearStart`, `yearIndex`, `yearStart_yearIndex` — the year of a day of an era
* `monthIndex_le`, `dayOfMonth_bounds`            — month and day of a day of a year
* `ofDays_isValid`, `toDays_ofDays`               — dates of days
-/

namespace Syndication.Date

/-! ## Years of an era -/

/-- The days of an era before its year number `y`, counted in years that begin in March. -/
def yearStart (y : Nat) : Nat := 365 * y + y / 4 - y / 100

/-- The day with the days that leap years have added taken out. -/
def withoutLeapDays (d : Nat) : Nat := d - d / 1460 + d / 36524 - d / 146096

/-- The year of an era that its day number `d` lies in. -/
def yearIndex (d : Nat) : Nat := withoutLeapDays d / 365

theorem withoutLeapDays_mono {a b : Nat} (h : a ≤ b) (hb : b < 146097) :
    withoutLeapDays a ≤ withoutLeapDays b := by
  unfold withoutLeapDays
  omega

theorem le_withoutLeapDays_first : ∀ y < 400, 365 * y ≤ withoutLeapDays (yearStart y) := by
  decide +kernel

theorem withoutLeapDays_last :
    ∀ y < 400, 0 < y → withoutLeapDays (yearStart y - 1) < 365 * y := by
  decide +kernel

theorem yearIndex_lt {d : Nat} (hd : d < 146097) : yearIndex d < 400 := by
  have h := withoutLeapDays_mono (show d ≤ 146096 by omega) (by decide)
  have h' : withoutLeapDays 146096 = 145999 := by decide
  unfold yearIndex
  omega

/-- **The year of a day.** It is the last one that begins not after the day. -/
theorem yearStart_yearIndex {d : Nat} (hd : d < 146097) :
    yearStart (yearIndex d) ≤ d ∧ (yearIndex d < 399 → d < yearStart (yearIndex d + 1)) := by
  have hy := yearIndex_lt hd
  have hle : 365 * yearIndex d ≤ withoutLeapDays d := by unfold yearIndex; omega
  have hlt : withoutLeapDays d < 365 * (yearIndex d + 1) := by unfold yearIndex; omega
  generalize yearIndex d = y at hy hle hlt ⊢
  constructor
  · apply Nat.le_of_not_lt
    intro hlate
    have hpos : 0 < y := by
      rcases Nat.eq_zero_or_pos y with rfl | hpos
      · simp [yearStart] at hlate
      · exact hpos
    have hmono := withoutLeapDays_mono (show d ≤ yearStart y - 1 by omega)
      (by unfold yearStart; omega)
    -- the formula gives an earlier year for the day before, and it grows with the day
    have hlast := withoutLeapDays_last y hy hpos
    omega
  · intro hy'
    apply Nat.lt_of_not_le
    intro hearly
    have hmono := withoutLeapDays_mono hearly hd
    -- the formula gives the next year for its first day already
    have hfirst := le_withoutLeapDays_first (y + 1) (by omega)
    omega

/-! ## Months of a year -/

/-- The month of a day of a year that begins in March. -/
def monthIndex (d : Nat) : Nat := (5 * d + 2) / 153

/-- The first day of a month of such a year. -/
def monthStart (m : Nat) : Nat := (153 * m + 2) / 5

theorem monthIndex_le {d : Nat} (hd : d ≤ 365) : monthIndex d ≤ 11 := by
  unfold monthIndex
  omega

theorem monthStart_monthIndex (d : Nat) : monthStart (monthIndex d) ≤ d := by
  unfold monthStart monthIndex
  omega

/-- The days of the months from March on; February is the last one. -/
def monthLength : Nat → Nat
  | 1 | 3 | 6 | 8 => 30
  | 11 => 29
  | _ => 31

theorem lt_monthStart_succ {d : Nat} (hd : d ≤ 365) :
    d - monthStart (monthIndex d) < monthLength (monthIndex d) := by
  have h : ∀ d < 366, d - monthStart (monthIndex d) < monthLength (monthIndex d) := by
    decide +kernel
  exact h d (by omega)

/-- A 29th of February is the day with the number 365. -/
theorem eq_of_february {d : Nat} (hday : d - monthStart 11 = 28) : d = 365 := by
  have h : monthStart 11 = 337 := by decide
  omega

/-! ## Dates of days -/

/-- The number of a day in its era. -/
def dayOfEra (days : Int) : Nat := ((days + 719468) % 146097).toNat

/-- The year of its era that a day lies in. -/
def yearOfEra (days : Int) : Nat := yearIndex (dayOfEra days)

/-- The number of a day in its year. -/
def dayOfYear (days : Int) : Nat := dayOfEra days - yearStart (yearOfEra days)

theorem dayOfEra_lt (days : Int) : dayOfEra days < 146097 := by
  unfold dayOfEra
  omega

theorem yearOfEra_lt (days : Int) : yearOfEra days < 400 := yearIndex_lt (dayOfEra_lt days)

theorem yearStart_add_dayOfYear (days : Int) :
    yearStart (yearOfEra days) + dayOfYear days = dayOfEra days := by
  have h := (yearStart_yearIndex (dayOfEra_lt days)).1
  unfold dayOfYear yearOfEra
  omega

theorem yearStart_succ (y : Nat) :
    yearStart (y + 1) ≤ yearStart y + 366 ∧
      (yearStart (y + 1) = yearStart y + 366 → (y + 1) % 4 = 0 ∧ (y + 1) % 100 ≠ 0) := by
  have h4 : (y + 1) / 4 = y / 4 + if (y + 1) % 4 = 0 then 1 else 0 := by split <;> omega
  have h100 : (y + 1) / 100 = y / 100 + if (y + 1) % 100 = 0 then 1 else 0 := by split <;> omega
  unfold yearStart
  rw [h4, h100]
  split <;> split <;> omega

theorem dayOfYear_le (days : Int) : dayOfYear days ≤ 365 := by
  have hlt := dayOfEra_lt days
  have hlast := (yearStart_yearIndex hlt).2
  have hy := yearOfEra_lt days
  have hend : yearStart 399 = 145731 := by decide
  have hsucc := (yearStart_succ (yearOfEra days)).1
  unfold dayOfYear
  change yearOfEra days < 399 → dayOfEra days < yearStart (yearOfEra days + 1) at hlast
  rcases Nat.lt_or_ge (yearOfEra days) 399 with h | h
  · have := hlast h
    omega
  · rw [show yearOfEra days = 399 by omega]
    omega

/-- Only a leap year has a day with the number 365. -/
theorem leap_of_dayOfYear {days : Int} (h : dayOfYear days = 365) :
    (yearOfEra days + 1) % 4 = 0 ∧ ((yearOfEra days + 1) % 100 ≠ 0 ∨ yearOfEra days = 399) := by
  have hlast := (yearStart_yearIndex (dayOfEra_lt days)).2
  have hy := yearOfEra_lt days
  have hsucc := yearStart_succ (yearOfEra days)
  have hsum := yearStart_add_dayOfYear days
  change yearOfEra days < 399 → dayOfEra days < yearStart (yearOfEra days + 1) at hlast
  rcases Nat.lt_or_ge (yearOfEra days) 399 with hlt | hge
  · have := hlast hlt
    have hleap := hsucc.2 (by omega)
    exact ⟨hleap.1, .inl hleap.2⟩
  · have h399 : yearOfEra days = 399 := by omega
    rw [h399]
    exact ⟨by decide, .inr rfl⟩

/-- **The date of a day**, by the year of its era and its number in that year. -/
theorem ofDays_eq (days : Int) :
    ofDays days =
      ⟨yearOfEra days + (days + 719468) / 146097 * 400 +
          (if monthIndex (dayOfYear days) < 10 then 0 else 1),
        if monthIndex (dayOfYear days) < 10 then monthIndex (dayOfYear days) + 3
          else monthIndex (dayOfYear days) - 9,
        dayOfYear days - monthStart (monthIndex (dayOfYear days)) + 1⟩ := by
  have hfdiv : ∀ a b : Int, 0 ≤ b → a.fdiv b = a / b := fun a _ => Int.fdiv_eq_ediv_of_nonneg a
  have hera : days + 719468 - (days + 719468).fdiv 146097 * 146097 = (dayOfEra days : Int) := by
    rw [hfdiv _ 146097 (by decide)]
    unfold dayOfEra
    omega
  have hyear : ((dayOfEra days : Int) - (dayOfEra days : Int).fdiv 1460 +
      (dayOfEra days : Int).fdiv 36524 - (dayOfEra days : Int).fdiv 146096).fdiv 365 =
      (yearOfEra days : Int) := by
    rw [hfdiv _ 1460 (by decide), hfdiv _ 36524 (by decide), hfdiv _ 146096 (by decide), hfdiv _ 365 (by decide)]
    unfold yearOfEra yearIndex withoutLeapDays
    omega
  have hday : (dayOfEra days : Int) - (365 * (yearOfEra days : Int) +
      (yearOfEra days : Int).fdiv 4 - (yearOfEra days : Int).fdiv 100) = (dayOfYear days : Int) := by
    have hsum := yearStart_add_dayOfYear days
    rw [hfdiv _ 4 (by decide), hfdiv _ 100 (by decide)]
    unfold yearStart at hsum
    omega
  have hmonth : (5 * (dayOfYear days : Int) + 2).fdiv 153 = (monthIndex (dayOfYear days) : Int) := by
    rw [hfdiv _ 153 (by decide)]
    unfold monthIndex
    omega
  have hstart : (153 * (monthIndex (dayOfYear days) : Int) + 2).fdiv 5 =
      (monthStart (monthIndex (dayOfYear days)) : Int) := by
    rw [hfdiv _ 5 (by decide)]
    unfold monthStart
    omega
  have hle := monthStart_monthIndex (dayOfYear days)
  have hm := monthIndex_le (dayOfYear_le days)
  unfold ofDays
  simp only [hera, hyear, hday, hmonth, hstart]
  rw [hfdiv _ 146097 (by decide)]
  -- these years begin in March, so their last two months are of the next calendar year
  by_cases h10 : monthIndex (dayOfYear days) < 10
  · have h10' : (monthIndex (dayOfYear days) : Int) < 10 := by omega
    have h2 : ¬ (monthIndex (dayOfYear days) : Int) + 3 ≤ 2 := by omega
    simp only [h10, h10', h2, if_true, if_false, mk.injEq, true_and]
    exact ⟨by omega, by omega⟩
  · have h10' : ¬ (monthIndex (dayOfYear days) : Int) < 10 := by omega
    have h2 : (monthIndex (dayOfYear days) : Int) - 9 ≤ 2 := by omega
    simp only [h10, h10', h2, if_true, if_false, mk.injEq, true_and]
    exact ⟨by omega, by omega⟩

/-- The months from March on are as long as those of the calendar. -/
theorem daysInMonth_eq (year : Int) {m : Nat} (hm : m ≤ 11) :
    daysInMonth year (if m < 10 then m + 3 else m - 9) =
      if m = 11 ∧ isLeap year = false then 28 else monthLength m := by
  unfold daysInMonth
  generalize isLeap year = leap
  revert m
  cases leap <;> decide

theorem isLeap_iff (year : Int) :
    isLeap year = true ↔ year % 4 = 0 ∧ (year % 100 ≠ 0 ∨ year % 400 = 0) := by
  unfold isLeap
  rw [Int.fmod_eq_emod_of_nonneg _ (by decide), Int.fmod_eq_emod_of_nonneg _ (by decide),
    Int.fmod_eq_emod_of_nonneg _ (by decide)]
  simp

theorem isLeap_of_dayOfYear {days : Int} (h : dayOfYear days = 365) :
    isLeap (yearOfEra days + (days + 719468) / 146097 * 400 + 1) = true := by
  obtain ⟨h4, h100⟩ := leap_of_dayOfYear h
  rw [isLeap_iff]
  rcases h100 with h100 | h400
  · exact ⟨by omega, .inl (by omega)⟩
  · exact ⟨by omega, .inr (by omega)⟩

/-- The day of a date is one of its month. -/
theorem day_ofDays (days : Int) :
    1 ≤ (ofDays days).day ∧ (ofDays days).day ≤ daysInMonth (ofDays days).year (ofDays days).month := by
  have hd := dayOfYear_le days
  have hm := monthIndex_le hd
  have hlt := lt_monthStart_succ hd
  rw [ofDays_eq]
  refine ⟨Nat.le_add_left 1 _, ?_⟩
  simp only [daysInMonth_eq _ hm]
  by_cases h11 : monthIndex (dayOfYear days) = 11
  · rw [h11] at hlt
    simp only [h11, true_and, show ¬ 11 < 10 by decide, if_false]
    -- A 29th of February makes the year a leap year.
    by_cases h29 : dayOfYear days - monthStart 11 = 28
    · have hleap := isLeap_of_dayOfYear (eq_of_february h29)
      rw [hleap, h29]
      decide
    · have hshort : dayOfYear days - monthStart 11 < 28 := by
        have h : monthLength 11 = 29 := rfl
        omega
      split
      · omega
      · exact hlt
  · simp only [h11, false_and, if_false]
    exact hlt

theorem month_ofDays (days : Int) : 1 ≤ (ofDays days).month ∧ (ofDays days).month ≤ 12 := by
  have hm := monthIndex_le (dayOfYear_le days)
  rw [ofDays_eq]
  simp only []
  split <;> omega

theorem daysInMonth_le (year : Int) (month : Nat) : daysInMonth year month ≤ 31 := by
  unfold daysInMonth
  generalize isLeap year = leap
  cases leap <;> split <;> decide

/-- **Dates exist.** Every day of a year of the calendar has a date that does. -/
theorem ofDays_isValid {days : Int} (hlo : minYear ≤ (ofDays days).year)
    (hhi : (ofDays days).year ≤ maxYear) : (ofDays days).IsValid :=
  ⟨hlo, hhi, day_ofDays days⟩

/-- **The way back.** The date of a day leads to the day. -/
theorem toDays_ofDays (days : Int) : (ofDays days).toDays = days := by
  have hfdiv : ∀ a b : Int, 0 ≤ b → a.fdiv b = a / b := fun a _ => Int.fdiv_eq_ediv_of_nonneg a
  have hm := monthIndex_le (dayOfYear_le days)
  have hy := yearOfEra_lt days
  have hsum := yearStart_add_dayOfYear days
  have hera : (dayOfEra days : Int) = (days + 719468) % 146097 := by
    unfold dayOfEra
    omega
  have hle := monthStart_monthIndex (dayOfYear days)
  unfold yearStart at hsum
  rw [ofDays_eq]
  unfold toDays
  generalize dayOfYear days = d at hm hsum hle ⊢
  generalize yearOfEra days = y at hy hsum ⊢
  have hyear : ∀ era : Int, ((y : Int) + era * 400) / 400 = era ∧
      (y : Int) + era * 400 - era * 400 = y := fun era => by omega
  have hday : (153 * (monthIndex d : Int) + 2) / 5 = (monthStart (monthIndex d) : Int) := by
    unfold monthStart
    omega
  generalize monthStart (monthIndex d) = start at hle hday ⊢
  generalize monthIndex d = m at hm hday ⊢
  by_cases h10 : m < 10
  · have hm3 : ((m + 3 : Nat) : Int) - 3 = m := by omega
    simp only [h10, if_true, show ¬ m + 3 ≤ 2 by omega, if_false, Int.add_zero, hm3,
      hfdiv _ 400 (by decide), hfdiv _ 4 (by decide), hfdiv _ 100 (by decide),
      hfdiv _ 5 (by decide), (hyear _).1, (hyear _).2, hday]
    omega
  · have hm9 : ((m - 9 : Nat) : Int) + 9 = m := by omega
    have hback : ∀ a : Int, a + 1 - 1 = a := fun a => by omega
    simp only [h10, if_false, show m - 9 ≤ 2 by omega, if_true, hback, hm9,
      hfdiv _ 400 (by decide), hfdiv _ 4 (by decide), hfdiv _ 100 (by decide),
      hfdiv _ 5 (by decide), (hyear _).1, (hyear _).2, hday]
    omega

end Syndication.Date
