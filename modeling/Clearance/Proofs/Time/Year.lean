import Clearance.Proofs.Time.Calendar
import Clearance.Time.Instant

/-!
# Which days lie in a year

The days of a year are those from its first day to the one before the first day of the next
(`le_year_ofDayNumber_iff`). So whether the calendar can name a day is a matter of two bounds on its
number, and how far one can go back from any day of some years is decided on the first day of the first of
them (`inCalendar_minusDays_iff`).
-/

namespace Clearance.Time

namespace Date

/-- The number of the first day of a year. -/
def newYear (year : Int) : Int := toDayNumber ⟨year, 1, 1⟩

/-- The day on which a year begins, from its leap years. -/
theorem newYear_eq (year : Int) :
    newYear year =
      365 * (year - 1) + (year - 1) / 4 - (year - 1) / 100 + (year - 1) / 400 + 306 - 719468 := by
  unfold newYear toDayNumber
  simp only [if_pos (show (1 : Nat) ≤ 2 by decide)]
  omega

/-- No year has fewer than 365 days. -/
theorem newYear_lt {y y' : Int} (h : y < y') : newYear y + 365 ≤ newYear y' := by
  rw [newYear_eq, newYear_eq]
  omega

/-- Later years begin no earlier. -/
theorem newYear_le {y y' : Int} (h : y ≤ y') : newYear y ≤ newYear y' := by
  rcases Int.lt_or_eq_of_le h with hlt | rfl
  · have hlong := newYear_lt hlt
    omega
  · exact Int.le_refl _

/-- A day lies between the first days of its year and of the next. -/
theorem toDayNumber_in_year {d : Date} (hmonth : 1 ≤ d.month ∧ d.month ≤ 12)
    (hday : 1 ≤ d.day ∧ d.day ≤ 31) :
    newYear d.year ≤ d.toDayNumber ∧ d.toDayNumber < newYear (d.year + 1) := by
  rw [newYear_eq, newYear_eq, Int.add_sub_cancel]
  unfold toDayNumber
  dsimp only
  split <;> omega

/-- **A day is in a year or a later one if it does not come before the first day of the year.** -/
theorem le_year_ofDayNumber_iff {n y : Int} : y ≤ (ofDayNumber n).year ↔ newYear y ≤ n := by
  have hbetween := toDayNumber_in_year ⟨(ofDayNumber_pos n).1, (ofDayNumber_le n).1⟩
    ⟨(ofDayNumber_pos n).2, (ofDayNumber_le n).2⟩
  rw [toDayNumber_ofDayNumber] at hbetween
  constructor
  · intro h
    exact Int.le_trans (newYear_le h) hbetween.1
  · intro h
    refine Decidable.byContradiction fun hn => ?_
    have hlater : newYear ((ofDayNumber n).year + 1) ≤ newYear y := newYear_le (Int.not_le.1 hn)
    omega

end Date

namespace Instant

/-- The number of the day of an instant. -/
def dayNumber (t : Instant) : Int := t.second / secondsPerDay

/-- Days earlier, the day is that many numbers lower. -/
theorem dayNumber_minusDays (t : Instant) (days : Nat) :
    (t.minusDays days).dayNumber = t.dayNumber - days := by
  rw [minusDays_eq]
  unfold dayNumber secondsPerDay
  dsimp only
  omega

theorem le_year_date_iff {t : Instant} {y : Int} : y ≤ t.date.year ↔ Date.newYear y ≤ t.dayNumber :=
  Date.le_year_ofDayNumber_iff

/-- The calendar reaches from the first day of its first year to the last of its last. -/
theorem inCalendar_iff {t : Instant} :
    t.InCalendar ↔
      Date.newYear Date.firstYear ≤ t.dayNumber ∧ t.dayNumber < Date.newYear (Date.lastYear + 1) := by
  have hlast : t.date.year ≤ Date.lastYear ↔ ¬ Date.lastYear + 1 ≤ t.date.year := by omega
  rw [InCalendar, hlast, le_year_date_iff, le_year_date_iff, Int.not_le]

/-- Some days before any day of some years there is a day that the calendar can name exactly if that is so
for the first day of the first year. -/
theorem inCalendar_minusDays_iff {first last : Int} (hyears : first ≤ last)
    (hlast : last ≤ Date.lastYear) (days : Nat) :
    (∀ t : Instant, first ≤ t.date.year → t.date.year ≤ last → (t.minusDays days).InCalendar) ↔
      (days : Int) ≤ Date.newYear first - Date.newYear Date.firstYear := by
  constructor
  · intro h
    obtain ⟨t, ht⟩ : ∃ t : Instant, t.dayNumber = Date.newYear first :=
      ⟨⟨Date.newYear first * secondsPerDay, 0, by decide⟩, Int.mul_ediv_cancel _ (by decide)⟩
    have hfirst : first ≤ t.date.year := le_year_date_iff.2 (Int.le_of_eq ht.symm)
    have hnext : ¬ last + 1 ≤ t.date.year := by
      rw [le_year_date_iff, ht]
      have hlong : Date.newYear first + 365 ≤ Date.newYear (last + 1) :=
        Date.newYear_lt (Int.lt_add_one_of_le hyears)
      omega
    have hin := inCalendar_iff.1 (h t hfirst (by omega))
    rw [dayNumber_minusDays, ht] at hin
    omega
  · intro hdays t hfirst hnot
    have hstart := le_year_date_iff.1 hfirst
    have hend : ¬ Date.newYear (Date.lastYear + 1) ≤ t.dayNumber := by
      rw [← le_year_date_iff]
      omega
    rw [inCalendar_iff, dayNumber_minusDays]
    omega

end Instant

end Clearance.Time
