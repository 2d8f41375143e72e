import Clearance.Time.Calendar

/-!
# The number of a day names the day

`Date.ofDayNumber` finds year, month and day by divisions in which the leap days are made up for
beforehand. `toDayNumber_ofDayNumber` says that nothing is lost on the way: the day that is found has
the number that was asked for.

An era of 400 years has four centuries, a century 25 cycles of four years, and a cycle four years; the
last year of a cycle has a day more unless it ends a century, and the last of the era has it all the
same. `exists_parts` takes a day of an era apart like this, and on the parts the divisions are seen to
give the year.
-/

namespace Clearance.Time.Date

/-- The year of an era in which its `n`th day lies. -/
def yearOfEra (n : Int) : Int := (n - n / 1460 + n / 36524 - n / 146096) / 365

/-- The `n`th day of an era by century, cycle, year and day of the year. -/
structure Parts (n c q y d : Int) : Prop where
  sum : n = 36524 * c + 1461 * q + 365 * y + d
  century : c = 0 ∨ c = 1 ∨ c = 2 ∨ c = 3
  cycle : 0 ≤ q ∧ q ≤ 24
  year : y = 0 ∨ y = 1 ∨ y = 2 ∨ y = 3
  day : 0 ≤ d
  /-- There is a 366th day only in the last year of a cycle. -/
  leap : d ≤ 364 ∨ d = 365 ∧ y = 3 ∧ (q ≤ 23 ∨ c = 3)

theorem exists_parts {n : Int} (h : 0 ≤ n) (h' : n < 146097) : ∃ c q y d, Parts n c q y d := by
  obtain ⟨c, hc⟩ : ∃ c : Int, c = min 3 (n / 36524) := ⟨_, rfl⟩
  obtain ⟨q, hq⟩ : ∃ q : Int, q = (n - 36524 * c) / 1461 := ⟨_, rfl⟩
  obtain ⟨y, hy⟩ : ∃ y : Int, y = min 3 ((n - 36524 * c - 1461 * q) / 365) := ⟨_, rfl⟩
  refine ⟨c, q, y, n - 36524 * c - 1461 * q - 365 * y, ?_, ?_, ?_, ?_, ?_, ?_⟩
  all_goals omega

namespace Parts

variable {n c q y d : Int}

/-- Whole centuries show in the divisions by the days of a century and of an era. -/
theorem century_eq (h : Parts n c q y d) : n / 36524 - n / 146096 = c := by
  obtain ⟨hsum, hc, hq, hy, hd, hleap⟩ := h
  obtain ⟨r, hr⟩ : ∃ r : Int, r = 1461 * q + 365 * y + d := ⟨_, rfl⟩
  have hlast : 0 ≤ r ∧ (r < 36524 ∨ r = 36524 ∧ c = 3) := by omega
  have hera : n / 146096 = n / 36524 / 4 := by omega
  have hquot : n / 36524 = c + r / 36524 := by omega
  omega

theorem yearOfEra_eq (h : Parts n c q y d) : yearOfEra n = 100 * c + 4 * q + y := by
  have hcentury := h.century_eq
  obtain ⟨hsum, hc, hq, hy, hd, hleap⟩ := h
  -- the leap days before this one, and whether it has come so far into a cycle as to count itself
  obtain ⟨x, hx⟩ : ∃ x : Int, x = (24 * c + q + 365 * y + d) / 1460 := ⟨_, rfl⟩
  have hcycle : n / 1460 = 25 * c + q + x := by omega
  have hleft : x ≤ d ∧ d - x < 365 := by omega
  unfold yearOfEra
  omega

end Parts

/-- The year of a day of an era, and how far into that year the day is. -/
theorem yearOfEra_spec {n : Int} (h : 0 ≤ n) (h' : n < 146097) :
    0 ≤ yearOfEra n ∧ yearOfEra n ≤ 399 ∧
      0 ≤ n - (365 * yearOfEra n + yearOfEra n / 4 - yearOfEra n / 100) ∧
      n - (365 * yearOfEra n + yearOfEra n / 4 - yearOfEra n / 100) ≤ 365 := by
  obtain ⟨c, q, y, d, hparts⟩ := exists_parts h h'
  rw [hparts.yearOfEra_eq]
  obtain ⟨hsum, hc, hq, hy, hd, hleap⟩ := hparts
  omega

/-- A year that begins in March has a 366th day only if it ends in a leap year. -/
theorem isLeapYear_of_lastDay {n : Int} (h : 0 ≤ n) (h' : n < 146097) (era : Int)
    (hlast : n - (365 * yearOfEra n + yearOfEra n / 4 - yearOfEra n / 100) = 365) :
    isLeapYear (yearOfEra n + 400 * era + 1) = true := by
  obtain ⟨c, q, y, d, hparts⟩ := exists_parts h h'
  rw [hparts.yearOfEra_eq] at hlast ⊢
  obtain ⟨hsum, hc, hq, hy, hd, hleap⟩ := hparts
  simp only [isLeapYear, Bool.and_eq_true, Bool.or_eq_true, decide_eq_true_eq]
  omega

/-- The month of a day, counted from March, and how far into that month the day is. -/
theorem month_spec {d : Int} (h : 0 ≤ d) (h' : d ≤ 365) :
    0 ≤ (5 * d + 2) / 153 ∧ (5 * d + 2) / 153 ≤ 11 ∧
      0 ≤ d - (153 * ((5 * d + 2) / 153) + 2) / 5 ∧
      d - (153 * ((5 * d + 2) / 153) + 2) / 5 ≤ 30 := by
  omega

/-- A day that is found has one of twelve months and is at most its 31st day. -/
theorem ofDayNumber_le (n : Int) : (ofDayNumber n).month ≤ 12 ∧ (ofDayNumber n).day ≤ 31 := by
  have hera : 0 ≤ (n + 719468) % 146097 ∧ (n + 719468) % 146097 < 146097 := by omega
  obtain ⟨-, -, hday, hday'⟩ := yearOfEra_spec hera.1 hera.2
  obtain ⟨hmonth, hmonth', -, hrest⟩ := month_spec hday hday'
  constructor
  · show (if _ < (10 : Int) then _ else _ : Int).toNat ≤ 12
    split <;> omega
  · exact Int.toNat_le.2 (Int.add_le_add_right hrest 1)

/-- Months and days are counted from one. -/
theorem ofDayNumber_pos (n : Int) : 1 ≤ (ofDayNumber n).month ∧ 1 ≤ (ofDayNumber n).day := by
  have hera : 0 ≤ (n + 719468) % 146097 ∧ (n + 719468) % 146097 < 146097 := by omega
  obtain ⟨-, -, hday, hday'⟩ := yearOfEra_spec hera.1 hera.2
  obtain ⟨hmonth, hmonth', hrest, -⟩ := month_spec hday hday'
  constructor
  · show 1 ≤ (if _ < (10 : Int) then _ else _ : Int).toNat
    split <;> omega
  · exact Int.lt_toNat.2 (Int.lt_add_one_of_le hrest)

/-- The number of a day that is named by a year that begins in March, a month of it counted from zero
and a day of the month. -/
theorem toDayNumber_fromMarch {y m day : Int} (hm : 0 ≤ m ∧ m ≤ 11) (hday : 0 ≤ day) :
    toDayNumber
        ⟨if (if m < 10 then m + 3 else m - 9) ≤ 2 then y + 1 else y,
          (if m < 10 then m + 3 else m - 9).toNat, day.toNat⟩ =
      365 * y + y / 4 - y / 100 + y / 400 + (153 * m + 2) / 5 + day - 1 - 719468 := by
  unfold toDayNumber
  dsimp only
  rw [Int.toNat_of_nonneg hday]
  by_cases hearly : m < 10
  · have hmonth : (m + 3).toNat = m + 3 := Int.toNat_of_nonneg (by omega)
    have hspring : ¬ (m + 3).toNat ≤ 2 := by omega
    rw [if_pos hearly, if_neg hspring, if_neg hspring, if_neg (by omega), hmonth,
      Int.add_sub_cancel]
  · have hmonth : (m - 9).toNat = m - 9 := Int.toNat_of_nonneg (by omega)
    have hwinter : (m - 9).toNat ≤ 2 := by omega
    rw [if_neg hearly, if_pos hwinter, if_pos hwinter, if_pos (by omega), hmonth,
      Int.add_sub_cancel, Int.sub_add_cancel]

/-- Every era has 97 leap days. -/
theorem leapDays_era {y : Int} (h : 0 ≤ y ∧ y ≤ 399) (era : Int) :
    (y + 400 * era) / 4 - (y + 400 * era) / 100 + (y + 400 * era) / 400 =
      y / 4 - y / 100 + 97 * era := by
  have hfour : (y + 400 * era) / 4 = y / 4 + 100 * era := by omega
  have hcentury : (y + 400 * era) / 100 = y / 100 + 4 * era := by omega
  have hera : (y + 400 * era) / 400 = era := by omega
  omega

/-- **The day of a number has that number.** -/
theorem toDayNumber_ofDayNumber (n : Int) : (ofDayNumber n).toDayNumber = n := by
  have hera : 0 ≤ (n + 719468) % 146097 ∧ (n + 719468) % 146097 < 146097 := by omega
  obtain ⟨hyear, hyear', hday, hday'⟩ := yearOfEra_spec hera.1 hera.2
  obtain ⟨hmonth, hmonth', hrest, -⟩ := month_spec hday hday'
  have hleap := leapDays_era ⟨hyear, hyear'⟩ ((n + 719468) / 146097)
  refine (toDayNumber_fromMarch
    (y := yearOfEra ((n + 719468) % 146097) + 400 * ((n + 719468) / 146097))
    ⟨hmonth, hmonth'⟩ (Int.le_add_one hrest)).trans ?_
  generalize yearOfEra ((n + 719468) % 146097) = y at *
  omega

/-- A month that is counted from March is as long as there are days to it. -/
theorem le_monthLength {y d m : Int} (h : 0 ≤ d) (h' : d ≤ 365) (hm : m = (5 * d + 2) / 153)
    (hleap : d = 365 → isLeapYear (y + 1) = true) :
    (d - (153 * m + 2) / 5 + 1).toNat ≤
      monthLength (if (if m < 10 then m + 3 else m - 9) ≤ 2 then y + 1 else y)
        (if m < 10 then m + 3 else m - 9).toNat := by
  have hrange : m = 0 ∨ m = 1 ∨ m = 2 ∨ m = 3 ∨ m = 4 ∨ m = 5 ∨ m = 6 ∨ m = 7 ∨ m = 8 ∨ m = 9 ∨
      m = 10 ∨ m = 11 := by omega
  rcases hrange with rfl | rfl | rfl | rfl | rfl | rfl | rfl | rfl | rfl | rfl | rfl | rfl
  case inr.inr.inr.inr.inr.inr.inr.inr.inr.inr.inr =>
    -- February has the day that is left over
    show (d - 337 + 1).toNat ≤ if isLeapYear (y + 1) then 29 else 28
    split
    next => omega
    next hno =>
      have hd : d ≠ 365 := fun hd => hno (hleap hd)
      omega
  all_goals
    simp [monthLength]
    omega

/-- **The day of a number is a day of the calendar**, if its year can be named. -/
theorem isValid_ofDayNumber {n : Int} (hfirst : firstYear ≤ (ofDayNumber n).year)
    (hlast : (ofDayNumber n).year ≤ lastYear) : (ofDayNumber n).isValid = true := by
  have hera : 0 ≤ (n + 719468) % 146097 ∧ (n + 719468) % 146097 < 146097 := by omega
  obtain ⟨-, -, hday, hday'⟩ := yearOfEra_spec hera.1 hera.2
  have hlength := le_monthLength hday hday' rfl
    (isLeapYear_of_lastDay hera.1 hera.2 ((n + 719468) / 146097))
  obtain ⟨hnamed, hcounted⟩ := ofDayNumber_pos n
  simp only [isValid, Bool.and_eq_true, decide_eq_true_eq]
  exact ⟨⟨⟨⟨⟨hfirst, hlast⟩, hnamed⟩, (ofDayNumber_le n).1⟩, hcounted⟩, hlength⟩

end Clearance.Time.Date
