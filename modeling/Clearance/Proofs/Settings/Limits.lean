import Clearance.Proofs.Retention
import Clearance.Proofs.Time.Year
import Clearance.Settings.Load

/-!
# Times that are too long

Settings give two lengths of time: the pause of the retention worker in hours, and for how many days a
delegation stays on record after its end. Settings that are accepted make no pause of zero hours, and that
is all that is checked. The seconds of a pause are a number of 64 bits and wrap around beyond, and a day
before the first of the calendar has no name.

`Settings.KeepsTime` says what goes well with settings of ordinary size, and `keepsTime_iff_of_load` where
it ends: two bounds are missing from the check, one on the hours and one on the days. Beyond the first the
pause can even be none at all, namely if the hours are a multiple of `2 ^ 60`, because 3600 has the factor
16.
-/

namespace Clearance

open Delegation (Memory)
open Time (Date Instant)

namespace Retention

/-- Whether a worker is started, and pauses for a number of seconds. -/
def Pauses (r : Retention) (seconds : Nat) : Prop :=
  ∀ (w : Memory) (now : Moment) (clock : Nat),
    ((r.start Memory.backend now clock).run w).1 = some ⟨seconds, clock + seconds⟩

/-- The most hours whose seconds are a number of 64 bits. -/
def mostHours : Nat := 5124095576030431

variable {r : Retention}

theorem pauses_iff {seconds : Nat} : r.Pauses seconds ↔ r.enabled = true ∧ r.interval = seconds := by
  unfold Pauses
  constructor
  · intro h
    have hstart := h {} (Delegation.second 0) 0
    rw [start_run] at hstart
    cases henabled : r.enabled with
    | true =>
      rw [henabled] at hstart
      obtain ⟨hinterval, -⟩ := Worker.mk.inj (Option.some.inj hstart)
      exact ⟨rfl, hinterval⟩
    | false =>
      rw [henabled] at hstart
      cases hstart
  · rintro ⟨henabled, rfl⟩ w now clock
    rw [start_run, if_pos henabled]

/-- The seconds of an interval fit 64 bits up to so many hours. -/
theorem seconds_le_iff : r.intervalHours * 3600 ≤ maxNat64 ↔ r.intervalHours ≤ mostHours := by
  show _ ≤ 18446744073709551615 ↔ _ ≤ 5124095576030431
  omega

/-- The pause is as long as the hours say if their seconds do not wrap around. -/
theorem interval_eq_iff : r.interval = r.intervalHours * 3600 ↔ r.intervalHours ≤ mostHours := by
  show r.intervalHours * 3600 % 18446744073709551616 = _ ↔ _ ≤ 5124095576030431
  omega

/-- There is no pause if the hours are a multiple of `2 ^ 60`. -/
theorem interval_eq_zero_iff : r.interval = 0 ↔ Nat.pow 2 60 ∣ r.intervalHours := by
  show r.intervalHours * 3600 % 18446744073709551616 = 0 ↔ 1152921504606846976 ∣ _
  omega

end Retention

namespace Settings

/-- The days from the first that the calendar can name to 1970. -/
def mostDays : Nat := 96465292

variable {s : Settings} {vars : Placeholder.Variables} {text : String}

/-- What comes after a step that can fail sees its result. -/
theorem exists_of_bind_eq_ok {ε α β : Type} {x : Except ε α} {f : α → Except ε β} {b : β}
    (h : x >>= f = .ok b) : ∃ a, x = .ok a ∧ f a = .ok b := by
  cases x with
  | error e => cases h
  | ok a => exact ⟨a, rfl, h⟩

/-- Settings that are accepted have been checked. -/
theorem check_of_load (h : load vars text = .ok s) : s.check = .ok () := by
  unfold load at h
  obtain ⟨expanded, -, hread⟩ := exists_of_bind_eq_ok h
  split at hread
  next => cases hread
  next s' _ =>
    obtain ⟨_, hcheck, hs⟩ := exists_of_bind_eq_ok hread
    obtain rfl : s' = s := Except.ok.inj hs
    exact hcheck

/-- A worker that is wanted has some hours to pause. -/
theorem hours_ne_zero_of_check (h : s.check = .ok ()) (henabled : s.retention.enabled = true) :
    s.retention.intervalHours ≠ 0 := by
  unfold check at h
  dsimp only at h
  split at h
  next => cases h
  split at h
  next => cases h
  obtain ⟨_, -, hpause⟩ := exists_of_bind_eq_ok h
  intro hzero
  rw [if_pos ⟨henabled, hzero⟩] at hpause
  cases hpause

/-- Whether the times of settings can be kept: the seconds of a pause are a number of 64 bits, so that a
worker that is wanted pauses for its hours and not for no time at all, and from every day of the years 1970
to 9999 the retention period leads back to a day that the calendar can name. -/
structure KeepsTime (s : Settings) : Prop where
  fits : s.retention.intervalHours * 3600 ≤ maxNat64
  pauses : s.retention.enabled = true → s.retention.Pauses (s.retention.intervalHours * 3600)
  rests : ¬ s.retention.Pauses 0
  reaches : ∀ now : Instant, 1970 ≤ now.date.year → now.date.year ≤ 9999 →
    (now.minusDays s.delegation.retentionDays).InCalendar

/-- A number of days is within reach of the calendar from every year of four digits if it is not more
than so many. -/
theorem reaches_iff (days : Nat) :
    (∀ now : Instant, 1970 ≤ now.date.year → now.date.year ≤ 9999 → (now.minusDays days).InCalendar) ↔
      days ≤ mostDays := by
  have hspan : Date.newYear 1970 - Date.newYear Date.firstYear = 96465292 := by decide
  rw [Instant.inCalendar_minusDays_iff (by decide) (by decide), hspan]
  exact Int.ofNat_le

/-- **Accepted settings keep time up to two bounds**, one on the hours and one on the days, that are not
checked. A worker whose hours are a multiple of `2 ^ 60` does not pause. -/
theorem keepsTime_iff_of_load (h : load vars text = .ok s) :
    (s.KeepsTime ↔
      s.retention.intervalHours ≤ Retention.mostHours ∧ s.delegation.retentionDays ≤ mostDays) ∧
    (s.retention.enabled = true →
      (s.retention.Pauses 0 ↔ Nat.pow 2 60 ∣ s.retention.intervalHours)) := by
  constructor
  · constructor
    · intro hkeeps
      exact ⟨Retention.seconds_le_iff.1 hkeeps.fits, (reaches_iff _).1 hkeeps.reaches⟩
    · intro ⟨hhours, hdays⟩
      have hinterval := Retention.interval_eq_iff.2 hhours
      refine ⟨Retention.seconds_le_iff.2 hhours, fun henabled => ?_, fun hnone => ?_, (reaches_iff _).2 hdays⟩
      · exact Retention.pauses_iff.2 ⟨henabled, hinterval⟩
      · obtain ⟨henabled, hzero⟩ := Retention.pauses_iff.1 hnone
        have hsome := hours_ne_zero_of_check (check_of_load h) henabled
        omega
  · intro henabled
    rw [Retention.pauses_iff, Retention.interval_eq_zero_iff]
    exact and_iff_right henabled

theorem eq_ok_of_toOption {ε α : Type} {x : Except ε α} {a : α} (h : x.toOption = some a) : x = .ok a := by
  cases x with
  | error e => cases h
  | ok b => exact congrArg Except.ok (Option.some.inj h)

/-- A pass every six hours over what ended a week ago. -/
def weekly : Settings :=
  { delegation := { retentionDays := 7 }
    retention := { enabled := true, intervalHours := 6 } }

def weeklyText : String :=
  "[retention]\nenabled = true\ninterval_hours = 6\n[delegation]\nretention_days = 7"

/-- Between two passes `2 ^ 60` hours, and the longest retention period that can be read. -/
def sleepless : Settings :=
  { delegation := { retentionDays := 4294967295 }
    retention := { enabled := true, intervalHours := 1152921504606846976 } }

def sleeplessText : String :=
  "[retention]\nenabled = true\ninterval_hours = 1152921504606846976\n" ++
    "[delegation]\nretention_days = 4294967295"

theorem load_weeklyText : load .empty weeklyText = .ok weekly :=
  eq_ok_of_toOption (by decide +kernel)

theorem load_sleeplessText : load .empty sleeplessText = .ok sleepless :=
  eq_ok_of_toOption (by decide +kernel)

/-- Retention of a week and a pass every six hours are accepted and keep time. -/
theorem weekly_keepsTime :
    load .empty weeklyText = .ok weekly ∧ weekly.KeepsTime ∧ ¬ weekly.retention.Pauses 0 := by
  obtain ⟨hkeeps, hnone⟩ := keepsTime_iff_of_load load_weeklyText
  refine ⟨load_weeklyText, hkeeps.2 (by decide), fun hzero => ?_⟩
  exact absurd ((hnone rfl).1 hzero) (by decide)

/-- Settings that are accepted although their worker does not pause at all, and although the retention
period leads out of the calendar on the first day of 1970. -/
theorem sleepless_accepted :
    load .empty sleeplessText = .ok sleepless ∧
      ¬ sleepless.retention.intervalHours * 3600 ≤ maxNat64 ∧ sleepless.retention.enabled = true ∧
      sleepless.retention.Pauses 0 ∧ Retention.epoch.date = ⟨1970, 1, 1⟩ ∧
      ¬ (Retention.epoch.minusDays sleepless.delegation.retentionDays).InCalendar := by
  refine ⟨load_sleeplessText, by decide, rfl, ?_, by decide, by decide⟩
  exact Retention.pauses_iff.2 ⟨rfl, Retention.interval_eq_zero_iff.2 (by decide)⟩

end Settings

end Clearance
