import Clearance.Time.Calendar

/-!
# Instants

An instant is a second counted from the start of 1970 and the nanoseconds into it. The
nanoseconds of a leap second run on past the first billion, so that 23:59:60 comes after all of
23:59:59 and before midnight. Instants are ordered by `rank`, which gives each second two billion
places.

A `Span` is how far apart two instants are, as long as there is no leap second between them.
-/

namespace Clearance.Time

def secondsPerDay : Nat := 86400

/-- A length of time, in whole seconds and the nanoseconds left over. -/
structure Span where
  seconds : Nat
  nanos : Nat := 0
  nanos_lt : nanos < 1000000000 := by decide
  deriving DecidableEq

/-- A number of days. -/
def Span.days (n : Nat) : Span where
  seconds := n * secondsPerDay

structure Instant where
  second : Int
  nano : Nat
  nano_lt : nano < 2000000000 := by decide
  deriving DecidableEq

namespace Instant

/-- The place of an instant in the order of all instants. -/
def rank (t : Instant) : Int := t.second * 2000000000 + t.nano

instance : LE Instant := ⟨fun a b => a.rank ≤ b.rank⟩
instance : LT Instant := ⟨fun a b => a.rank < b.rank⟩
instance (a b : Instant) : Decidable (a ≤ b) := inferInstanceAs (Decidable (a.rank ≤ b.rank))
instance (a b : Instant) : Decidable (a < b) := inferInstanceAs (Decidable (a.rank < b.rank))

theorem le_def {a b : Instant} : a ≤ b ↔ a.rank ≤ b.rank := .rfl
theorem lt_def {a b : Instant} : a < b ↔ a.rank < b.rank := .rfl

/-- No two instants share a place. -/
theorem le_antisymm {a b : Instant} (hab : a ≤ b) (hba : b ≤ a) : a = b := by
  obtain ⟨second, nano, hnano⟩ := a
  obtain ⟨second', nano', hnano'⟩ := b
  simp only [le_def, rank] at hab hba
  obtain rfl : second = second' := by omega
  obtain rfl : nano = nano' := by omega
  rfl

/-- The instant a span earlier. -/
def minus (t : Instant) (r : Span) : Instant :=
  if hnanos : r.nanos ≤ t.nano then
    { second := t.second - r.seconds
      nano := t.nano - r.nanos
      nano_lt := Nat.lt_of_le_of_lt (Nat.sub_le ..) t.nano_lt }
  else
    { second := t.second - r.seconds - 1
      nano := t.nano + 1000000000 - r.nanos
      nano_lt := by omega }

/-- The same time of day a number of days earlier. -/
def minusDays (t : Instant) (days : Nat) : Instant := t.minus (.days days)

theorem minusDays_eq (t : Instant) (days : Nat) :
    t.minusDays days = { t with second := t.second - days * secondsPerDay } := by
  have hseconds : ((Span.days days).seconds : Int) = days * secondsPerDay := Int.natCast_mul ..
  unfold minusDays minus
  rw [hseconds]
  exact dif_pos (Nat.zero_le t.nano)

/-- The day of an instant. -/
def date (t : Instant) : Date := Date.ofDayNumber (t.second / secondsPerDay)

/-- Whether the calendar can name the day of an instant. -/
def InCalendar (t : Instant) : Prop := Date.firstYear ≤ t.date.year ∧ t.date.year ≤ Date.lastYear

instance (t : Instant) : Decidable t.InCalendar := inferInstanceAs (Decidable (_ ∧ _))

end Instant

end Clearance.Time
