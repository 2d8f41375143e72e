import Clearance.Time.Instant

/-!
# Instants and spans

An instant and the instants some time before and after it. What is a span before an instant is not
after it, and of two instants the later one less a span is the later one too (`minus_le_minus`). The
second is not so inside a leap second, which is longer than any span knows of; but no clock shows one.
-/

namespace Clearance.Time.Instant

variable {t t' p : Instant} {r : Span} {n : Nat}

/-- The instant a number of seconds later. -/
def plusSeconds (t : Instant) (n : Nat) : Instant := { t with second := t.second + n }

/-- The instant a number of seconds earlier. -/
def minusSeconds (t : Instant) (n : Nat) : Instant := { t with second := t.second - n }

/-- A second is two billion places in the order of instants. -/
theorem rank_plusSeconds (t : Instant) (n : Nat) :
    (t.plusSeconds n).rank = t.rank + n * 2000000000 := by
  unfold plusSeconds rank
  dsimp only
  omega

theorem rank_minusSeconds (t : Instant) (n : Nat) :
    (t.minusSeconds n).rank = t.rank - n * 2000000000 := by
  unfold minusSeconds rank
  dsimp only
  omega

theorem plusSeconds_plusSeconds (t : Instant) (m n : Nat) :
    (t.plusSeconds m).plusSeconds n = t.plusSeconds (m + n) := by
  unfold plusSeconds
  dsimp only
  rw [Int.add_assoc, Int.natCast_add]

/-- Nothing is later for being a span earlier. -/
theorem minus_le (t : Instant) (r : Span) : t.minus r ≤ t := by
  have hnanos := r.nanos_lt
  rw [le_def]
  unfold minus rank
  split <;> dsimp only <;> omega

/-- Whether a time less a span comes no later than any later time less the span. It does, unless the
time is inside a leap second, which no clock shows, and the span is not of whole seconds. -/
def Steady (t : Instant) (r : Span) : Prop := t.nano < 1000000000 ∨ r.nanos = 0

instance (t : Instant) (r : Span) : Decidable (t.Steady r) := inferInstanceAs (Decidable (_ ∨ _))

/-- **Of two times the later one less a span is the later one too.** -/
theorem minus_le_minus (h : t.Steady r) (ht : t ≤ t') : t.minus r ≤ t'.minus r := by
  have hnanos := r.nanos_lt
  have hnano := t'.nano_lt
  unfold Steady at h
  rw [le_def] at ht ⊢
  unfold minus rank at *
  split <;> split <;> dsimp only at * <;> omega

/-- Some seconds and a span can be counted in either order. -/
theorem plusSeconds_minus (t : Instant) (n : Nat) (r : Span) :
    (t.plusSeconds n).minus r = (t.minus r).plusSeconds n := by
  unfold minus plusSeconds
  dsimp only
  split
  next =>
    dsimp only
    congr 1
    omega
  next =>
    dsimp only
    congr 1
    omega

/-- What is within some seconds of an instant lies, that many seconds and a span earlier, not after what
lies a span before the instant. -/
theorem minus_minusSeconds_le (h : t.Steady r) (ht : t ≤ p.plusSeconds n) :
    (t.minus r).minusSeconds n ≤ p.minus r := by
  have hminus := minus_le_minus h ht
  rw [plusSeconds_minus, le_def, rank_plusSeconds] at hminus
  rw [le_def, rank_minusSeconds]
  omega

end Clearance.Time.Instant
