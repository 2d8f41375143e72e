import Clearance.Proofs.Time.Calendar
import Clearance.Time.Timestamp

/-!
# A written timestamp reads as the instant it was written for

The reader of timestamps is lenient about layout, so what it makes of a written one has to be followed
part by part: each number is padded to the width that the reader takes at most, or stands before a
character that is no digit. `read_write` puts the parts together.

A leap second is written as second 60 of its minute. `Instant.IsRegular` says that there is one only
where the sixtieth second begins; any other is written as if it belonged to the next second, so that
what is read for it is later (`Instant.written`). Nothing that is read from a text is irregular itself
(`read_isRegular`).
-/

namespace Clearance.Time

/-- Whether a leap second, if it is one, stands at the end of a minute. -/
def Instant.IsRegular (t : Instant) : Prop := t.nano < 1000000000 ∨ t.second % 60 = 59

instance (t : Instant) : Decidable t.IsRegular := inferInstanceAs (Decidable (_ ∨ _))

namespace Instant

variable {t : Instant}

/-- The instant that the text of an instant names. -/
def written (t : Instant) : Instant :=
  if t.IsRegular then t
  else
    { second := t.second + 1
      nano := t.nano - 1000000000
      nano_lt := Nat.lt_of_le_of_lt (Nat.sub_le ..) t.nano_lt }

theorem written_eq_self (h : t.IsRegular) : t.written = t := if_pos h

/-- What a text names is never a leap second in the middle of a minute. -/
theorem written_isRegular (t : Instant) : t.written.IsRegular := by
  have hnano := t.nano_lt
  unfold written
  split
  next h => exact h
  next =>
    refine .inl ?_
    dsimp only
    omega

/-- No text names an earlier instant than it was written for. -/
theorem le_written (t : Instant) : t ≤ t.written := by
  unfold written
  split
  next => exact Int.le_refl _
  next h =>
    unfold IsRegular at h
    rw [le_def]
    unfold rank
    dsimp only
    omega

end Instant

namespace Timestamp

open Clearance.Text (isBlank trimStart)

variable {c : Char} {cs ds rest : List Char} {limit w n : Nat}

/-! ## Numbers -/

theorem digit?_of_isDigit (h : c.isDigit = true) : digit? c = some (c.toNat - '0'.toNat) := by
  unfold digit?
  rw [if_pos]
  simpa [Char.isDigit, Char.le_def] using h

/-- Whether a number must end here. -/
def NoDigit (rest : List Char) : Prop := ∀ c ∈ rest.head?, digit? c = none

/-- A number ends where no digit follows. -/
theorem takeDigits_of_noDigit (h : NoDigit rest) (limit count value : Nat) :
    takeDigits limit rest count value = (count, value, rest) := by
  cases limit with
  | zero => rfl
  | succ limit =>
    cases rest with
    | nil => rfl
    | cons c rest =>
      have hc : digit? c = none := h c rfl
      rw [takeDigits, hc]

/-- Digits are taken to the last if there may be as many and no other follows. -/
theorem takeDigits_append (hds : ∀ c ∈ ds, c.isDigit = true) (hlimit : ds.length ≤ limit)
    (hend : ds.length = limit ∨ NoDigit rest) (count value : Nat) :
    takeDigits limit (ds ++ rest) count value =
      (count + ds.length, Nat.ofDigitChars 10 ds value, rest) := by
  induction ds generalizing limit count value with
  | nil =>
    rcases hend with rfl | hend
    · rfl
    · exact takeDigits_of_noDigit hend limit count value
  | cons c ds ih =>
    obtain ⟨limit, rfl⟩ : ∃ l, limit = l + 1 := ⟨limit - 1, by simp at hlimit; omega⟩
    have hend' : ds.length = limit ∨ NoDigit rest := hend.imp_left fun h => by simpa using h
    rw [List.cons_append, takeDigits, digit?_of_isDigit (hds c (List.mem_cons_self ..))]
    dsimp only
    rw [ih (fun x hx => hds x (List.mem_cons_of_mem c hx)) (by simpa using hlimit) hend',
      Nat.ofDigitChars_cons, List.length_cons]
    congr 1
    omega

theorem isDigit_of_mem_padded (h : c ∈ padded w n) : c.isDigit = true := by
  rcases List.mem_append.1 h with h | h
  · rw [List.eq_of_mem_replicate h]
    decide
  · exact Nat.isDigit_of_mem_toDigits (by decide) (by decide) h

/-- Padding does not change what number the digits make. -/
theorem ofDigitChars_padded (w n : Nat) : Nat.ofDigitChars 10 (padded w n) 0 = n := by
  unfold padded
  rw [Nat.ofDigitChars_append, Nat.ofDigitChars_replicate_zero, Nat.mul_zero,
    Nat.ofDigitChars_toDigits (by decide) (by decide)]

theorem padded_ne_nil (w n : Nat) : padded w n ≠ [] := by
  unfold padded
  exact fun h => Nat.toDigits_ne_nil (List.append_eq_nil_iff.1 h).2

/-- A number that fits its width is padded to just that. -/
theorem length_padded (hw : 0 < w) (h : n < Nat.pow 10 w) : (padded w n).length = w := by
  have hlength := (Nat.length_toDigits_le_iff (b := 10) (by decide) hw).2 h
  unfold padded
  rw [List.length_append, List.length_replicate]
  omega

/-- A number is read as what it was written for if all of it is taken. -/
theorem readNumber_padded (hlimit : (padded w n).length ≤ limit)
    (hend : (padded w n).length = limit ∨ NoDigit rest) :
    readNumber limit (padded w n ++ rest) = some (n, rest) := by
  unfold readNumber
  rw [takeDigits_append (fun c hc => isDigit_of_mem_padded hc) hlimit hend, ofDigitChars_padded,
    Nat.zero_add]
  cases hlength : (padded w n).length with
  | zero => exact absurd (List.length_eq_zero_iff.1 hlength) (padded_ne_nil w n)
  | succ k => rfl

theorem not_isBlank_of_isDigit (h : c.isDigit = true) : isBlank c = false := by
  have hrange : 48 ≤ c.toNat ∧ c.toNat ≤ 57 := by
    simpa [Char.isDigit, UInt32.le_iff_toNat_le] using h
  simp only [isBlank, Text.inRanges, Text.blankRanges, List.any_cons, List.any_nil,
    Bool.or_eq_false_iff, Bool.and_eq_false_iff, decide_eq_false_iff_not, and_true]
  omega

theorem trimStart_cons (h : isBlank c = false) : trimStart (c :: cs) = c :: cs := by
  unfold trimStart
  rw [List.dropWhile_cons_of_neg (by simp [h])]

theorem padded_eq_cons (w n : Nat) : ∃ c cs, padded w n = c :: cs ∧ c.isDigit = true := by
  cases hpadded : padded w n with
  | nil => exact absurd hpadded (padded_ne_nil w n)
  | cons c cs =>
    exact ⟨c, cs, rfl, isDigit_of_mem_padded (hpadded ▸ List.mem_cons_self ..)⟩

theorem trimStart_padded (w n : Nat) (rest : List Char) :
    trimStart (padded w n ++ rest) = padded w n ++ rest := by
  obtain ⟨c, cs, hpadded, hc⟩ := padded_eq_cons w n
  rw [hpadded]
  exact trimStart_cons (not_isBlank_of_isDigit hc)

theorem readPair_padded (h : n < 100) (rest : List Char) :
    readPair (padded 2 n ++ rest) = some (n, rest) := by
  have hlength : (padded 2 n).length = 2 := length_padded (by decide) h
  unfold readPair
  rw [trimStart_padded, readNumber_padded (Nat.le_of_eq hlength) (.inl hlength)]

theorem expect_cons (h : isBlank c = false) (rest : List Char) :
    expect c (c :: rest) = some rest := by
  unfold expect
  rw [trimStart_cons h]
  exact if_pos rfl

/-! ## The parts -/

theorem noDigit_cons (h : digit? c = none) (rest : List Char) : NoDigit (c :: rest) := by
  intro x hx
  rw [← Option.mem_some_iff.1 hx]
  exact h

/-- A year with a sign is as long as its digits go. -/
theorem readNumber_signed (n : Nat) (rest : List Char) :
    readNumber (padded 4 n ++ '-' :: rest).length (padded 4 n ++ '-' :: rest) =
      some (n, '-' :: rest) := by
  refine readNumber_padded ?_ (.inr (noDigit_cons (by decide) rest))
  rw [List.length_append]
  exact Nat.le_add_right ..

/-- A year out of the four digits is read with its sign. -/
theorem readYear_sign (n : Nat) (rest : List Char) :
    readYear ('-' :: (padded 4 n ++ '-' :: rest)) = some (-(n : Int), '-' :: rest) ∧
      readYear ('+' :: (padded 4 n ++ '-' :: rest)) = some ((n : Int), '-' :: rest) := by
  unfold readYear
  rw [trimStart_cons (by decide), trimStart_cons (by decide)]
  simp only [readNumber_signed, Option.map_some, and_self]

/-- A written year is read as that year. -/
theorem readYear_yearText (year : Int) (rest : List Char) :
    readYear (yearText year ++ '-' :: rest) = some (year, '-' :: rest) := by
  unfold yearText
  by_cases hyear : 0 ≤ year ∧ year ≤ 9999
  · have hsmall : year.toNat < 10000 := by omega
    have hlength : (padded 4 year.toNat).length = 4 := length_padded (by decide) hsmall
    have hnumber := @readNumber_padded ('-' :: rest) 4 4 year.toNat (Nat.le_of_eq hlength)
      (.inl hlength)
    have hvalue : (year.toNat : Int) = year := Int.toNat_of_nonneg hyear.1
    obtain ⟨c, cs, hpadded, hc⟩ := padded_eq_cons 4 year.toNat
    unfold readYear
    rw [if_pos hyear, trimStart_padded]
    rw [hpadded] at hnumber ⊢
    -- a digit is no sign
    split
    next h => exact absurd hc (by rw [(List.cons.inj h).1]; decide)
    next h => exact absurd hc (by rw [(List.cons.inj h).1]; decide)
    next =>
      rw [hnumber]
      exact congrArg (fun y => some (y, '-' :: rest)) hvalue
  · rw [if_neg hyear]
    by_cases hneg : year < 0
    · have hvalue : -(year.natAbs : Int) = year := by omega
      rw [if_pos hneg, List.cons_append, (readYear_sign year.natAbs rest).1, hvalue]
    · have hvalue : (year.natAbs : Int) = year := by omega
      rw [if_neg hneg, List.cons_append, (readYear_sign year.natAbs rest).2, hvalue]

/-- A written date is read if it is one of the calendar. -/
theorem readDate_dateText {d : Date} (hmonth : d.month < 100) (hday : d.day < 100)
    (rest : List Char) :
    readDate (dateText d ++ rest) = if d.isValid then some (d, rest) else none := by
  have hhyphen : ∀ cs, expect '-' ('-' :: cs) = some cs := expect_cons (by decide)
  unfold readDate dateText
  simp only [List.append_assoc, List.cons_append, readYear_yearText, Option.bind_eq_bind,
    Option.bind_some, hhyphen, readPair_padded hmonth, readPair_padded hday]

/-- A fraction of as many digits as there are, before the offset. -/
theorem readFraction_padded (hw : 0 < w) (hw' : w ≤ 9) (hn : n < Nat.pow 10 w) :
    readFraction ('.' :: padded w n ++ ['Z']) = some (n * Nat.pow 10 (9 - w), ['Z']) := by
  have hlength : (padded w n).length = w := length_padded hw hn
  have htake : takeDigits 9 (padded w n ++ ['Z']) 0 0 = (w, n, ['Z']) := by
    rw [takeDigits_append (fun c hc => isDigit_of_mem_padded hc) (by omega)
      (.inr (noDigit_cons (by decide) [])), ofDigitChars_padded, hlength, Nat.zero_add]
  obtain ⟨w, rfl⟩ : ∃ v, w = v + 1 := ⟨w - 1, by omega⟩
  rw [List.cons_append, readFraction, htake]
  rfl

/-- A written fraction is read to the nanosecond, however many digits it has. -/
theorem readFraction_fractionText {nano : Nat} (h : nano < 1000000000) :
    readFraction (fractionText nano ++ ['Z']) = some (nano, ['Z']) := by
  unfold fractionText
  split
  next hzero =>
    rw [hzero]
    rfl
  next =>
    split
    next hmilli =>
      have hvalue : nano / 1000000 * Nat.pow 10 (9 - 3) = nano :=
        Nat.div_mul_cancel (Nat.dvd_of_mod_eq_zero hmilli)
      have hsmall : nano / 1000000 < 1000 := by omega
      rw [readFraction_padded (by decide) (by decide) hsmall, hvalue]
    next =>
      split
      next hmicro =>
        have hvalue : nano / 1000 * Nat.pow 10 (9 - 6) = nano :=
          Nat.div_mul_cancel (Nat.dvd_of_mod_eq_zero hmicro)
        have hsmall : nano / 1000 < 1000000 := by omega
        rw [readFraction_padded (by decide) (by decide) hsmall, hvalue]
      next =>
        have hvalue : nano * Nat.pow 10 (9 - 9) = nano := Nat.mul_one nano
        rw [readFraction_padded (by decide) (by decide) h, hvalue]

/-- A time of day is read from its padded parts, and second 60 as a leap second. -/
theorem readTime_padded {hour minute second nano : Nat} (hhour : hour < 100) (hminute : minute < 100)
    (hsecond : second < 100) (hnano : nano < 1000000000) :
    readTime (padded 2 hour ++ ':' :: padded 2 minute ++ ':' :: padded 2 second ++
        fractionText nano ++ ['Z']) =
      if hour ≤ 23 ∧ minute ≤ 59 ∧ second ≤ 60 then
        some (3600 * hour + 60 * minute + (second - if second = 60 then 1 else 0),
          nano + (if second = 60 then 1 else 0) * 1000000000, ['Z'])
      else none := by
  have hcolon : ∀ cs, expect ':' (':' :: cs) = some cs := expect_cons (by decide)
  unfold readTime
  simp only [List.append_assoc, List.cons_append, readPair_padded hhour, Option.bind_eq_bind,
    Option.bind_some, hcolon, readPair_padded hminute, readPair_padded hsecond,
    readFraction_fractionText hnano]

/-- A written time of day is read as that time of day. -/
theorem readTime_timeText {t : Instant} (h : t.IsRegular) :
    readTime (timeText t ++ ['Z']) =
      some ((t.second % secondsPerDay).toNat, t.nano, ['Z']) := by
  unfold timeText
  obtain ⟨n, hn⟩ : ∃ n : Nat, n = (t.second % secondsPerDay).toNat := ⟨_, rfl⟩
  obtain ⟨leap, hleap⟩ : ∃ leap : Nat, leap = if t.nano < 1000000000 then 0 else 1 := ⟨_, rfl⟩
  have hnano := t.nano_lt
  have hn' : n < 86400 := by
    unfold secondsPerDay at hn
    omega
  have hsecond : t.nano < 1000000000 ∧ leap = 0 ∨
      1000000000 ≤ t.nano ∧ leap = 1 ∧ n % 60 = 59 := by
    unfold Instant.IsRegular at h
    unfold secondsPerDay at hn
    split at hleap <;> omega
  have hpass : n / 3600 ≤ 23 ∧ n / 60 % 60 ≤ 59 ∧ n % 60 + leap ≤ 60 := by omega
  have hleap' : (if n % 60 + leap = 60 then 1 else 0) = leap := by
    split <;> omega
  have hseconds : 3600 * (n / 3600) + 60 * (n / 60 % 60) + (n % 60 + leap - leap) = n := by omega
  have hnanos : t.nano - leap * 1000000000 + leap * 1000000000 = t.nano := by omega
  dsimp only
  rw [← hn, ← hleap, readTime_padded (by omega) (by omega) (by omega) (by omega), if_pos hpass,
    hleap', hseconds, hnanos]

/-- **A written timestamp reads as the instant it was written for**, if the calendar can name its
day. -/
theorem read_write {t : Instant} (h : t.IsRegular) :
    read (write t) = if t.date.isValid ∧ t.InCalendar then some t else none := by
  have hday : t.date.toDayNumber = t.second / secondsPerDay := Date.toDayNumber_ofDayNumber _
  have hsecond : (t.second / secondsPerDay) * secondsPerDay +
      ((t.second % secondsPerDay).toNat : Int) - 0 = t.second := by
    unfold secondsPerDay
    omega
  have htrim : trimStart ['Z'] = ['Z'] := trimStart_cons (by decide)
  have hnano := t.nano_lt
  obtain ⟨hmonth, hmonthday⟩ : t.date.month ≤ 12 ∧ t.date.day ≤ 31 := Date.ofDayNumber_le _
  unfold read write
  rw [String.toList_ofList, List.append_assoc, List.cons_append,
    readDate_dateText (by omega) (by omega)]
  by_cases hvalid : t.date.isValid = true
  · simp only [hvalid, if_true, true_and, Option.bind_eq_bind, Option.bind_some, readParting, true_or,
      or_true, readTime_timeText h, htrim, readOffset, hday, hsecond, dif_pos hnano]
    rfl
  · simp [hvalid]

/-- An instant is written as the one that its text names. -/
theorem write_written (t : Instant) : write t.written = write t := by
  unfold Instant.written
  split
  next => rfl
  next h =>
    -- the second after is in the same minute, and the leap second counts as one
    have hnano := t.nano_lt
    unfold Instant.IsRegular at h
    have hday : (t.second + 1) / secondsPerDay = t.second / secondsPerDay := by
      unfold secondsPerDay
      omega
    obtain ⟨n, hn⟩ : ∃ n : Nat, n = (t.second % secondsPerDay).toNat := ⟨_, rfl⟩
    have hnext : ((t.second + 1) % secondsPerDay).toNat = n + 1 := by
      unfold secondsPerDay at hn ⊢
      omega
    have hminute : n % 60 ≠ 59 := by
      unfold secondsPerDay at hn
      omega
    have hhours : (n + 1) / 3600 = n / 3600 := by omega
    have hminutes : (n + 1) / 60 % 60 = n / 60 % 60 := by omega
    have hseconds : (n + 1) % 60 + 0 = n % 60 + 1 := by omega
    have hnanos : t.nano - 1000000000 - 0 * 1000000000 = t.nano - 1 * 1000000000 := by omega
    unfold write timeText Instant.date
    simp only [hday, hnext, ← hn, hhours, hminutes]
    rw [if_pos (show t.nano - 1000000000 < 1000000000 by omega), if_neg (fun hlt => h (.inl hlt)),
      hseconds, hnanos]

/-- **What the text of any instant reads as** is the instant that it names. -/
theorem read_write_written (t : Instant) :
    read (write t) =
      if t.written.date.isValid ∧ t.written.InCalendar then some t.written else none := by
  rw [← write_written, read_write t.written_isRegular]

/-- An instant that a timestamp can name is read as itself. -/
theorem read_write_of_inCalendar {t : Instant} (h : t.IsRegular) (hdate : t.InCalendar) :
    read (write t) = some t := by
  rw [read_write h, if_pos ⟨Date.isValid_ofDayNumber hdate.1 hdate.2, hdate⟩]

/-! ## What is read -/

theorem digit?_lt {d : Nat} (h : digit? c = some d) : d < 10 := by
  unfold digit? at h
  split at h
  next hrange =>
    have hrange' : c.toNat ≤ 57 := by simpa [Char.le_def, UInt32.le_iff_toNat_le] using hrange.2
    have hd : c.toNat - 48 = d := Option.some.inj h
    omega
  next => exact absurd h (by simp)

/-- Digits that are taken make no larger number than there is room for. -/
theorem takeDigits_lt {count value count' value' : Nat}
    (h : takeDigits limit cs count value = (count', value', rest))
    (hvalue : value < Nat.pow 10 count) :
    value' < Nat.pow 10 count' ∧ count' ≤ count + limit := by
  induction limit generalizing cs count value with
  | zero =>
    obtain ⟨rfl, hrest⟩ := Prod.mk.inj h
    rw [← (Prod.mk.inj hrest).1]
    exact ⟨hvalue, Nat.le_refl _⟩
  | succ limit ih =>
    have hstop : (count, value, cs) = (count', value', rest) →
        value' < Nat.pow 10 count' ∧ count' ≤ count + (limit + 1) := by
      intro h
      obtain ⟨rfl, hrest⟩ := Prod.mk.inj h
      rw [← (Prod.mk.inj hrest).1]
      exact ⟨hvalue, Nat.le_add_right ..⟩
    cases cs with
    | nil => exact hstop h
    | cons c cs =>
      rw [takeDigits] at h
      split at h
      next d hd =>
        have hd' := digit?_lt hd
        have hpow : Nat.pow 10 (count + 1) = Nat.pow 10 count * 10 := rfl
        obtain ⟨hlt, hle⟩ := ih h (by omega)
        exact ⟨hlt, by omega⟩
      next => exact hstop h

/-- A fraction of a second is less than a second. -/
theorem readFraction_lt {nano : Nat} (h : readFraction cs = some (nano, rest)) :
    nano < 1000000000 := by
  unfold readFraction at h
  split at h
  next cs' =>
    split at h
    next => exact absurd h (by simp)
    next count n left _ htake =>
      obtain ⟨hlt, hle⟩ := takeDigits_lt htake (by decide)
      obtain ⟨hnano, -⟩ := Prod.mk.inj (Option.some.inj h)
      have hpow : Nat.pow 10 (count + (9 - count)) = Nat.pow 10 count * Nat.pow 10 (9 - count) :=
        Nat.pow_add 10 count (9 - count)
      rw [Nat.add_sub_of_le (by omega)] at hpow
      have hlt' : n * Nat.pow 10 (9 - count) < Nat.pow 10 9 := by
        rw [hpow]
        exact Nat.mul_lt_mul_of_pos_right hlt (Nat.pow_pos (by decide))
      rw [← hnano]
      exact hlt'
  next =>
    rw [← (Prod.mk.inj (Option.some.inj h)).1]
    decide

/-- A time of day that is read has a leap second only at the end of a minute. -/
theorem readTime_isRegular {seconds nano : Nat} (h : readTime cs = some (seconds, nano, rest)) :
    nano < 1000000000 ∨ seconds % 60 = 59 := by
  unfold readTime at h
  simp only [Option.bind_eq_bind, Option.bind_eq_some_iff] at h
  obtain ⟨⟨hour, _⟩, -, _, -, ⟨minute, _⟩, -, _, -, ⟨second, _⟩, -, ⟨fraction, _⟩, hfraction, h⟩ := h
  have hlt := readFraction_lt hfraction
  dsimp only at h
  split at h
  next hrange =>
    obtain ⟨hseconds, hrest⟩ := Prod.mk.inj (Option.some.inj h)
    obtain ⟨hnano, -⟩ := Prod.mk.inj hrest
    by_cases hsixty : second = 60
    · rw [if_pos hsixty] at hseconds
      omega
    · rw [if_neg hsixty] at hnano
      omega
  next => exact absurd h (by simp)

theorem readOffsetNumber_mod {offset : Nat} (h : readOffsetNumber cs = some (offset, rest)) :
    offset % 60 = 0 := by
  unfold readOffsetNumber at h
  simp only [Option.bind_eq_bind, Option.bind_eq_some_iff] at h
  obtain ⟨⟨hours, _⟩, -, ⟨minutes, _⟩, -, h⟩ := h
  split at h
  next =>
    obtain ⟨hoffset, -⟩ := Prod.mk.inj (Option.some.inj h)
    dsimp only at hoffset
    omega
  next => exact absurd h (by simp)

/-- An offset is of whole minutes, so it moves no leap second out of its place. -/
theorem readOffset_mod {offset : Int} (h : readOffset cs = some (offset, rest)) :
    offset % 60 = 0 := by
  have hzero : ∀ {cs : List Char}, some ((0 : Int), cs) = some (offset, rest) → offset % 60 = 0 := by
    intro cs h
    rw [← (Prod.mk.inj (Option.some.inj h)).1]
    rfl
  have hread : ∀ {cs : List Char} {f : Nat → Int}, (∀ n, n % 60 = 0 → f n % 60 = 0) →
      (readOffsetNumber cs).map (fun r => (f r.1, r.2)) = some (offset, rest) → offset % 60 = 0 := by
    intro cs f hf h
    obtain ⟨⟨n, left⟩, hnumber, heq⟩ := Option.map_eq_some_iff.1 h
    rw [← (Prod.mk.inj heq).1]
    exact hf n (readOffsetNumber_mod hnumber)
  unfold readOffset at h
  split at h
  next => exact hzero h
  next => exact hzero h
  next => exact hread (f := fun n => (n : Int)) (fun n hn => by omega) h
  next => exact hread (f := fun n => -(n : Int)) (fun n hn => by omega) h
  next => exact hread (f := fun n => -(n : Int)) (fun n hn => by omega) h
  next =>
    split at h
    next => exact hzero h
    next => exact absurd h (by simp)
  next => exact absurd h (by simp)

/-- **An instant that is read is regular**, whatever its text. -/
theorem read_isRegular {text : String} {t : Instant} (h : read text = some t) : t.IsRegular := by
  unfold read at h
  simp only [Option.bind_eq_bind, Option.bind_eq_some_iff] at h
  obtain ⟨⟨date, _⟩, -, _, -, ⟨seconds, nano, _⟩, htime, ⟨offset, _⟩, hoffset, h⟩ := h
  have hregular := readTime_isRegular htime
  have hminutes := readOffset_mod hoffset
  dsimp only at h
  split at h
  next => exact absurd h (by simp)
  next =>
    split at h
    next =>
      split at h
      next =>
        obtain rfl := Option.some.inj h
        unfold Instant.IsRegular secondsPerDay
        dsimp only
        omega
      next => exact absurd h (by simp)
    next => exact absurd h (by simp)

/-- The calendar can name the day of whatever instant is read. -/
theorem read_inCalendar {text : String} {t : Instant} (h : read text = some t) : t.InCalendar := by
  unfold read at h
  simp only [Option.bind_eq_bind, Option.bind_eq_some_iff] at h
  obtain ⟨_, -, _, -, _, -, _, -, h⟩ := h
  split at h
  next => exact absurd h (by simp)
  next =>
    split at h
    next =>
      split at h
      next hdate =>
        rw [← Option.some.inj h]
        exact hdate
      next => exact absurd h (by simp)
    next => exact absurd h (by simp)

end Timestamp

end Clearance.Time
