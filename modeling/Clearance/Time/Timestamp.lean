import Clearance.Text.Blank
import Clearance.Time.Instant

/-!
# Timestamps

A timestamp is read as date, time and offset from universal time. The reader is lenient about
layout and strict about values: blanks may stand between the parts, numbers may be short, the
year may carry a sign, `t`, `T` or a blank parts date and time, and the offset may be `Z`, `UTC`
or a signed number of hours and minutes. There is no 29 February outside a leap year, no hour 24,
and second 60 is a leap second in any minute.

It is written in universal time with as many of 0, 3, 6 or 9 digits of the fraction as are needed.
-/

namespace Clearance.Time.Timestamp

open Clearance.Text (isBlank trimStart)

def digit? (c : Char) : Option Nat :=
  if '0' ≤ c ∧ c ≤ '9' then some (c.toNat - '0'.toNat) else none

/-- Read at most `limit` digits; `count` says how many there were. -/
def takeDigits : Nat → List Char → (count : Nat) → (value : Nat) → Nat × Nat × List Char
  | 0, cs, count, value => (count, value, cs)
  | _ + 1, [], count, value => (count, value, [])
  | limit + 1, c :: cs, count, value =>
    match digit? c with
    | some d => takeDigits limit cs (count + 1) (10 * value + d)
    | none => (count, value, c :: cs)

/-- A number of one up to `limit` digits. -/
def readNumber (limit : Nat) (cs : List Char) : Option (Nat × List Char) :=
  match takeDigits limit cs 0 0 with
  | (0, _, _) => none
  | (_, n, rest) => some (n, rest)

/-- Blanks, then a number of at most two digits. -/
def readPair (cs : List Char) : Option (Nat × List Char) := readNumber 2 (trimStart cs)

/-- Blanks, then a given character. -/
def expect (c : Char) (cs : List Char) : Option (List Char) :=
  match trimStart cs with
  | x :: rest => if x = c then some rest else none
  | [] => none

/-- A year: four digits at most, or a sign and any number of them. -/
def readYear (cs : List Char) : Option (Int × List Char) :=
  match trimStart cs with
  | '-' :: rest => (readNumber rest.length rest).map fun (n, rest) => (-(n : Int), rest)
  | '+' :: rest => (readNumber rest.length rest).map fun (n, rest) => ((n : Int), rest)
  | rest => (readNumber 4 rest).map fun (n, rest) => ((n : Int), rest)

def readDate (cs : List Char) : Option (Date × List Char) := do
  let (year, cs) ← readYear cs
  let (month, cs) ← readPair (← expect '-' cs)
  let (day, cs) ← readPair (← expect '-' cs)
  let date : Date := ⟨year, month, day⟩
  if date.isValid then some (date, cs) else none

/-- The fraction of a second in nanoseconds; digits past the ninth are dropped. -/
def readFraction : List Char → Option (Nat × List Char)
  | '.' :: rest =>
    match takeDigits 9 rest 0 0 with
    | (0, _, _) => none
    | (count, n, rest) =>
      some (n * Nat.pow 10 (9 - count), rest.dropWhile fun c => (digit? c).isSome)
  | rest => some (0, rest)

/-- A time of day as seconds since midnight and nanoseconds. -/
def readTime (cs : List Char) : Option (Nat × Nat × List Char) := do
  let (hour, cs) ← readPair cs
  let (minute, cs) ← readPair (← expect ':' cs)
  let (second, cs) ← readPair (← expect ':' cs)
  let (nano, cs) ← readFraction cs
  if hour ≤ 23 ∧ minute ≤ 59 ∧ second ≤ 60 then
    let leap := if second = 60 then 1 else 0
    some (3600 * hour + 60 * minute + (second - leap), nano + leap * 1000000000, cs)
  else none

/-- Two digits, exactly. -/
def readTwoDigits : List Char → Option (Nat × List Char)
  | a :: b :: rest => do
    let a ← digit? a
    let b ← digit? b
    some (10 * a + b, rest)
  | _ => none

/-- Hours and minutes of an offset; colons and blanks may stand between them. An offset is less
than a day. -/
def readOffsetNumber (cs : List Char) : Option (Nat × List Char) := do
  let (hours, cs) ← readTwoDigits cs
  let (minutes, cs) ← readTwoDigits (cs.dropWhile fun c => c == ':' || isBlank c)
  if minutes ≤ 59 ∧ hours ≤ 23 then some (3600 * hours + 60 * minutes, cs) else none

/-- The offset from universal time in seconds. -/
def readOffset : List Char → Option (Int × List Char)
  | 'Z' :: rest => some (0, rest)
  | 'z' :: rest => some (0, rest)
  | '+' :: rest => (readOffsetNumber rest).map fun (n, rest) => ((n : Int), rest)
  | '-' :: rest => (readOffsetNumber rest).map fun (n, rest) => (-(n : Int), rest)
  | '\u2212' :: rest => (readOffsetNumber rest).map fun (n, rest) => (-(n : Int), rest)
  | a :: b :: c :: rest =>
    if a.toUpper = 'U' ∧ b.toUpper = 'T' ∧ c.toUpper = 'C' then some (0, rest) else none
  | _ => none

/-- The character that parts date and time. -/
def readParting : List Char → Option (List Char)
  | c :: rest => if c = 't' ∨ c = 'T' ∨ c = ' ' then some rest else none
  | [] => none

/-- The instant that a text names, if it names one. -/
def read (text : String) : Option Instant := do
  let (date, cs) ← readDate text.toList
  let (seconds, nano, cs) ← readTime (← readParting cs)
  let (offset, cs) ← readOffset (trimStart cs)
  if !(trimStart cs).isEmpty then none
  else if h : nano < 2000000000 then
    let t : Instant := ⟨date.toDayNumber * secondsPerDay + seconds - offset, nano, h⟩
    if t.InCalendar then some t else none
  else none

/-- A number with zeros in front, at least `width` digits long. -/
def padded (width n : Nat) : List Char :=
  let ds := Nat.toDigits 10 n
  List.replicate (width - ds.length) '0' ++ ds

/-- Four digits, or a sign and at least four digits for other years. -/
def yearText (year : Int) : List Char :=
  if 0 ≤ year ∧ year ≤ 9999 then padded 4 year.toNat
  else (if year < 0 then '-' else '+') :: padded 4 year.natAbs

/-- A point and 3, 6 or 9 digits, or nothing for a full second. -/
def fractionText (nano : Nat) : List Char :=
  if nano = 0 then []
  else if nano % 1000000 = 0 then '.' :: padded 3 (nano / 1000000)
  else if nano % 1000 = 0 then '.' :: padded 6 (nano / 1000)
  else '.' :: padded 9 nano

def dateText (d : Date) : List Char :=
  yearText d.year ++ '-' :: padded 2 d.month ++ '-' :: padded 2 d.day

/-- The time of day; the nanoseconds past the first billion show as second 60. -/
def timeText (t : Instant) : List Char :=
  let seconds := (t.second % secondsPerDay).toNat
  let leap := if t.nano < 1000000000 then 0 else 1
  padded 2 (seconds / 3600) ++ ':' :: padded 2 (seconds / 60 % 60) ++
    ':' :: padded 2 (seconds % 60 + leap) ++ fractionText (t.nano - leap * 1000000000)

/-- The form in documents: `2024-01-02T03:04:05.100Z`. -/
def write (t : Instant) : String :=
  String.ofList (dateText t.date ++ 'T' :: timeText t ++ ['Z'])

/-- The form in messages: `2024-01-02 03:04:05.100 UTC`. -/
def display (t : Instant) : String :=
  String.ofList (dateText t.date ++ ' ' :: timeText t ++ [' ', 'U', 'T', 'C'])

end Clearance.Time.Timestamp
