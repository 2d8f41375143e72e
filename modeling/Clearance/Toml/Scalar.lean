import Clearance.Json.Reader
import Clearance.Time.Calendar

/-!
# TOML scalars without quotes

Whole numbers, fractions, flags, dates and times are written without quotes and end where a
blank, a comment or a bracket begins. A whole number is kept as it is; of a fraction, a date or a
time only its kind is kept, because no setting takes one.
-/

namespace Clearance.Toml

open Json (digitValue? hexValue?)

/-- The digits of a numeral with single underscores between some of them. -/
def plainDigits (isDigit : Char → Bool) : List Char → Option (List Char)
  | [c] => if isDigit c then some [c] else none
  | c :: '_' :: rest => if isDigit c then (plainDigits isDigit rest).map (c :: ·) else none
  | c :: rest => if isDigit c then (plainDigits isDigit rest).map (c :: ·) else none
  | [] => none

/-- The number that digits of some base stand for. -/
def numberIn (base : Nat) (ds : List Char) : Nat :=
  ds.foldl (fun n c => base * n + (hexValue? c).getD 0) 0

/-- A sign, if there is one, and what follows it. -/
def splitSign : List Char → Bool × List Char
  | '-' :: rest => (true, rest)
  | '+' :: rest => (false, rest)
  | rest => (false, rest)

/-- A decimal whole number without sign. A zero in front stands alone. -/
def unsigned? (cs : List Char) : Option Nat := do
  let ds ← plainDigits Char.isDigit cs
  match ds with
  | '0' :: _ :: _ => none
  | _ => some (numberIn 10 ds)

/-- A whole number: decimal with a sign or without, or in another base without. -/
def whole? : List Char → Option Int
  | '0' :: 'x' :: rest => (plainDigits (hexValue? · |>.isSome) rest).map (numberIn 16 ·)
  | '0' :: 'o' :: rest => (plainDigits (fun c => '0' ≤ c && c ≤ '7') rest).map (numberIn 8 ·)
  | '0' :: 'b' :: rest => (plainDigits (fun c => c == '0' || c == '1') rest).map (numberIn 2 ·)
  | cs =>
    let (negative, cs) := splitSign cs
    (unsigned? cs).map fun n => if negative then -n else n

def isExponentMark (c : Char) : Bool := c == 'e' || c == 'E'

/-- Whether a text is an exponent after its mark. -/
def isExponent (cs : List Char) : Bool := (plainDigits Char.isDigit (splitSign cs).2).isSome

/-- Whether a text is the part of a fraction after the whole number. -/
def isFractionTail : List Char → Bool
  | '.' :: rest =>
    let ds := rest.takeWhile (!isExponentMark ·)
    (plainDigits Char.isDigit ds).isSome &&
      match rest.dropWhile (!isExponentMark ·) with
      | [] => true
      | _ :: exponent => isExponent exponent
  | c :: rest => isExponentMark c && isExponent rest
  | [] => false

/-- Whether a text is a fraction. -/
def isFraction (cs : List Char) : Bool :=
  let cs := (splitSign cs).2
  let isWhole c := !isExponentMark c && c != '.'
  cs = ['i', 'n', 'f'] || cs = ['n', 'a', 'n'] ||
    ((unsigned? (cs.takeWhile isWhole)).isSome && isFractionTail (cs.dropWhile isWhole))

/-- A number of exactly `count` digits, and what follows it. -/
def digits? (count : Nat) (cs : List Char) : Option (Nat × List Char) :=
  let ds := cs.take count
  if ds.length = count && ds.all Char.isDigit then some (numberIn 10 ds, cs.drop count) else none

/-- What follows a given character. -/
def skip? (c : Char) : List Char → Option (List Char)
  | x :: rest => if x = c then some rest else none
  | [] => none

/-- What follows a date. -/
def skipDate? (cs : List Char) : Option (List Char) := do
  let (year, cs) ← digits? 4 cs
  let (month, cs) ← digits? 2 (← skip? '-' cs)
  let (day, cs) ← digits? 2 (← skip? '-' cs)
  if Time.Date.isValid ⟨year, month, day⟩ then some cs else none

/-- What follows a time of day. -/
def skipTime? (cs : List Char) : Option (List Char) := do
  let (hour, cs) ← digits? 2 cs
  let (minute, cs) ← digits? 2 (← skip? ':' cs)
  let (second, cs) ← digits? 2 (← skip? ':' cs)
  if hour ≤ 23 ∧ minute ≤ 59 ∧ second ≤ 60 then
    match cs with
    | '.' :: c :: rest => if c.isDigit then some (rest.dropWhile Char.isDigit) else none
    | cs => some cs
  else none

/-- Whether a text is a distance from universal time. -/
def isOffset (cs : List Char) : Bool :=
  cs = ['Z'] || cs = ['z'] ||
    match cs with
    | sign :: rest =>
      (sign == '+' || sign == '-') &&
        ((do
          let (hour, rest) ← digits? 2 rest
          let (minute, rest) ← digits? 2 (← skip? ':' rest)
          if hour ≤ 23 ∧ minute ≤ 59 ∧ rest = [] then some () else none) : Option Unit).isSome
    | [] => false

/-- Whether a text is a date, a time of day or both. -/
def isTime (cs : List Char) : Bool :=
  match skipDate? cs with
  | some [] => true
  | some (sep :: rest) =>
    (sep == 'T' || sep == 't' || sep == ' ') &&
      match skipTime? rest with
      | some [] => true
      | some rest => isOffset rest
      | none => false
  | none => skipTime? cs == some []

/-- What a date or time becomes: an object with a member that no record knows. -/
def timeDocument (cs : List Char) : Json := .obj [("$time", .str (String.ofList cs))]

/-- A whole number as far as 64 bits hold it, with a sign or without. -/
def wholeDocument (n : Int) : Json :=
  if -Nat.pow 2 63 ≤ n ∧ n < Nat.pow 2 64 then .int n else .unreadable

/-- What a text without quotes stands for. -/
def scalar? (cs : List Char) : Option Json :=
  if cs = ['t', 'r', 'u', 'e'] then some (.bool true)
  else if cs = ['f', 'a', 'l', 's', 'e'] then some (.bool false)
  else
    match whole? cs with
    | some n => some (wholeDocument n)
    | none =>
      if isFraction cs then some (.float ⟨0⟩)
      else if isTime cs then some (timeDocument cs)
      else none

/-- Whether a scalar goes on with a character. -/
def isScalarChar (c : Char) : Bool :=
  c.isAlphanum || c == '+' || c == '-' || c == '.' || c == ':' || c == '_'

/-- The characters of a scalar at the front, and what follows them. A date may go on with a time
after one blank. -/
def splitScalar (cs : List Char) : List Char × List Char :=
  let front := cs.takeWhile isScalarChar
  match cs.dropWhile isScalarChar with
  | ' ' :: c :: rest =>
    if c.isDigit && skipDate? front == some [] then
      (front ++ ' ' :: (c :: rest).takeWhile isScalarChar, (c :: rest).dropWhile isScalarChar)
    else (front, ' ' :: c :: rest)
  | rest => (front, rest)

end Clearance.Toml
