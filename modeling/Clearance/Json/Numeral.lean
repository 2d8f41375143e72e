import Clearance.Json.Basic

/-!
# Numerals

A numeral without fraction and exponent is a whole number as long as it fits 64 bits, unsigned
when positive and signed when negative. Everything else is a fraction: `-0`, larger whole
numbers, and anything with a point or an exponent. A fraction keeps the digits that fit 64 bits;
the others only count for the scale when they stand before the point.
-/

namespace Clearance.Json

/-- The parts of a numeral as written. -/
structure Numeral where
  negative : Bool
  whole : List Nat
  /-- The digits after the point, if there is one. -/
  fraction : Option (List Nat)
  exponent : Option Int
  deriving Repr, DecidableEq

namespace Numeral

/-- The number with the given decimal digits. -/
def ofDigits (ds : List Nat) : Nat := ds.foldl (fun n d => 10 * n + d) 0

/-- Append the digits before the point while they fit; each later one multiplies by ten. -/
def keepWhole (kept : Nat) : List Nat → Nat × Int
  | [] => (kept, 0)
  | d :: ds => if 10 * kept + d < Nat.pow 2 64 then keepWhole (10 * kept + d) ds
    else (kept, (ds.length : Int) + 1)

/-- Append the digits after the point while they fit; the later ones are dropped. -/
def keepFraction (kept : Nat) (scale : Int) : List Nat → Nat × Int
  | [] => (kept, scale)
  | d :: ds => if 10 * kept + d < Nat.pow 2 64 then keepFraction (10 * kept + d) (scale - 1) ds
    else (kept, scale)

/-- The value that a numeral stands for. -/
def value (n : Numeral) : Json :=
  let whole := ofDigits n.whole
  if n.fraction = none ∧ n.exponent = none ∧ !n.negative ∧ whole < Nat.pow 2 64 then .int whole
  else if n.fraction = none ∧ n.exponent = none ∧ n.negative ∧ 0 < whole ∧ whole ≤ Nat.pow 2 63 then
    .int (-whole)
  else
    let (kept, scale) := keepWhole 0 n.whole
    let (kept, scale) := keepFraction kept scale (n.fraction.getD [])
    match Binary64.ofScaled? n.negative kept (scale + n.exponent.getD 0) with
    | some x => .float x
    | none => .unreadable

end Numeral

end Clearance.Json
