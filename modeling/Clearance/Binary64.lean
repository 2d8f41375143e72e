/-!
# Finite binary fractions

A number written with a fraction or an exponent is held as the 64 bits of its binary value, so
that equality is decidable. `Binary64.ofScaled?` reads one from its leading digits and a power
of ten, and `Binary64.text` writes the fewest digits that identify it.

Reading rounds twice (once for the digits, once for the scaling), which is exact for every
number of at most fifteen digits and a scale within ±22. Writing is done in exact integer
arithmetic: of the decimals that lie between the halfway points to the neighbouring values, it
takes one with the fewest digits, of those the nearest, and on a tie the even one.
-/

namespace Clearance

/-- A finite binary fraction by its bits: sign, exponent, significand. -/
structure Binary64 where
  bits : UInt64
  deriving DecidableEq, Repr

namespace Binary64

def negative (x : Binary64) : Bool := x.bits >>> 63 == 1

/-- Whether two fractions are the same number; the two zeros are. -/
def same (x y : Binary64) : Bool := x == y || (x.bits <<< 1 == 0 && y.bits <<< 1 == 0)

/-- The nearest fraction to a power of ten. -/
def powerOfTen (n : Nat) : Float := Float.ofScientific 1 false n

/-- `digits · 10^scale` for a positive whole number of at most 64 bits; `none` past the largest
fraction. Scales below -308 are reached in two divisions, below -616 nothing is left. -/
def ofScaled? (negative : Bool) (digits : Nat) (scale : Int) : Option Binary64 :=
  let f := digits.toUInt64.toFloat
  let magnitude : Option Float :=
    if digits = 0 then some 0.0
    else if scale > 308 then none
    else if 0 ≤ scale then
      let g := f * powerOfTen scale.toNat
      if g.isInf then none else some g
    else if -308 ≤ scale then some (f / powerOfTen (-scale).toNat)
    else if -616 ≤ scale then some (f / powerOfTen 308 / powerOfTen (-scale - 308).toNat)
    else some 0.0
  magnitude.map fun g => ⟨(if negative then -g else g).toBits⟩

/-- The magnitude as `m · 2^q`, with a flag for values whose lower neighbour is half as far away
as the upper one. -/
def magnitude (x : Binary64) : Nat × Int × Bool :=
  let e := ((x.bits >>> 52) &&& 0x7FF).toNat
  let f := (x.bits &&& 0xFFFFFFFFFFFFF).toNat
  if e = 0 then (f, -1074, false) else (Nat.pow 2 52 + f, (e : Int) - 1075, f == 0 && e > 1)

/-- `n / d` in lowest common terms of a power of two, for `n · 2^q`. -/
def ratio (n : Nat) (q : Int) : Nat × Nat := (n * Nat.pow 2 q.toNat, Nat.pow 2 (-q).toNat)

/-- How many decimal digits a whole number has; none for zero. -/
def digitCount (n : Nat) : Nat := if n = 0 then 0 else (Nat.toDigits 10 n).length

/-- The least `k` with `n / d < 10^k`. -/
def leadingExponent (n d : Nat) : Int :=
  if d ≤ n then digitCount (n / d)
  else 1 - (digitCount ((d + n - 1) / n - 1) : Int)

/-- How `digits · 10^e` compares with `n / d`. -/
def compareScaled (digits : Nat) (e : Int) (n d : Nat) : Ordering :=
  compare (digits * Nat.pow 10 e.toNat * d) (n * Nat.pow 10 (-e).toNat)

/-- Whether a decimal lies among the reals that are nearer to `m · 2^q` than to its neighbours;
the halfway points count when `m` is even. -/
def identifies (m : Nat) (q : Int) (narrow : Bool) (digits : Nat) (e : Int) : Bool :=
  let (lo, lod) := ratio (if narrow then 4 * m - 1 else 4 * m - 2) (q - 2)
  let (hi, hid) := ratio (4 * m + 2) (q - 2)
  let low := compareScaled digits e lo lod
  let high := compareScaled digits e hi hid
  (low == .gt || (m % 2 == 0 && low == .eq)) && (high == .lt || (m % 2 == 0 && high == .eq))

/-- The better of the two decimals around `m · 2^q` on the grid `10^e`, if either identifies it. -/
def onGrid? (m : Nat) (q : Int) (narrow : Bool) (e : Int) : Option Nat :=
  let (n, d) := ratio m q
  let below := n * Nat.pow 10 (-e).toNat / (d * Nat.pow 10 e.toNat)
  match identifies m q narrow below e, identifies m q narrow (below + 1) e with
  | false, false => none
  | true, false => some below
  | false, true => some (below + 1)
  | true, true =>
    match compareScaled (2 * below + 1) e (2 * n) d with
    | .gt => some below
    | .lt => some (below + 1)
    | .eq => some (if below % 2 = 0 then below else below + 1)

/-- The shortest decimal `digits · 10^e` that identifies a positive magnitude. -/
def shortest (m : Nat) (q : Int) (narrow : Bool) : Nat × Int :=
  let (n, d) := ratio m q
  let k := leadingExponent n d
  let found := (List.range 17).findSome? fun i =>
    let e := k - (i + 1 : Nat)
    (onGrid? m q narrow e).map (·, e)
  found.getD (n * Nat.pow 10 (-q).toNat / d, -((-q).toNat : Int))

/-- Move the zeros at the end of the digits into the exponent; the count bounds the steps. -/
def stripZeros : Nat → Nat → Int → Nat × Int
  | 0, digits, e => (digits, e)
  | fuel + 1, digits, e =>
    if digits ≠ 0 ∧ digits % 10 = 0 then stripZeros fuel (digits / 10) (e + 1) else (digits, e)

/-- Decimal text of a magnitude: positional while the point falls within the first sixteen digits
or at most four zeros before the first, otherwise with an exponent. A positional number always
shows its point. -/
def layout (digits : List Char) (e : Int) : List Char :=
  let point := digits.length + e
  if 0 ≤ e ∧ point ≤ 16 then digits ++ List.replicate e.toNat '0' ++ ['.', '0']
  else if 0 < point ∧ point ≤ 16 then
    digits.take point.toNat ++ '.' :: digits.drop point.toNat
  else if -5 < point ∧ point ≤ 0 then
    '0' :: '.' :: List.replicate (-point).toNat '0' ++ digits
  else
    let fraction := match digits.tail with
      | [] => []
      | rest => '.' :: rest
    digits.take 1 ++ fraction ++ 'e' :: (toString (point - 1)).toList

/-- The fewest digits that identify the fraction. -/
def text (x : Binary64) : String :=
  let (m, q, narrow) := x.magnitude
  let magnitude :=
    if m = 0 then ['0', '.', '0']
    else
      let (digits, e) := shortest m q narrow
      let (digits, e) := stripZeros 800 digits e
      layout (Nat.toDigits 10 digits) e
  String.ofList (if x.negative then '-' :: magnitude else magnitude)

end Binary64

end Clearance
