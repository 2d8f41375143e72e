/-!
# Glob patterns

`*` stands for any run of characters, `?` for exactly one, anything else for itself. Every
decision of the library rests on `Glob.accepts`.

Most patterns in use are a plain word, a bare `*`, or a word followed by one `*`; these three
are answered directly. The rest go through a scan with two cursors that remembers only the most
recent `*`: when it is stuck it lets that `*` take one character more. Forgetting the earlier
stars is sound because the stretch between two stars is matched as early as possible, which
leaves the most room for what follows.

The scan counts down from `effort`, a bound on its iterations: the remembered star only moves
right in the pattern, for one star its run only grows, and for one run the value cursor only
moves right.
-/

namespace Clearance.Glob

def isMeta (c : Char) : Bool := c == '*' || c == '?'

/-- Whether a pattern holds a metacharacter. -/
def isGlob (pattern : String) : Bool := pattern.toList.any isMeta

/-- The state of a scan: the next pattern and value positions, and the position of the most
recent `*` with the value position up to which it has been stretched. -/
structure Cursor where
  p : Nat
  v : Nat
  star : Option (Nat × Nat)
  deriving Repr, DecidableEq

/-- Where every scan begins. -/
def Cursor.start : Cursor := ⟨0, 0, none⟩

/-- Let the most recent `*` take one character more; `none` if there is no `*` to stretch. -/
def Cursor.stretch (c : Cursor) : Option Cursor :=
  c.star.map fun (p, v) => ⟨p + 1, v + 1, some (p, v + 1)⟩

/-- One iteration, with `ch` the value's character under the cursor. -/
def Cursor.step (pattern : Array Char) (ch : Char) (c : Cursor) : Option Cursor :=
  match pattern[c.p]? with
  | some '?' => some { c with p := c.p + 1, v := c.v + 1 }
  | some '*' => some { c with p := c.p + 1, star := some (c.p, c.v) }
  | some x => if x = ch then some { c with p := c.p + 1, v := c.v + 1 } else c.stretch
  | none => c.stretch

/-- At the end of the value only stars may remain of the pattern. -/
def onlyStarsFrom (pattern : Array Char) (p : Nat) : Bool :=
  (pattern.toList.drop p).all (· == '*')

/-- Scan from a cursor for at most the given number of iterations. -/
def scan (pattern value : Array Char) : Nat → Cursor → Bool
  | 0, _ => false
  | fuel + 1, c =>
    match value[c.v]? with
    | none => onlyStarsFrom pattern c.p
    | some ch =>
      match c.step pattern ch with
      | none => false
      | some c' => scan pattern value fuel c'

/-- No scan takes more iterations than this. -/
def effort (pattern value : Array Char) : Nat :=
  (pattern.size + 1) * (value.size + 1) * (value.size + 2) + 1

/-- The word before a single trailing `*`, if the pattern has that shape. -/
def stem? (pattern : List Char) : Option (List Char) :=
  if pattern.getLast? = some '*' && !pattern.dropLast.any isMeta then some pattern.dropLast
  else none

/-- Whether a value has the form that a pattern describes. -/
def accepts (pattern value : String) : Bool :=
  if pattern = "*" then true
  else if !isGlob pattern then pattern = value
  else
    match stem? pattern.toList with
    | some stem => stem.isPrefixOf value.toList
    | none =>
      let p := pattern.toList.toArray
      let v := value.toList.toArray
      scan p v (effort p v) .start

end Clearance.Glob
