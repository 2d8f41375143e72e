import Clearance.Proofs.Glob.Scan
import Clearance.Proofs.Source.Token
import Clearance.Table.Source

/-!
# The printed glob scan

A printed table that needs the glob scan brings it along as source. Here that source is written down
as a program (`Matcher.printed`): the loop, its three branches and what each of them does. The
program can be spelled out again (`Matcher.tokens`), and its tokens are those of the lines in the
table (`readsLines_scanLines`); so it is the printed scan that is run here, not a retelling of it.

A run can go wrong in ways that the text alone does not exclude. A position may lie beyond the end
of its text, the slice at the end may begin beyond it, and the loop may not end. `Matcher.run` has
no answer in each of these cases. That it has one after all, and which, is `answer_eq_accepts`: a turn
of the loop is a step of the scan that patterns are matched with (`turn_eq_step`), the invariant of
that scan keeps every position in range, and its bound ends the loop. No more than this is needed of a
program (`Follows`). The printed scan has none of the shortcuts of `Glob.accepts` and gives the same
answers.
-/

namespace Clearance.Source

open Glob

namespace Matcher

/-- The two texts of the scan. -/
inductive Text where
  | pattern
  | value
  deriving DecidableEq, Repr

/-- The numbers of the scan. The last two are those of the recorded star where they are bound. -/
inductive Variable where
  | p
  | v
  | starP
  | starV
  deriving DecidableEq, Repr

inductive Number where
  | of (x : Variable)
  | length (a : Text)
  | next (x : Variable)
  deriving DecidableEq, Repr

inductive Letter where
  | of (a : Text) (i : Variable)
  | fixed (c : Char)
  deriving DecidableEq, Repr

inductive Test where
  | less (m n : Number)
  | same (x y : Letter)
  | both (s t : Test)
  | either (s t : Test)
  deriving DecidableEq, Repr

inductive Action where
  | assign (x : Variable) (n : Number)
  | increment (x : Variable)
  /-- Record a star. -/
  | record (m n : Number)
  deriving DecidableEq, Repr

inductive Branch where
  | test (t : Test) (body : List Action)
  /-- There is a recorded star, and the branch binds its numbers. -/
  | recorded (body : List Action)
  deriving DecidableEq, Repr

end Matcher

/-- A scan: a loop that takes the first branch that it can, and gives up if it can take none. At the
end only stars may be left of the pattern. -/
structure Matcher where
  goOn : Matcher.Test
  branches : List Matcher.Branch
  deriving DecidableEq, Repr

namespace Matcher

/-! ## As source -/

def Text.name : Text → String
  | pattern => "pattern"
  | value => "value"

def Variable.name : Variable → String
  | p => "p"
  | v => "v"
  | starP => "star_p"
  | starV => "star_v"

def Number.tokens : Number → List Token
  | of x => [.word x.name]
  | length a => .word a.name :: spelled ".len()"
  | next x => .word x.name :: spelled "+ 1"

def Letter.tokens : Letter → List Token
  | of a i => [.word a.name, .symbol "[", .word i.name, .symbol "]"]
  | fixed c => [.letter c]

def Test.tokens : Test → List Token
  | less m n => m.tokens ++ spelled "<" ++ n.tokens
  | same x y => x.tokens ++ spelled "==" ++ y.tokens
  | both s t => s.tokens ++ spelled "&&" ++ t.tokens
  | either s t => spelled "(" ++ s.tokens ++ spelled "||" ++ t.tokens ++ spelled ")"

def Action.tokens : Action → List Token
  | assign x n => .word x.name :: spelled "=" ++ n.tokens ++ spelled ";"
  | increment x => .word x.name :: spelled "+= 1;"
  | record m n => spelled "star = Some((" ++ m.tokens ++ spelled "," ++ n.tokens ++ spelled "));"

def Branch.head : Branch → List Token
  | test t _ => spelled "if" ++ t.tokens
  | recorded _ => spelled "if let Some((star_p, star_v)) = star"

def Branch.body : Branch → List Action
  | test _ body | recorded body => body

/-- A branch and the `else` after it. -/
def Branch.tokens (b : Branch) : List Token :=
  b.head ++ spelled "\x7b" ++ b.body.flatMap Action.tokens ++ spelled "\x7d else"

/-- What follows the name of a scan where it is defined. -/
def definition (m : Matcher) : List Token :=
  spelled "(pattern: &str, value: &str) -> bool \x7b" ++
  spelled "let pattern: Vec<char> = pattern.chars().collect();" ++
  spelled "let value: Vec<char> = value.chars().collect();" ++
  spelled "let (mut p, mut v) = (0, 0);" ++
  spelled "let mut star: Option<(usize, usize)> = None;" ++
  spelled "while" ++ m.goOn.tokens ++ spelled "\x7b" ++
    m.branches.flatMap Branch.tokens ++ spelled "\x7b return false; \x7d" ++
  spelled "\x7d" ++
  spelled "pattern[p..].iter().all(|c| *c == '*') \x7d"

/-- The definition of a scan. -/
def tokens (m : Matcher) : List Token := .word "fn" :: .word "wildcard_match" :: m.definition

/-- There is a next character of the pattern. -/
def inPattern : Test := .less (.of .p) (.length .pattern)

/-- It is a star. -/
def isStar : Test := .same (.of .pattern .p) (.fixed '*')

/-- It takes the next character of the value. -/
def takes : Test :=
  .either (.same (.of .pattern .p) (.fixed '?')) (.same (.of .pattern .p) (.of .value .v))

/-- The scan that tables are printed with. -/
def printed : Matcher where
  goOn := .less (.of .v) (.length .value)
  branches :=
    [.test (.both inPattern isStar) [.record (.of .p) (.of .v), .increment .p],
     .test (.both inPattern takes) [.increment .p, .increment .v],
     .recorded
      [.assign .p (.next .starP), .assign .v (.next .starV), .record (.of .starP) (.next .starV)]]

/-! ## Running it -/

/-- What the numbers and letters of a scan refer to: the texts, where the scan stands in them, and
the star that a branch has bound. -/
structure Frame where
  pattern : Array Char
  value : Array Char
  cursor : Cursor
  bound : Option (Nat × Nat)

variable (f : Frame)

def Text.chars : Text → Array Char
  | pattern => f.pattern
  | value => f.value

def Variable.eval : Variable → Option Nat
  | p => some f.cursor.p
  | v => some f.cursor.v
  | starP => f.bound.map (·.1)
  | starV => f.bound.map (·.2)

def Number.eval : Number → Option Nat
  | of x => x.eval f
  | length a => some (a.chars f).size
  | next x => (x.eval f).map (· + 1)

/-- There is no letter beyond the end of a text. -/
def Letter.eval : Letter → Option Char
  | of a i => (i.eval f).bind fun n => (a.chars f)[n]?
  | fixed c => some c

/-- The second of two tests is made only if the first does not decide. -/
def Test.eval : Test → Option Bool
  | less m n => (m.eval f).bind fun x => (n.eval f).map fun y => decide (x < y)
  | same x y => (x.eval f).bind fun c => (y.eval f).map fun d => c == d
  | both s t => s.eval.bind fun holds => if holds then t.eval else some false
  | either s t => s.eval.bind fun holds => if holds then some true else t.eval

/-- Set a number. Those of the recorded star cannot be set. -/
def Variable.set (c : Cursor) (n : Nat) : Variable → Option Cursor
  | p => some { c with p := n }
  | v => some { c with v := n }
  | starP | starV => none

def Action.run : Action → Option Cursor
  | assign x n => (n.eval f).bind fun n => x.set f.cursor n
  | increment x => (x.eval f).bind fun n => x.set f.cursor (n + 1)
  | record m n =>
    (m.eval f).bind fun m => (n.eval f).map fun n => { f.cursor with star := some (m, n) }

/-- Actions one after another. -/
def runAll : Frame → List Action → Option Cursor
  | f, [] => some f.cursor
  | f, a :: rest => (a.run f).bind fun c => runAll { f with cursor := c } rest

/-- The first branch that can be taken; there may be none. -/
def runBranches : List Branch → Option (Option Cursor)
  | [] => some none
  | .test t body :: rest =>
    (t.eval f).bind fun holds => if holds then (runAll f body).map some else runBranches rest
  | .recorded body :: rest =>
    match f.cursor.star with
    | some s => (runAll { f with bound := some s } body).map some
    | none => runBranches rest

/-- One turn of the loop. -/
def turn (m : Matcher) (pattern value : Array Char) (c : Cursor) : Option (Option Cursor) :=
  runBranches ⟨pattern, value, c, none⟩ m.branches

/-- Turns of the loop, as many as there is time for, and the test at the end. -/
def run (m : Matcher) (pattern value : Array Char) : Nat → Cursor → Option Bool
  | 0, _ => none
  | time + 1, c =>
    (m.goOn.eval ⟨pattern, value, c, none⟩).bind fun goesOn =>
      if goesOn then
        (m.turn pattern value c).bind fun moved => moved.elim (some false) (m.run pattern value time)
      else if c.p ≤ pattern.size then some (onlyStarsFrom pattern c.p)
      else none

/-- What a call of the scan evaluates to in this time. -/
def answer (m : Matcher) (time : Nat) (pattern value : String) : Option Bool :=
  m.run pattern.toList.toArray value.toList.toArray time .start

/-! ## The printed scan is the scan -/

/-- The lines in a printed table are the program. -/
theorem readsLines_scanLines : ReadsLines Table.scanLines printed.tokens := by
  unfold ReadsLines lineChars Table.scanLines
  simp only [List.flatMap_cons, List.flatMap_nil]
  repeat rw [String.toList_ofList]
  decide +kernel

section Turn

variable {pattern value : Array Char} {c : Cursor} {x y ch : Char} {t : Test}

theorem eval_fixed (hp : pattern[c.p]? = some x) :
    (Test.same (.of .pattern .p) (.fixed y)).eval ⟨pattern, value, c, none⟩ = some (x == y) := by
  show (pattern[c.p]?.bind fun z => some (z == y)) = _
  rw [hp]
  rfl

theorem eval_takes (hp : pattern[c.p]? = some x) (hv : value[c.v]? = some ch) :
    takes.eval ⟨pattern, value, c, none⟩ = some (x == '?' || x == ch) := by
  show ((pattern[c.p]?.bind fun y => some (y == '?')).bind fun holds =>
    if holds then some true else pattern[c.p]?.bind fun y => value[c.v]?.map fun d => y == d) = _
  rw [hp, hv]
  cases hx : x == '?' <;> simp [hx]

/-- No character is looked up beyond the end of the pattern. -/
theorem eval_inPattern (t : Test) :
    (Test.both inPattern t).eval ⟨pattern, value, c, none⟩ =
      if c.p < pattern.size then t.eval ⟨pattern, value, c, none⟩ else some false := by
  show (if decide (c.p < pattern.size) then _ else _) = _
  by_cases h : c.p < pattern.size
  · rw [if_pos h, if_pos (decide_eq_true h)]
  · rw [if_neg h, if_neg (by simpa using h)]

/-- Where there is a character of the pattern, the test of it decides. -/
theorem eval_ahead (hp : pattern[c.p]? = some x) :
    (Test.both inPattern t).eval ⟨pattern, value, c, none⟩ =
      t.eval ⟨pattern, value, c, none⟩ := by
  rw [eval_inPattern, if_pos (lt_size_of_getElem? hp)]

/-- A test of the next character of the pattern fails where that character fails it, or is missing. -/
theorem eval_failed
    (h : ∀ x, pattern[c.p]? = some x → t.eval ⟨pattern, value, c, none⟩ = some false) :
    (Test.both inPattern t).eval ⟨pattern, value, c, none⟩ = some false := by
  cases hp : pattern[c.p]? with
  | some x => rw [eval_ahead hp, h x hp]
  | none =>
    have hend : ¬ c.p < pattern.size := by
      simpa [Array.getElem?_eq_none_iff] using hp
    rw [eval_inPattern, if_neg hend]

theorem runBranches_of_holds {f : Frame} {body : List Action} {rest : List Branch}
    (ht : t.eval f = some true) :
    runBranches f (.test t body :: rest) = (runAll f body).map some := by
  rw [runBranches, ht]
  rfl

theorem runBranches_of_fails {f : Frame} {body : List Action} {rest : List Branch}
    (ht : t.eval f = some false) :
    runBranches f (.test t body :: rest) = runBranches f rest := by
  rw [runBranches, ht]
  rfl

/-- The last branch lets the recorded star take one character more. -/
theorem runBranches_recorded :
    runBranches ⟨pattern, value, c, none⟩ (printed.branches.drop 2) = some c.stretch := by
  unfold Cursor.stretch
  show (match c.star with | some s => _ | none => _) = _
  cases c.star <;> rfl

/-- A turn of the loop is a step of the scan. -/
theorem turn_eq_step (hv : value[c.v]? = some ch) :
    printed.turn pattern value c = some (c.step pattern ch) := by
  have hm := c.step_moved pattern ch
  show runBranches ⟨pattern, value, c, none⟩ (.test (.both inPattern isStar) _ ::
    .test (.both inPattern takes) _ :: printed.branches.drop 2) = _
  generalize c.step pattern ch = moved at hm
  cases hm with
  | advance x hp hx hch =>
    have htakes : (x == '?' || x == ch) = true := by
      rcases hch with rfl | rfl <;> simp
    rw [runBranches_of_fails (by rw [eval_ahead hp, isStar, eval_fixed hp, beq_false_of_ne hx]),
      runBranches_of_holds (by rw [eval_ahead hp, eval_takes hp hv, htakes])]
    rfl
  | record hp =>
    rw [runBranches_of_holds (by rw [eval_ahead hp, isStar, eval_fixed hp]; rfl)]
    rfl
  | stuck hstuck =>
    have hstar : (Test.both inPattern isStar).eval ⟨pattern, value, c, none⟩ = some false := by
      refine eval_failed fun x hp => ?_
      rw [isStar, eval_fixed hp, beq_false_of_ne (hstuck x hp).1]
    have htakes : (Test.both inPattern takes).eval ⟨pattern, value, c, none⟩ = some false := by
      refine eval_failed fun x hp => ?_
      rw [eval_takes hp hv]
      simpa [Takes] using (hstuck x hp).2
    rw [runBranches_of_fails hstar, runBranches_of_fails htakes, runBranches_recorded]

end Turn

/-- A scan whose loop goes on while there is a character of the value left, and whose turns are the
steps that patterns are matched with. -/
structure Follows (m : Matcher) : Prop where
  goOn : m.goOn = .less (.of .v) (.length .value)
  turn : ∀ {pattern value : Array Char} {c : Cursor} {ch : Char}, value[c.v]? = some ch →
    m.turn pattern value c = some (c.step pattern ch)

theorem printed_follows : printed.Follows := ⟨rfl, turn_eq_step⟩

namespace Follows

variable {m : Matcher} {pattern value : Array Char} {c : Cursor}

theorem eval_goOn (hm : m.Follows) :
    m.goOn.eval ⟨pattern, value, c, none⟩ = some (decide (c.v < value.size)) := by
  rw [hm.goOn]
  rfl

/-- With time for the turns that are left, the loop ends and answers what the scan answers. -/
theorem run_eq_scan (hm : m.Follows) (time : Nat) (h : c.InRange pattern value)
    (hleft : c.left pattern value < time) :
    m.run pattern value time c = some (scan pattern value time c) := by
  induction time generalizing c with
  | zero => exact absurd hleft (Nat.not_lt_zero _)
  | succ time ih =>
    unfold run scan
    rw [hm.eval_goOn, Option.bind_some]
    cases hv : value[c.v]? with
    | none =>
      have hend : ¬ c.v < value.size := by
        simpa [Array.getElem?_eq_none_iff] using hv
      rw [if_neg (by simpa using hend), if_pos h.p_le]
    | some ch =>
      have hlt := lt_size_of_getElem? hv
      rw [if_pos (decide_eq_true hlt), hm.turn hv]
      dsimp only
      cases hs : c.step pattern ch with
      | none => rfl
      | some c' =>
        have hless := left_step h hlt hs
        exact ih (h.step hlt hs) (by omega)

/-- From the start, the bound of the scan is time enough. -/
theorem run_of_effort_le (hm : m.Follows) {time : Nat} (htime : effort pattern value ≤ time) :
    m.run pattern value time .start =
      some (scan pattern value (effort pattern value) .start) := by
  have hleft : Cursor.start.left pattern value < time := Nat.lt_of_lt_of_le left_start_lt htime
  rw [hm.run_eq_scan time Cursor.start_inRange hleft, scan_of_effort_le htime]

end Follows

/-- **The printed scan ends, without ever leaving its texts, and answers as `Glob.accepts` does**,
whatever the pattern and the value are. -/
theorem answer_eq_accepts {time : Nat} (pattern value : String)
    (htime : effort pattern.toList.toArray value.toList.toArray ≤ time) :
    printed.answer time pattern value = some (Glob.accepts pattern value) := by
  have hsame : scan pattern.toList.toArray value.toList.toArray
      (effort pattern.toList.toArray value.toList.toArray) .start = Glob.accepts pattern value := by
    rw [Bool.eq_iff_iff, accepts_iff_describes, scan_start_iff]
  unfold answer
  rw [printed_follows.run_of_effort_le htime, hsame]

end Matcher

end Clearance.Source
