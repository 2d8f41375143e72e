import Clearance.Proofs.Source.Matcher

/-!
# Scans stay inside their texts, and end

Patterns are written by whoever writes policies, and values come with requests: no pair of them may
lead a scan out of its texts or keep it going. There are two scans to say this of. Printed tables
bring their own (`printed`), and the one that policies are matched with is written down here in the
same terms (`builtIn`). It asks for the next character of the pattern once and then goes by what it
is, so a `?` is tried first, and the value is looked at only beside a plain character.

`Matcher.Stands` says where a loop stands after so many turns, with no bound on their number, and
`Matcher.Safe` is what holds there. A turn has a result only if every character it looks up is there
(`Letter.eval`), so that it has one means that no position in use is out of range.

Neither position shows that the loop ends: when the recorded star takes one character more, both go
back over the stretch that has fitted since, and only where nothing has is the value position ahead
of where it was. But the star never takes fewer characters again. `Cursor.left` weighs this up, and
with every turn counted it never exceeds what it was at the start (`Follows.turns_add_left_le`).
-/

namespace Clearance.Source.Matcher

open Glob

/-! ## The scan of policies -/

/-- The next character of the pattern takes any one character. -/
def isQuestion : Test := .same (.of .pattern .p) (.fixed '?')

/-- It is the next character of the value. -/
def isSame : Test := .same (.of .pattern .p) (.of .value .v)

/-- The scan that policies are matched with. -/
def builtIn : Matcher where
  goOn := .less (.of .v) (.length .value)
  branches :=
    [.test (.both inPattern isQuestion) [.increment .p, .increment .v],
     .test (.both inPattern isStar) [.record (.of .p) (.of .v), .increment .p],
     .test (.both inPattern isSame) [.increment .p, .increment .v],
     .recorded
      [.assign .p (.next .starP), .assign .v (.next .starV), .record (.of .starP) (.next .starV)]]

section Turn

variable {pattern value : Array Char} {c : Cursor} {x ch : Char}

theorem eval_isSame (hp : pattern[c.p]? = some x) (hv : value[c.v]? = some ch) :
    isSame.eval ⟨pattern, value, c, none⟩ = some (x == ch) := by
  show (pattern[c.p]?.bind fun y => value[c.v]?.map fun d => y == d) = _
  rw [hp, hv]
  rfl

/-- A turn of this loop, too, is a step of the scan. -/
theorem builtIn_turn_eq_step (hv : value[c.v]? = some ch) :
    builtIn.turn pattern value c = some (c.step pattern ch) := by
  have hm := c.step_moved pattern ch
  show runBranches ⟨pattern, value, c, none⟩ (.test (.both inPattern isQuestion) _ ::
    .test (.both inPattern isStar) _ :: .test (.both inPattern isSame) _ ::
      printed.branches.drop 2) = _
  generalize c.step pattern ch = moved at hm
  cases hm with
  | advance x hp hx hch =>
    by_cases hq : x = '?'
    · rw [runBranches_of_holds (by rw [eval_ahead hp, isQuestion, eval_fixed hp, hq]; rfl)]
      rfl
    · have hsame : (x == ch) = true := beq_iff_eq.2 (hch.resolve_left hq)
      rw [runBranches_of_fails
          (by rw [eval_ahead hp, isQuestion, eval_fixed hp, beq_false_of_ne hq]),
        runBranches_of_fails (by rw [eval_ahead hp, isStar, eval_fixed hp, beq_false_of_ne hx]),
        runBranches_of_holds (by rw [eval_ahead hp, eval_isSame hp hv, hsame])]
      rfl
  | record hp =>
    rw [runBranches_of_fails (by rw [eval_ahead hp, isQuestion, eval_fixed hp]; rfl),
      runBranches_of_holds (by rw [eval_ahead hp, isStar, eval_fixed hp]; rfl)]
    rfl
  | stuck hstuck =>
    have hquestion :
        (Test.both inPattern isQuestion).eval ⟨pattern, value, c, none⟩ = some false := by
      refine eval_failed fun x hp => ?_
      have hq : x ≠ '?' := fun hq => (hstuck x hp).2 (.inl hq)
      rw [isQuestion, eval_fixed hp, beq_false_of_ne hq]
    have hstar : (Test.both inPattern isStar).eval ⟨pattern, value, c, none⟩ = some false := by
      refine eval_failed fun x hp => ?_
      rw [isStar, eval_fixed hp, beq_false_of_ne (hstuck x hp).1]
    have hsame : (Test.both inPattern isSame).eval ⟨pattern, value, c, none⟩ = some false := by
      refine eval_failed fun x hp => ?_
      have hne : x ≠ ch := fun he => (hstuck x hp).2 (.inr he)
      rw [eval_isSame hp hv, beq_false_of_ne hne]
    rw [runBranches_of_fails hquestion, runBranches_of_fails hstar, runBranches_of_fails hsame,
      runBranches_recorded]

end Turn

theorem builtIn_follows : builtIn.Follows := ⟨rfl, builtIn_turn_eq_step⟩

/-! ## Runs of any length -/

section Runs

variable (m : Matcher) (pattern value : Array Char)

/-- Whether the loop goes on from here. -/
def goesOn (c : Cursor) : Option Bool := m.goOn.eval ⟨pattern, value, c, none⟩

/-- A turn of the loop leads from one cursor to another. -/
structure Goes (c c' : Cursor) : Prop where
  on : m.goesOn pattern value c = some true
  turn : m.turn pattern value c = some (some c')

/-- After this many turns the loop stands here. -/
inductive Stands : Nat → Cursor → Prop
  | start : Stands 0 .start
  | next {n : Nat} {c c' : Cursor} (h : Stands n c) (hgo : m.Goes pattern value c c') :
      Stands (n + 1) c'

/-- What holds wherever the loop stands. -/
structure Safe : Prop where
  /-- Both positions are inside their texts or at the end of them. So the pattern has a slice from its
  position on, and no number of the loop exceeds the length of a text. -/
  within : ∀ {n c}, m.Stands pattern value n c → c.p ≤ pattern.size ∧ c.v ≤ value.size
  /-- The recorded star is a `*` of the pattern, what it has taken ends no later than the value
  position, and since then both positions have gone on equally far. -/
  star : ∀ {n c sp sv}, m.Stands pattern value n c → c.star = some (sp, sv) →
    pattern[sp]? = some '*' ∧ sv ≤ c.v ∧ ∃ k, c.p = sp + 1 + k ∧ c.v = sv + k
  /-- The loop goes on at a character of the value, and the turn finds every character it looks up;
  or it has come to the end of the value. -/
  found : ∀ {n c}, m.Stands pattern value n c →
    (m.goesOn pattern value c = some true ∧
      ∃ _ : c.v < value.size, m.turn pattern value c = some (c.step pattern value[c.v])) ∨
    (m.goesOn pattern value c = some false ∧ c.v = value.size)
  /-- A turn takes the pattern position on, or takes both positions back to the recorded star. -/
  back : ∀ {n c c'}, m.Stands pattern value n c → m.Goes pattern value c c' →
    c'.p = c.p + 1 ∨ ∃ sp sv k, c.star = some (sp, sv) ∧
      c' = ⟨sp + 1, sv + 1, some (sp, sv + 1)⟩ ∧ c.p = c'.p + k ∧ c.v + 1 = c'.v + k
  /-- Either way less is left to do. -/
  falls : ∀ {n c c'}, m.Stands pattern value n c → m.Goes pattern value c c' →
    c'.left pattern value < c.left pattern value
  /-- So the loop does not go on for ever. -/
  ends : ∀ {n c}, m.Stands pattern value n c → n < effort pattern value
  /-- It ends with the answer of the scan. -/
  answers : ∀ {time}, effort pattern value ≤ time →
    m.run pattern value time .start = some (scan pattern value (effort pattern value) .start)

end Runs

namespace Follows

variable {m : Matcher} {pattern value : Array Char} {n : Nat} {c c' : Cursor}

/-- A scan that goes on has taken a step of the matcher. -/
theorem step_of_goes (hm : m.Follows) (hgo : m.Goes pattern value c c') :
    ∃ ch, value[c.v]? = some ch ∧ c.step pattern ch = some c' := by
  have hlt : c.v < value.size := by
    have hon : m.goOn.eval ⟨pattern, value, c, none⟩ = some true := hgo.on
    rw [hm.eval_goOn] at hon
    exact of_decide_eq_true (Option.some.inj hon)
  have hv : value[c.v]? = some value[c.v] := Array.getElem?_eq_getElem hlt
  refine ⟨value[c.v], hv, ?_⟩
  have ht := hgo.turn
  rw [hm.turn hv] at ht
  exact Option.some.inj ht

/-- The invariant of the scan holds wherever the loop stands. -/
theorem inRange (hm : m.Follows) (h : m.Stands pattern value n c) : c.InRange pattern value := by
  induction h with
  | start => exact Cursor.start_inRange
  | next _ hgo ih =>
    obtain ⟨ch, hv, hs⟩ := hm.step_of_goes hgo
    exact ih.step (lt_size_of_getElem? hv) hs

/-- Each turn of the scan leaves less to do. -/
theorem left_lt_of_goes (hm : m.Follows) (h : m.Stands pattern value n c)
    (hgo : m.Goes pattern value c c') : c'.left pattern value < c.left pattern value := by
  obtain ⟨ch, hv, hs⟩ := hm.step_of_goes hgo
  exact left_step (hm.inRange h) (lt_size_of_getElem? hv) hs

/-- Every turn is paid for by what was left at the start. -/
theorem turns_add_left_le (hm : m.Follows) (h : m.Stands pattern value n c) :
    n + c.left pattern value ≤ Cursor.start.left pattern value := by
  induction h with
  | start => exact Nat.le_of_eq (Nat.zero_add _)
  | next h hgo ih =>
    have hless := hm.left_lt_of_goes h hgo
    omega

/-- All of it comes from the invariant of the scan and from what it has left to do. -/
theorem safe (hm : m.Follows) (pattern value : Array Char) : m.Safe pattern value where
  within h := ⟨(hm.inRange h).p_le, (hm.inRange h).v_le⟩
  star {n c sp sv} h hstar := by
    obtain ⟨hisStar, -, hrun, haligned, -⟩ := (hm.inRange h).star sp sv hstar
    exact ⟨hisStar, hrun, c.v - sv, by omega, by omega⟩
  found {n c} h := by
    unfold goesOn
    rw [hm.eval_goOn]
    by_cases hlt : c.v < value.size
    · have hturn : m.turn pattern value c = some (c.step pattern value[c.v]) :=
        hm.turn (Array.getElem?_eq_getElem hlt)
      exact .inl ⟨congrArg some (decide_eq_true hlt), hlt, hturn⟩
    · have hle := (hm.inRange h).v_le
      exact .inr ⟨congrArg some (decide_eq_false hlt), by omega⟩
  back h hgo := by
    obtain ⟨ch, -, hs⟩ := hm.step_of_goes hgo
    exact (hm.inRange h).on_or_back hs
  falls := hm.left_lt_of_goes
  ends h := by
    have hpaid := hm.turns_add_left_le h
    have hless := @left_start_lt pattern value
    omega
  answers := hm.run_of_effort_le

end Follows

/-- **Neither scan leaves its texts or goes on for ever**, whatever the pattern and the value are:
the one that policies are matched with, and the one whose text stands in printed tables. -/
theorem scans_safe (pattern value : Array Char) :
    builtIn.Safe pattern value ∧ printed.Safe pattern value ∧
      ReadsLines Table.scanLines printed.tokens :=
  ⟨builtIn_follows.safe pattern value, printed_follows.safe pattern value, readsLines_scanLines⟩

/-- A run that takes both positions back, with less left to do all the same: `aa` fits after the
star, and then `b` does not. -/
theorem aab_goes_back :
    builtIn.Stands #['*', 'a', 'a', 'b'] #['a', 'a', 'a', 'b'] 3 ⟨3, 2, some (0, 0)⟩ ∧
    builtIn.Goes #['*', 'a', 'a', 'b'] #['a', 'a', 'a', 'b'] ⟨3, 2, some (0, 0)⟩
      ⟨1, 1, some (0, 1)⟩ ∧
    Cursor.left #['*', 'a', 'a', 'b'] #['a', 'a', 'a', 'b'] ⟨1, 1, some (0, 1)⟩ <
      Cursor.left #['*', 'a', 'a', 'b'] #['a', 'a', 'a', 'b'] ⟨3, 2, some (0, 0)⟩ := by
  have hstar : builtIn.Stands #['*', 'a', 'a', 'b'] #['a', 'a', 'a', 'b'] 1 ⟨1, 0, some (0, 0)⟩ :=
    .next .start ⟨by decide, by decide⟩
  have hfirst : builtIn.Stands #['*', 'a', 'a', 'b'] #['a', 'a', 'a', 'b'] 2 ⟨2, 1, some (0, 0)⟩ :=
    .next hstar ⟨by decide, by decide⟩
  have hsecond : builtIn.Stands #['*', 'a', 'a', 'b'] #['a', 'a', 'a', 'b'] 3 ⟨3, 2, some (0, 0)⟩ :=
    .next hfirst ⟨by decide, by decide⟩
  have hback : builtIn.Goes #['*', 'a', 'a', 'b'] #['a', 'a', 'a', 'b'] ⟨3, 2, some (0, 0)⟩
      ⟨1, 1, some (0, 1)⟩ := ⟨by decide, by decide⟩
  exact ⟨hsecond, hback, (scans_safe _ _).1.falls hsecond hback⟩

end Clearance.Source.Matcher
