import Clearance.Combining

/-!
# Conflicts within a policy

Three findings about a policy, made without any request. Rules of one signature contradict each
other if one allows and one denies. An allow is unreachable if a deny of its signature has a
strictly higher priority. Rules collide if they share a priority, which by itself decides
nothing.
-/

namespace Clearance

/-- Rules of one signature that disagree, in policy order. -/
structure Contradiction where
  signature : Signature
  rules : List Rule

/-- Rules of one priority, in policy order. -/
structure Collision where
  priority : Priority
  rules : List Rule

/-- An allow that never decides, and the deny that keeps it from deciding. -/
structure Unreachable where
  rule : Rule
  shadow : Rule

structure Conflicts where
  /-- In the order in which their signatures first occur. -/
  contradictions : List Contradiction
  /-- Highest priority first. -/
  collisions : List Collision
  unreachable : List Unreachable

namespace Conflicts

/-- Whether there is nothing to report. -/
def isEmpty (c : Conflicts) : Bool :=
  c.contradictions.isEmpty && c.collisions.isEmpty && c.unreachable.isEmpty

/-- Whether there is a finding that bears on decisions. -/
def bearOnDecisions (c : Conflicts) : Bool := !c.contradictions.isEmpty || !c.unreachable.isEmpty

end Conflicts

namespace Policy

/-- The signatures of the rules, each where it first occurs. -/
def signatures (p : Policy) : List Signature := (p.rules.map (·.signature)).eraseDups

/-- The rules of one signature. -/
def rulesOf (p : Policy) (s : Signature) : List Rule := p.rules.filter (·.signature == s)

/-- Whether the rules both allow and deny. -/
def contradict (rules : List Rule) : Bool :=
  rules.any (·.effect == .allow) && rules.any (·.effect == .deny)

def contradictions (p : Policy) : List Contradiction :=
  (p.signatures.map fun s => ⟨s, p.rulesOf s⟩).filter fun c => contradict c.rules

/-- The allows below the strongest deny. -/
def shadowed (rules : List Rule) : List Unreachable :=
  match Combining.strongest (rules.filter (·.effect == .deny)) with
  | none => []
  | some shadow =>
    (rules.filter fun r => r.effect == .allow && r.priority < shadow.priority).map fun rule =>
      { rule, shadow }

/-- The priorities in use, highest first. -/
def priorities (p : Policy) : List Priority :=
  Stable.sort (fun a b => decide (b ≤ a)) (p.rules.map (·.priority)).eraseDups

def collisions (p : Policy) : List Collision :=
  (p.priorities.map fun n => ⟨n, p.rules.filter (·.priority == n)⟩).filter fun c =>
    1 < c.rules.length

/-- All findings about a policy. -/
def conflicts (p : Policy) : Conflicts :=
  { contradictions := p.contradictions
    collisions := p.collisions
    unreachable := p.contradictions.flatMap fun c => shadowed c.rules }

end Policy

end Clearance
