import Clearance.Combining
import Clearance.Journal

/-!
# Deciding a request

An evaluator joins a way of matching with a way of combining. It tries the rules of a policy one
after another, keeps those that apply, lets one of them decide, and denies if there is none.

The trials of one request are listed once, by `Evaluator.trials`; which rules apply and which
conditions were asked are both read off that list.
-/

namespace Clearance

/-- Which decisions go into the audit trail. -/
structure Audit where
  logAllowed : Bool := false
  logDenied : Bool := true
  deriving DecidableEq, Repr

def Audit.covers (a : Audit) : Effect → Bool
  | .allow => a.logAllowed
  | .deny => a.logDenied

/-- The answer to a request. -/
structure Decision where
  effect : Effect
  /-- The deciding rule without its condition. -/
  rule : Option Rule
  /-- How many rules applied. -/
  matched : Nat
  reason : String

namespace Decision

def byRule (r : Rule) (matched : Nat) : Decision :=
  { effect := r.effect
    rule := some r.unconditional
    matched
    reason := "Rule '" ++ r.signature.text ++ "' " ++ r.effect.name }

def byDefault : Decision :=
  { effect := .deny, rule := none, matched := 0, reason := "No matching rule (default deny)" }

end Decision

/-- A question that was put to a condition, with its answer. -/
structure Consultation where
  condition : Condition
  context : Context
  answer : Bool

structure Evaluator where
  matching : Matching := .acl
  combining : Combining := .standard
  audit : Audit := {}
  deriving DecidableEq, Repr

namespace Evaluator

/-- The rules of a policy in the order they are tried. -/
def candidates (e : Evaluator) (p : Policy) : List Rule :=
  if e.matching.isPriorityOrdered || e.combining.isPriorityOrdered then p.byPriority else p.rules

/-- Every rule of a policy with how far it got. -/
def trials (e : Evaluator) (p : Policy) (q : Request) : List (Rule × Probe) :=
  (e.candidates p).map fun r => (r, r.probe e.matching q)

/-- The rules that apply, in the order they were tried. -/
def matchingRules (e : Evaluator) (p : Policy) (q : Request) : List Rule :=
  ((e.trials p q).filter (·.2.matched)).map (·.1)

/-- The question of one trial, if a condition was asked. -/
def consultation? : Rule × Probe → Option Consultation
  | (⟨_, _, _, _, _, _, some c⟩, .asked context answer) => some ⟨c, context, answer⟩
  | _ => none

/-- The questions put to conditions, in order. -/
def consultations (e : Evaluator) (p : Policy) (q : Request) : List Consultation :=
  (e.trials p q).filterMap consultation?

/-- The answer to a request under a policy. -/
def decision (e : Evaluator) (p : Policy) (q : Request) : Decision :=
  let matched := e.matchingRules p q
  match e.combining.decidingRule matched with
  | some r => .byRule r matched.length
  | none => .byDefault

/-- The effect alone. -/
def effect (e : Evaluator) (p : Policy) (q : Request) : Effect := (e.decision p q).effect

/-- What a decision leaves on record: a line of the audit trail, if wanted, and a count. -/
def record (e : Evaluator) (q : Request) (d : Decision) : Journal :=
  let trail := if e.audit.covers d.effect then
      [Record.event (.decided q.subject.id (q.resource.map (·.id)) q.action.name d.effect d.reason)]
    else []
  trail ++ [.count (.decisions d.effect e.matching) 1]

end Evaluator

end Clearance
