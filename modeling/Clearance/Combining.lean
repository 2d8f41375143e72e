import Clearance.Policy

/-!
# Combining the rules that apply

From the rules that apply to a request, one is chosen to decide it. With none, the answer is no.
-/

namespace Clearance

/-- A way to choose the deciding rule. -/
inductive Combining where
  /-- The first deny, else the first allow. -/
  | standard
  /-- The same choice under the name that states the intent. -/
  | denyOverride
  /-- The highest priority, the earliest among equals. -/
  | priority
  deriving DecidableEq, Repr

namespace Combining

def name : Combining → String
  | standard => "standard"
  | denyOverride => "deny_override"
  | priority => "priority"

/-- The ways by name. -/
def names : List (String × Combining) :=
  [("standard", standard), ("deny_override", denyOverride), ("priority", priority)]

/-- Whether the choice goes by priority. -/
def isPriorityOrdered (c : Combining) : Bool := c == priority

/-- The better of the best rule so far and the next one: a later rule must rank higher. -/
def better (best : Option Rule) (r : Rule) : Option Rule :=
  match best with
  | some b => if r.priority ≤ b.priority then some b else some r
  | none => some r

/-- The earliest rule of the highest priority. -/
def strongest (rules : List Rule) : Option Rule := rules.foldl better none

/-- The rule that decides, if any applies. -/
def decidingRule (c : Combining) (matched : List Rule) : Option Rule :=
  match c with
  | standard | denyOverride =>
    matched.find? (·.effect == .deny) <|> matched.find? (·.effect == .allow)
  | priority => strongest matched

/-- The effect of the deciding rule; no rule is a deny. -/
def effect (c : Combining) (matched : List Rule) : Effect :=
  (c.decidingRule matched).elim .deny (·.effect)

end Combining

end Clearance
