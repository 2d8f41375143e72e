import Clearance.Rule
import Clearance.Stable

/-!
# Policies

A policy is a list of rules, perhaps with a name and the name of a policy that it extends. Rules
are tried in the order of the list or in priority order: highest first, and among equals the
earlier first.
-/

namespace Clearance

structure Policy where
  rules : List Rule
  name : Option String := none
  base : Option String := none

namespace Policy

/-- A policy without a name. -/
def ofRules (rules : List Rule) : Policy := { rules }

def named (name : String) (rules : List Rule) : Policy := { rules, name := some name }

def withName (p : Policy) (name : String) : Policy := { p with name := some name }

def extending (p : Policy) (name : String) : Policy := { p with base := some name }

def size (p : Policy) : Nat := p.rules.length

/-- Put a rule at the end. -/
def addRule (p : Policy) (r : Rule) : Policy := { p with rules := p.rules ++ [r] }

/-- Put the rules of a base in front. The policy extends the base unless it extends another. -/
def inheritFrom (p base : Policy) : Policy :=
  { p with rules := base.rules ++ p.rules, base := p.base <|> base.name }

/-- Whether one rule may come before another in priority order. -/
def outranks (a b : Rule) : Bool := decide (b.priority ≤ a.priority)

/-- The rules in priority order. -/
def byPriority (p : Policy) : List Rule := Stable.sort outranks p.rules

/-- Every rule without its condition. -/
def unconditional (p : Policy) : Policy := { p with rules := p.rules.map (·.unconditional) }

def sameRules : List Rule → List Rule → Bool
  | [], [] => true
  | a :: as, b :: bs => a.same b && sameRules as bs
  | _, _ => false

/-- Whether two policies are equal; a condition equals only itself. -/
def same (p q : Policy) : Bool :=
  sameRules p.rules q.rules && p.name == q.name && p.base == q.base

end Policy

end Clearance
