import Clearance.Glob

/-!
# Scopes

A scope is the part of someone's permissions that is handed on: every listed action on every
listed resource, both given as patterns. The domain goes along but does not narrow what a scope
takes in.

One scope covers another if it takes in each pair of patterns of the other, read as plain text. A
pattern taken as text stands for all that it describes, so only an equally broad pattern takes
it in.
-/

namespace Clearance

structure Scope where
  resources : List String
  actions : List String
  domain : Option String := none
  deriving DecidableEq, Repr

namespace Scope

def withDomain (s : Scope) (domain : String) : Scope := { s with domain := some domain }

/-- Whether an action on a resource lies within the scope. -/
def includes (s : Scope) (resource action : String) : Bool :=
  s.resources.any (Glob.accepts · resource) && s.actions.any (Glob.accepts · action)

/-- A scope without resources or without actions takes in nothing. -/
def isEmpty (s : Scope) : Bool := s.resources.isEmpty || s.actions.isEmpty

/-- Every resource pattern with every action pattern, resource by resource. -/
def pairs (s : Scope) : List (String × String) :=
  s.resources.flatMap fun r => s.actions.map fun a => (r, a)

/-- Whether every pair of patterns of another scope lies within this one as text. -/
def covers (s other : Scope) : Bool := other.pairs.all fun (r, a) => s.includes r a

end Scope

end Clearance
