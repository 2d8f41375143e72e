import Clearance.Policy

/-!
# Changes between two policies

Rules are told apart by their signatures alone: a rule whose effect or priority has changed still
counts as the same rule.
-/

namespace Clearance

structure Changes where
  /-- Rules of the new policy that the old one has no counterpart of. -/
  added : List Rule
  /-- Rules of the old policy that the new one has no counterpart of. -/
  removed : List Rule
  /-- Rules of the new policy with a counterpart in the old one. -/
  unchanged : List Rule

def Changes.isEmpty (c : Changes) : Bool := c.added.isEmpty && c.removed.isEmpty

namespace Policy

/-- Whether the policy has a rule of that signature. -/
def hasSignature (p : Policy) (s : Signature) : Bool := p.rules.any (·.signature == s)

/-- What has to change to get from an old policy to this one. -/
def changesFrom (new old : Policy) : Changes :=
  { added := new.rules.filter fun r => !old.hasSignature r.signature
    removed := old.rules.filter fun r => !new.hasSignature r.signature
    unchanged := new.rules.filter fun r => old.hasSignature r.signature }

end Policy

end Clearance
