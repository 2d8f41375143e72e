import Clearance.Fault
import Clearance.Time.Timestamp

/-!
# Why a delegation is refused
-/

namespace Clearance.Delegation

open Time (Instant)

/-- Why a delegation was not granted, or an operation on delegations failed. -/
inductive Refusal where
  /-- The delegator does not hold this much of the scope. -/
  | notHeld (delegator resource action : String)
  /-- The delegate stands before the delegator in a chain of delegations. -/
  | cycle (delegator delegate : String)
  /-- The chain behind the delegator has more than this many steps. -/
  | chainTooDeep (limit : Nat)
  /-- The delegation would be over before it begins. -/
  | expired (time : Instant)
  /-- An id is empty or too long. -/
  | badId (field : String)
  /-- Delegator and delegate are one. -/
  | sameParty
  /-- A store failed. -/
  | storage (error : StoreError)
  deriving DecidableEq

namespace Refusal

/-- The short name under which refusals are counted. -/
def kind : Refusal → String
  | notHeld .. => "validation"
  | cycle .. => "cycle"
  | chainTooDeep .. => "chain_too_deep"
  | expired .. => "invalid_expiry"
  | badId .. => "invalid_input"
  | sameParty => "invalid_input"
  | storage .. => "storage"

def quoted (s : String) : String := "'" ++ s ++ "'"

def message : Refusal → String
  | notHeld delegator resource action =>
    "Delegation validation failed: " ++ quoted delegator ++ " does not hold " ++ quoted action ++
      " on " ++ quoted resource
  | cycle delegator delegate =>
    "Delegating from " ++ quoted delegator ++ " to " ++ quoted delegate ++ " would create a cycle"
  | chainTooDeep limit => "Delegation chain is longer than " ++ toString limit ++ " hops"
  | expired t => "Expiry " ++ Time.Timestamp.display t ++ " is not in the future"
  | badId field => "Invalid delegation request: " ++ field ++ " must have 1 to 255 characters"
  | sameParty => "Invalid delegation request: delegator and delegate must differ"
  | storage error => "Storage error: " ++ error.message

end Refusal

end Clearance.Delegation
