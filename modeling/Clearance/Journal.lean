import Clearance.Delegation.Refusal
import Clearance.Matching

/-!
# The journal

What an operation leaves on record beside its answer: events that someone may want to read, and
counters that went up. Both are values, so an operation says what it records by what it returns.
-/

namespace Clearance

/-- How much an event matters, or that it is part of the audit trail. -/
inductive Severity where
  | audit
  | warn
  | error
  deriving DecidableEq, Repr

def Severity.name : Severity → String
  | audit => "audit"
  | warn => "warn"
  | error => "error"

/-- Something worth reading about. -/
inductive Event where
  /-- A request was decided. -/
  | decided (subject : String) (resource : Option String) (action : String) (effect : Effect)
      (reason : String)
  /-- A policy extends one that is not there. -/
  | missingBase (policy base : String)
  /-- A rule confined to a domain has no place in a decision table. -/
  | domainRuleLeftOut (rule : Signature) (domain : String)
  /-- A condition has no place in a decision table. -/
  | conditionDropped (rule : Signature)
  | cacheReadFailed (delegate : String) (error : CacheError)
  | cacheWriteFailed (delegate : String) (error : CacheError)
  | cacheInvalidationFailed (delegate : String) (error : CacheError)
  | retentionFailed (error : Delegation.Refusal)
  /-- Delegations will be removed as soon as they have ended. -/
  | immediateRetention
  deriving DecidableEq

namespace Event

def severity : Event → Severity
  | decided .. => .audit
  | retentionFailed .. => .error
  | _ => .warn

def message : Event → String
  | decided .. => "Authorization decision"
  | missingBase .. => "Base policy not found, skipping"
  | domainRuleLeftOut .. => "Domain-scoped rule left out of compiled policy"
  | conditionDropped .. => "Condition dropped from compiled rule"
  | cacheReadFailed .. => "Delegation cache read failed"
  | cacheWriteFailed .. => "Delegation cache write failed"
  | cacheInvalidationFailed .. => "Delegation cache invalidation failed"
  | retentionFailed .. => "Error running retention"
  | immediateRetention =>
    "Retention is enabled with delegation.retention_days = 0. " ++
      "Revoked and expired delegations are removed on the next run."

end Event

/-- What is counted. -/
inductive Counter where
  | decisions (effect : Effect) (matching : Matching)
  | granted (transitive : Bool)
  | rejected (kind : String)
  | revoked
  | cleaned
  | cacheHit
  | cacheMiss
  | cacheError
  deriving DecidableEq

namespace Counter

def name : Counter → String
  | decisions .. => "castellan_decisions_total"
  | granted .. => "castellan_delegations_granted_total"
  | rejected .. => "castellan_delegations_rejected_total"
  | revoked => "castellan_delegations_revoked_total"
  | cleaned => "castellan_delegations_cleaned_total"
  | cacheHit | cacheMiss | cacheError => "castellan_delegation_cache_total"

/-- What sets counters of one name apart, ascending by label. -/
def labels : Counter → List (String × String)
  | decisions effect matching => [("effect", effect.name), ("matcher", matching.name)]
  | granted transitive => [("kind", if transitive then "transitive" else "direct")]
  | rejected kind => [("reason", kind)]
  | revoked | cleaned => []
  | cacheHit => [("result", "hit")]
  | cacheMiss => [("result", "miss")]
  | cacheError => [("result", "error")]

/-- A counter in one line: its name and its labels in braces. -/
def text (c : Counter) : String :=
  let labels := c.labels.map fun (k, v) => k ++ "=" ++ v
  c.name ++ "\x7b" ++ ",".intercalate labels ++ "\x7d"

end Counter

/-- One entry of the journal: an event, or a counter and by how much it went up. -/
inductive Record where
  | event (e : Event)
  | count (c : Counter) (amount : Nat)
  deriving DecidableEq

/-- What is on record, oldest first. -/
abbrev Journal := List Record

namespace Journal

def events (j : Journal) : List Event :=
  j.filterMap fun
    | .event e => some e
    | .count .. => none

/-- By how much a counter went up in all. -/
def total (j : Journal) (c : Counter) : Nat :=
  (j.filterMap fun
    | .count c' n => if c' = c then some n else none
    | .event _ => none).foldl (· + ·) 0

/-- The counters on record, each once. -/
def counters (j : Journal) : List Counter :=
  (j.filterMap fun
    | .count c _ => some c
    | .event _ => none).eraseDups

end Journal

end Clearance
