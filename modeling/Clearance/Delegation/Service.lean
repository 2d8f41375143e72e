import Clearance.Codec.Delegation
import Clearance.Delegation.Chain
import Clearance.Delegation.Validation

/-!
# The delegation service

Grants, revokes and looks up delegations. A grant is all or nothing: the checks come first, in a
fixed order, and the store is touched only when all of them pass.

What a delegate holds is looked up through a cache, if one is used. A cached list can be out of
date in one way only: a delegation in it may have run out since. It is therefore filtered again
on every look-up; all other changes drop the delegate's list from the cache. A cache that fails
is noted and otherwise passed over.
-/

namespace Clearance.Delegation

structure Service where
  validator : Validator := {}
  /-- How many steps a chain may go back. -/
  maxChainDepth : Nat := 16
  /-- Whether look-ups go through the cache. -/
  caching : Bool := false
  /-- How many seconds a cached list is kept; for none it does not expire. -/
  cacheSeconds : Nat := 300

/-- The key under which a delegate's list is cached. -/
def cacheKey (delegate : String) : String := "castellan:delegations:" ++ delegate

namespace Service

variable {m : Type → Type} [Monad m]

/-- Drop a delegate's list from the cache. -/
def invalidate (s : Service) (b : Backend m) (delegate : String) : m Unit := do
  if s.caching then
    match ← b.cacheDelete (cacheKey delegate) with
    | .ok _ => pure ()
    | .error e => b.note [.event (.cacheInvalidationFailed delegate e)]

/-- Check a proposal and record what it comes to under the given id. -/
def attemptGrant (s : Service) (b : Backend m) (now : Moment) (id : Uuid) (p : Proposal) :
    Attempt m Delegation := do
  match p.check now.time with
  | .error e => refuse e
  | .ok _ =>
    if p.transitive then
      checkChain b now s.maxChainDepth p.delegator p.delegate
    s.validator.check b now { id := p.delegator } p.scope
    let d ← stored (b.create (p.granted id now.time))
    ExceptT.lift (s.invalidate b d.delegate)
    b.noting [.count (.granted d.transitive) 1]
    return d

/-- Grant what is proposed, or say why not. Either is counted. -/
def grant (s : Service) (b : Backend m) (now : Moment) (id : Uuid) (p : Proposal) :
    m (Except Refusal Delegation) := do
  match ← (s.attemptGrant b now id p).run with
  | .ok d => return .ok d
  | .error e =>
    b.note [.count (.rejected e.kind) 1]
    return .error e

def find (b : Backend m) (id : Uuid) : m (Except Refusal (Option Delegation)) :=
  (stored (b.find id)).run

/-- Revoke a delegation and give it as it is then on record. One that is unknown or revoked
already is left alone. -/
def revoke (s : Service) (b : Backend m) (now : Moment) (id : Uuid) :
    m (Except Refusal (Option Delegation)) := do
  match ← b.find id with
  | .error e => return .error (.storage e)
  | .ok none => return .ok none
  | .ok (some d) =>
    if d.status = .revoked then return .ok (some d)
    else
      match ← b.revoke now.time id with
      | .error .notFound => return .ok none
      | .error e => return .error (.storage e)
      | .ok d =>
        s.invalidate b d.delegate
        b.note [.count .revoked 1]
        return .ok (some d)

/-- The list that is cached for a delegate, if there is one that can be read. -/
def cachedFor (b : Backend m) (now : Moment) (delegate : String) :
    m (Option (List Delegation)) := do
  match ← b.cacheGet now.uptime (cacheKey delegate) with
  | .ok none =>
    b.note [.count .cacheMiss 1]
    return none
  | .error e =>
    b.note [.count .cacheError 1, .event (.cacheReadFailed delegate e)]
    return none
  | .ok (some text) =>
    match readList text with
    | some ds =>
      b.note [.count .cacheHit 1]
      return some ds
    | none =>
      let e := CacheError.deserialization "not a list of delegations"
      b.note [.count .cacheError 1, .event (.cacheReadFailed delegate e)]
      return none

/-- Look up in the store what a delegate holds, and cache it. -/
def loadFor (s : Service) (b : Backend m) (now : Moment) (delegate : String) :
    m (Except Refusal (List Delegation)) := do
  match ← b.activeFor now.time delegate with
  | .error e => return .error (.storage e)
  | .ok ds =>
    let lifetime := 1000000000 * s.cacheSeconds
    match ← b.cacheSet now.uptime (cacheKey delegate) (writeList ds) lifetime with
    | .ok _ => pure ()
    | .error e => b.note [.event (.cacheWriteFailed delegate e)]
    return .ok ds

/-- What a delegate holds, oldest first. -/
def activeFor (s : Service) (b : Backend m) (now : Moment) (delegate : String) :
    m (Except Refusal (List Delegation)) := do
  if s.caching then
    match ← cachedFor b now delegate with
    | some ds => return .ok (ds.filter (·.isActiveAt now.time))
    | none => s.loadFor b now delegate
  else (stored (b.activeFor now.time delegate)).run

/-- Whether a delegate holds an action on a resource by delegation. -/
def permits (s : Service) (b : Backend m) (now : Moment) (delegate resource action : String) :
    m (Except Refusal Bool) := do
  return (← s.activeFor b now delegate).map (·.any (·.scope.includes resource action))

/-- Remove delegations that have been over for long enough. -/
def cleanup (b : Backend m) (now : Moment) : m (Except Refusal Nat) := do
  match ← b.cleanup now.time with
  | .error e => return .error (.storage e)
  | .ok count =>
    b.note [.count .cleaned count]
    return .ok count

/-- Check that a subject holds a scope. -/
def validate (s : Service) (b : Backend m) (now : Moment) (delegator : Subject) (scope : Scope) :
    m (Except Refusal Unit) :=
  (s.validator.check b now delegator scope).run

end Service

end Clearance.Delegation
