import Clearance.Delegation.Refusal
import Clearance.Request
import Clearance.Scope
import Clearance.Uuid

/-!
# Delegations

A delegation hands a scope from a delegator to a delegate, for good or until a set time, and may
allow the delegate to hand it on. What is on record is a status; an active delegation that has
run out reads as expired at any later time although its status never changes.
-/

namespace Clearance

open Time (Instant)

namespace Delegation

inductive State where
  | active
  | expired
  | revoked
  deriving DecidableEq, Repr

namespace State

def name : State → String
  | active => "active"
  | expired => "expired"
  | revoked => "revoked"

/-- The states by name. -/
def names : List (String × State) := [("active", active), ("expired", expired), ("revoked", revoked)]

/-- Whether nothing comes after it. -/
def isTerminal (s : State) : Bool := s != active

end State

end Delegation

structure Delegation where
  id : Uuid
  delegator : String
  delegate : String
  scope : Scope
  createdAt : Instant
  /-- When it ends by itself, if it does. -/
  expiresAt : Option Instant
  /-- Whether the delegate may hand it on. -/
  transitive : Bool
  status : Delegation.State := .active
  revokedAt : Option Instant := none
  metadata : Attributes := .empty
  deriving DecidableEq

namespace Delegation

/-- Whether it has run out. -/
def isExpiredAt (d : Delegation) (now : Instant) : Bool := d.expiresAt.any (· ≤ now)

def isActiveAt (d : Delegation) (now : Instant) : Bool := d.status == .active && !d.isExpiredAt now

/-- How it reads at a time. -/
def stateAt (d : Delegation) (now : Instant) : State :=
  if d.status = .active && d.isExpiredAt now then .expired else d.status

/-- Since when it has been over, if it is. One that does not say was over from the start. -/
def terminalSince (d : Delegation) (now : Instant) : Option Instant :=
  match d.stateAt now with
  | .active => none
  | .revoked => some (d.revokedAt.getD d.createdAt)
  | .expired => some (d.expiresAt.getD d.createdAt)

/-- What someone asks to be delegated. -/
structure Proposal where
  delegator : String
  delegate : String
  scope : Scope
  expiresAt : Option Instant := none
  transitive : Bool := false
  metadata : Attributes := .empty

/-- The delegation that a proposal comes to when it is granted. -/
def Proposal.granted (p : Proposal) (id : Uuid) (now : Instant) : Delegation :=
  { id
    delegator := p.delegator
    delegate := p.delegate
    scope := p.scope
    createdAt := now
    expiresAt := p.expiresAt
    transitive := p.transitive
    metadata := p.metadata }

/-- How many characters an id may have. -/
def maxIdLength : Nat := 255

def isIdOk (id : String) : Bool := 1 ≤ id.length && id.length ≤ maxIdLength

/-- What is wrong with a proposal by itself at a time: first its ids, then its end. -/
def Proposal.check (p : Proposal) (now : Instant) : Except Refusal Unit :=
  if !isIdOk p.delegator then .error (.badId "delegator_id")
  else if !isIdOk p.delegate then .error (.badId "delegate_id")
  else if p.delegator = p.delegate then .error .sameParty
  else
    match p.expiresAt with
    | some t => if t ≤ now then .error (.expired t) else .ok ()
    | none => .ok ()

end Delegation

end Clearance
