import Clearance.Cache
import Clearance.Delegation.Backend
import Clearance.Delegation.Store
import Clearance.PolicyStore

/-!
# Delegation in memory

A backend whose stores, cache and journal are values. None of its operations fails for a reason
of its own.
-/

namespace Clearance.Delegation

open Time (Instant Span)

structure Memory where
  policies : PolicyStore := {}
  delegations : Store := {}
  /-- How long a delegation stays on record when it is over. -/
  retention : Span := .days 30
  cache : Cache String := .ofLimits {}
  /-- The last time that the clock of the cache can show, in nanoseconds of uptime. -/
  lastUptime : Nat := Nat.pow 2 63 * 1000000000 - 1
  journal : Journal := []

namespace Memory

def note (entries : Journal) : StateM Memory Unit :=
  modify fun w => { w with journal := w.journal ++ entries }

def policiesFor (subject : Subject) : StateM Memory Policy := do
  let w ← get
  note w.policies.record
  return w.policies.policiesFor subject

def create (d : Delegation) : StateM Memory (Except StoreError Delegation) := do
  let w ← get
  match w.delegations.create d with
  | .error e => return .error e
  | .ok s =>
    set { w with delegations := s }
    return .ok d

def revoke (now : Instant) (id : Uuid) : StateM Memory (Except StoreError Delegation) := do
  let w ← get
  match w.delegations.revoke now id with
  | .error e => return .error e
  | .ok (d, s) =>
    set { w with delegations := s }
    return .ok d

def cleanup (now : Instant) : StateM Memory Nat :=
  modifyGet fun w =>
    let (count, s) := w.delegations.cleanup w.retention now
    (count, { w with delegations := s })

def cacheGet (now : Nat) (key : String) : StateM Memory (Option String) :=
  modifyGet fun w =>
    let (text, c) := w.cache.get now key
    (text, { w with cache := c })

/-- File a text, unless the clock cannot show its end. A call that breaks off because of that does so
without an answer, which is left out here: whoever makes it goes on, with nothing filed. -/
def cacheSet (now : Nat) (key text : String) (lifetime : Nat) : StateM Memory Unit :=
  modify fun w => { w with cache := (w.cache.set w.lastUptime now key text lifetime).2 }

def cacheDelete (key : String) : StateM Memory Unit :=
  modify fun w => { w with cache := w.cache.delete key }

/-- The operations on a memory as a backend. -/
def backend : Backend (StateM Memory) where
  policiesFor subject := .ok <$> policiesFor subject
  create := create
  find id := do return .ok ((← get).delegations.find id)
  activeFor now delegate := do return .ok ((← get).delegations.activeFor now delegate)
  revoke := revoke
  cleanup now := .ok <$> cleanup now
  cacheGet now key := .ok <$> cacheGet now key
  cacheSet now key text lifetime := .ok <$> cacheSet now key text lifetime
  cacheDelete key := .ok <$> cacheDelete key
  note := note

end Memory

end Clearance.Delegation
