import Clearance.Delegation.Basic
import Clearance.Journal
import Clearance.Policy

/-!
# What delegation works with

Granting and looking up delegations needs a policy store, a delegation store, a cache and a
journal. A `Backend` is any monad that has these: the whole of `Delegation.Service` is written
against it, so it makes no difference whether they are values in memory or can fail.

An operation happens at one moment, which its caller names.
-/

namespace Clearance

open Time (Instant)

/-- A point in time: by the calendar, and in nanoseconds of uptime. -/
structure Moment where
  time : Instant
  uptime : Nat

namespace Delegation

structure Backend (m : Type → Type) where
  /-- The rules that can apply to a subject. -/
  policiesFor : Subject → m (Except StoreError Policy)
  create : Delegation → m (Except StoreError Delegation)
  find : Uuid → m (Except StoreError (Option Delegation))
  /-- What a delegate holds, oldest first. -/
  activeFor : Instant → String → m (Except StoreError (List Delegation))
  revoke : Instant → Uuid → m (Except StoreError Delegation)
  /-- Remove what has been over for long enough, and say how many there were. -/
  cleanup : Instant → m (Except StoreError Nat)
  cacheGet : Nat → String → m (Except CacheError (Option String))
  /-- File a text under a key, for a number of nanoseconds or for good. -/
  cacheSet : Nat → String → String → Nat → m (Except CacheError Unit)
  cacheDelete : String → m (Except CacheError Unit)
  note : Journal → m Unit

/-- Something that may be refused. -/
abbrev Attempt (m : Type → Type) (α : Type) := ExceptT Refusal m α

variable {m : Type → Type} [Monad m] {α : Type}

/-- A failure of a store refuses the whole attempt. -/
def stored (x : m (Except StoreError α)) : Attempt m α :=
  ExceptT.mk do return (← x).mapError .storage

/-- Put something on record in the middle of an attempt. -/
def Backend.noting (b : Backend m) (j : Journal) : Attempt m Unit := ExceptT.lift (b.note j)

/-- Nothing but a refusal. -/
def refuse (r : Refusal) : Attempt m α := ExceptT.mk (pure (.error r))

end Delegation

end Clearance
