import Clearance.Delegation.Basic
import Clearance.Stable

/-!
# The delegation store

The delegations on record, oldest first, and for each delegate the ids of what was delegated to
them, in the order in which it was recorded. Looking up what a delegate holds goes through that
index and never through all rows.

Delegations that are over stay on record for a retention period, counted from when they ended, and
are then removed by a cleanup.
-/

namespace Clearance.Delegation

open Time (Instant Span)

structure Store where
  rows : List Delegation := []
  /-- The ids of each delegate's delegations; no list is empty. -/
  index : Register (List Uuid) := .empty
  deriving DecidableEq

namespace Store

def empty : Store := {}

def size (s : Store) : Nat := s.rows.length

/-- The delegation of that id. -/
def find (s : Store) (id : Uuid) : Option Delegation := s.rows.find? (·.id == id)

/-- The ids recorded for a delegate. -/
def idsOf (s : Store) (delegate : String) : List Uuid := (s.index.get? delegate).getD []

/-- Record a delegation, unless its id is taken. -/
def create (s : Store) (d : Delegation) : Except StoreError Store :=
  if (s.find d.id).isSome then .error (.conflict ("Delegation " ++ d.id.write ++ " already exists"))
  else .ok
    { rows := s.rows ++ [d]
      index := s.index.insert d.delegate (s.idsOf d.delegate ++ [d.id]) }

/-- Whether one delegation may be listed before another: by age. -/
def olderFirst (a b : Delegation) : Bool := a.createdAt ≤ b.createdAt

/-- What a delegate holds at a time, oldest first. -/
def activeFor (s : Store) (now : Instant) (delegate : String) : List Delegation :=
  Stable.sort olderFirst
    (((s.idsOf delegate).filterMap s.find).filter (·.isActiveAt now))

/-- Put the row of an id in place of the one on record. -/
def replace (s : Store) (d : Delegation) : Store :=
  { s with rows := s.rows.map fun row => if row.id = d.id then d else row }

/-- A delegation as revoked. One that is revoked already keeps its time. -/
def revokedRow (d : Delegation) (now : Instant) : Delegation :=
  if d.status = .revoked then d else { d with status := .revoked, revokedAt := some now }

/-- Revoke the delegation of that id. -/
def revoke (s : Store) (now : Instant) (id : Uuid) : Except StoreError (Delegation × Store) :=
  match s.find id with
  | none => .error .notFound
  | some d => .ok (revokedRow d now, s.replace (revokedRow d now))

/-- Whether a delegation has been over for the retention period. -/
def isOverdue (retention : Span) (now : Instant) (d : Delegation) : Bool :=
  (d.terminalSince now).any (· ≤ now.minus retention)

/-- Take an id out of the index, and the delegate with it if nothing is left. -/
def unindex (index : Register (List Uuid)) (d : Delegation) : Register (List Uuid) :=
  match index.get? d.delegate with
  | none => index
  | some ids =>
    match ids.filter (· != d.id) with
    | [] => index.erase d.delegate
    | left => index.insert d.delegate left

/-- Remove the rows that a test picks, and say how many there were. -/
def remove (s : Store) (gone : Delegation → Bool) : Nat × Store :=
  let removed := s.rows.filter gone
  (removed.length,
    { rows := s.rows.filter (!gone ·)
      index := removed.foldl unindex s.index })

/-- Remove what is overdue. -/
def cleanup (s : Store) (retention : Span) (now : Instant) : Nat × Store :=
  s.remove (isOverdue retention now)

end Store

end Clearance.Delegation
