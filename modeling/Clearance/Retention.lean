import Clearance.Delegation.Service

/-!
# The retention worker

Removes delegations that have been over for long enough, once when it is started and then again
and again with a pause between. The pause begins when a pass ends, so however late a pass comes,
the next one is a whole pause away. A pass that fails is noted, and the worker goes on.

The worker's clock counts seconds and is its own.
-/

namespace Clearance

open Delegation (Backend Service)

/-- Whether there is a worker, and how long it pauses. -/
structure Retention where
  enabled : Bool := false
  intervalHours : Nat := 24
  deriving DecidableEq, Repr

/-- The pause in seconds, a number of 64 bits. -/
def Retention.interval (r : Retention) : Nat := (r.intervalHours * 3600) % Nat.pow 2 64

namespace Retention

/-- A worker that is waiting. -/
structure Worker where
  interval : Nat
  /-- When the next pass is due. -/
  due : Nat
  deriving DecidableEq, Repr

variable {m : Type → Type} [Monad m]

def pass (b : Backend m) (now : Moment) : m Unit := do
  match ← Service.cleanup b now with
  | .ok _ => pure ()
  | .error e => b.note [.event (.retentionFailed e)]

/-- Start a worker, if it is wanted. -/
def start (r : Retention) (b : Backend m) (now : Moment) (clock : Nat) : m (Option Worker) := do
  if r.enabled then
    pass b now
    return some ⟨r.interval, clock + r.interval⟩
  else return none

/-- Let a worker see what time it is. -/
def Worker.wake (w : Worker) (b : Backend m) (now : Moment) (clock : Nat) : m Worker := do
  if w.due ≤ clock then
    pass b now
    return { w with due := clock + w.interval }
  else return w

end Retention

end Clearance
