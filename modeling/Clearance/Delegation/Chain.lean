import Clearance.Delegation.Backend

/-!
# The chain behind a delegator

Before something is delegated that may be handed on, the chain behind the delegator is walked
backwards: who delegated to them, who delegated to those, and so on, one generation at a time.
If the delegate turns up, the new delegation would close a cycle. If the walk goes back further
than the limit, the chain is too deep.

Everyone is visited once, so the walk ends also on a chain that is a cycle already; the limit
alone would end it as well, because every generation but the last uses up one step of it.
-/

namespace Clearance.Delegation

/-- The parties met so far, and those of them that were met in this generation. -/
structure Walk where
  met : List String
  next : List String

/-- Note the delegators of some delegations; `none` if the wanted one is among them. -/
def Walk.meet (w : Walk) (wanted : String) : List Delegation → Option Walk
  | [] => some w
  | d :: ds =>
    if d.delegator = wanted then none
    else if w.met.contains d.delegator then w.meet wanted ds
    else Walk.meet ⟨d.delegator :: w.met, w.next ++ [d.delegator]⟩ wanted ds

variable {m : Type → Type} [Monad m]

/-- Meet those who delegated to one generation. -/
def generation (b : Backend m) (now : Moment) (delegator delegate : String) (w : Walk) :
    List String → Attempt m Walk
  | [] => pure w
  | party :: rest => do
    let upstream ← stored (b.activeFor now.time party)
    match w.meet delegate upstream with
    | none => refuse (.cycle delegator delegate)
    | some w => generation b now delegator delegate w rest

/-- Walk back from one generation, with `left` steps left of the limit. -/
def walkBack (b : Backend m) (now : Moment) (delegator delegate : String) (limit : Nat) :
    Nat → List String → List String → Attempt m Unit
  | left, met, frontier => do
    let w ← generation b now delegator delegate ⟨met, []⟩ frontier
    if w.next.isEmpty then return
    match left with
    | 0 => refuse (.chainTooDeep limit)
    | left + 1 => walkBack b now delegator delegate limit left w.met w.next

/-- Check that delegating to `delegate` neither closes a cycle nor makes too long a chain. -/
def checkChain (b : Backend m) (now : Moment) (limit : Nat) (delegator delegate : String) :
    Attempt m Unit :=
  walkBack b now delegator delegate limit limit [delegator] [delegator]

end Clearance.Delegation
