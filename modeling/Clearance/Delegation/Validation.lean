import Clearance.Delegation.Backend
import Clearance.Evaluator

/-!
# Whether a delegator holds a scope

Nobody can hand on what they do not hold. Each pair of patterns of a scope is put to the
evaluator with the patterns themselves as resource and action, so whoever holds `document:*` may
hand on `document:*` and `document:1`, but not the other way round.

That a pattern is allowed does not mean that everything it describes is. A pair with a
metacharacter is therefore refused too if the request of some deny rule inside it is denied.

What the policy does not give may still be held by delegation, if it may be handed on.
-/

namespace Clearance

/-- The context in which a scope is checked: its domain and nothing else. -/
def Scope.context (s : Scope) : Context :=
  match s.domain with
  | none => .empty
  | some d => Register.empty.insert domainKey (.str d)

namespace Delegation

/-- A resource and an action, which may both be patterns. -/
abbrev Pair := String × String

/-- The question whether a delegator holds a pair. -/
def pairRequest (delegator : Subject) (context : Context) (pair : Pair) : Request :=
  { subject := delegator
    resource := some (.ofId pair.1)
    action := ⟨pair.2⟩
    context }

/-- The part of a pair that a rule speaks of, if it speaks of any. -/
def overlap? (pair : Pair) (r : Rule) : Option Pair := do
  let resource ← match r.resource with
    | none => some pair.1
    | some pattern => if Glob.accepts pair.1 pattern then some pattern else none
  let action ←
    if Glob.accepts pair.2 r.action then some r.action
    else if Glob.accepts r.action pair.2 then some pair.2
    else none
  some (resource, action)

/-- What the deny rules of a policy speak of inside a pair. Nothing lies inside a pair without
metacharacters. -/
def exceptions (p : Policy) (pair : Pair) : List Pair :=
  if Glob.isGlob pair.1 || Glob.isGlob pair.2 then
    (p.rules.filter (·.effect == .deny)).filterMap (overlap? pair)
  else []

/-- Put questions until one is denied, and say what that leaves on record. -/
def anyDenied (e : Evaluator) (p : Policy) : List Request → Bool × Journal
  | [] => (false, [])
  | q :: rest =>
    let d := e.decision p q
    if d.effect.isAllow then
      let (denied, journal) := anyDenied e p rest
      (denied, e.record q d ++ journal)
    else (true, e.record q d)

/-- Whether the policy gives a pair to a delegator without exception. -/
def givenByPolicy (e : Evaluator) (p : Policy) (ask : Pair → Request) (pair : Pair) :
    Bool × Journal :=
  let d := e.decision p (ask pair)
  if d.effect.isAllow then
    let (denied, journal) := anyDenied e p ((exceptions p pair).map ask)
    (!denied, e.record (ask pair) d ++ journal)
  else (false, e.record (ask pair) d)

/-- How a delegator's holdings are established. -/
structure Validator where
  evaluator : Evaluator := {}
  /-- Whether what is held by delegation counts. -/
  redelegation : Bool := true

namespace Validator

variable {m : Type → Type} [Monad m]

/-- Check pairs one after another. What is held by delegation is looked up once, when a pair first
needs it. -/
def checkPairs (v : Validator) (b : Backend m) (now : Moment) (p : Policy) (delegator : Subject)
    (context : Context) : Option (List Delegation) → List Pair → Attempt m Unit
  | _, [] => pure ()
  | held, pair :: rest => do
    let (given, journal) := givenByPolicy v.evaluator p (pairRequest delegator context) pair
    b.noting journal
    if given then v.checkPairs b now p delegator context held rest
    else
      let held ← match held with
        | some held => pure held
        | none =>
          if v.redelegation then do
            let active ← stored (b.activeFor now.time delegator.id)
            pure (active.filter (·.transitive))
          else pure []
      if held.any (·.scope.includes pair.1 pair.2) then
        v.checkPairs b now p delegator context (some held) rest
      else refuse (.notHeld delegator.id pair.1 pair.2)

/-- Check that a delegator holds a scope. An empty scope is held by everyone. -/
def check (v : Validator) (b : Backend m) (now : Moment) (delegator : Subject) (scope : Scope) :
    Attempt m Unit := do
  if scope.isEmpty then return
  let p ← stored (b.policiesFor delegator)
  v.checkPairs b now p delegator scope.context none scope.pairs

end Validator

end Delegation

end Clearance
