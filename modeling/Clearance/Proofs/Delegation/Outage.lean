import Clearance.Delegation.Chain
import Clearance.Delegation.Memory
import Clearance.Delegation.Validation

/-!
# Failures of the cache

A cache may be out of reach, and any call of it may fail. An `Outage` says which calls fail while an
operation is carried out, and with what; `Outage.backend` is a memory with such a cache. If nothing
fails, it is the backend of the memory.

Neither the walk behind a delegator nor the validator asks anything of a cache, so they do not notice
(`checkChain_backend`, `check_backend`).
-/

namespace Clearance.Delegation

/-- Which calls of the cache fail, and with what. -/
structure Outage where
  get : Option CacheError := none
  set : Option CacheError := none
  delete : Option CacheError := none

/-- The operations on a memory whose cache fails. A call that fails leaves the cache alone. -/
def Outage.backend (o : Outage) : Backend (StateM Memory) :=
  { Memory.backend with
    cacheGet := fun now key =>
      match o.get with
      | none => Memory.backend.cacheGet now key
      | some e => return .error e
    cacheSet := fun now key text lifetime =>
      match o.set with
      | none => Memory.backend.cacheSet now key text lifetime
      | some e => return .error e
    cacheDelete := fun key =>
      match o.delete with
      | none => Memory.backend.cacheDelete key
      | some e => return .error e }

namespace Outage

theorem backend_empty : backend {} = Memory.backend := rfl

variable (o : Outage) (now : Moment)

/-- To meet a generation asks nothing of the cache. -/
theorem generation_backend (delegator delegate : String) (walk : Walk) (parties : List String) :
    generation o.backend now delegator delegate walk parties =
      generation Memory.backend now delegator delegate walk parties := by
  induction parties generalizing walk with
  | nil => rfl
  | cons party rest ih =>
    unfold generation
    simp only [ih]
    rfl

/-- To walk back asks nothing of the cache, however far it goes. -/
theorem walkBack_backend (delegator delegate : String) (limit left : Nat)
    (met frontier : List String) :
    walkBack o.backend now delegator delegate limit left met frontier =
      walkBack Memory.backend now delegator delegate limit left met frontier := by
  induction left generalizing met frontier with
  | zero =>
    unfold walkBack
    rw [generation_backend]
  | succ left ih =>
    unfold walkBack
    simp only [generation_backend, ih]

/-- The walk behind a delegator goes by the store alone. -/
theorem checkChain_backend (limit : Nat) (delegator delegate : String) :
    checkChain o.backend now limit delegator delegate =
      checkChain Memory.backend now limit delegator delegate :=
  walkBack_backend o now delegator delegate limit limit _ _

/-- To check pairs asks nothing of the cache. -/
theorem checkPairs_backend (v : Validator) (p : Policy) (delegator : Subject) (context : Context)
    (held? : Option (List Delegation)) (pairs : List Pair) :
    v.checkPairs o.backend now p delegator context held? pairs =
      v.checkPairs Memory.backend now p delegator context held? pairs := by
  induction pairs generalizing held? with
  | nil => rfl
  | cons pair rest ih =>
    unfold Validator.checkPairs
    simp only [ih]
    rfl

/-- The validator goes by the stores alone. -/
theorem check_backend (v : Validator) (delegator : Subject) (scope : Scope) :
    v.check o.backend now delegator scope = v.check Memory.backend now delegator scope := by
  unfold Validator.check
  simp only [checkPairs_backend]
  rfl

end Outage

end Clearance.Delegation
