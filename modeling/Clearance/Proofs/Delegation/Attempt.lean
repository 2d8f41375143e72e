import Clearance.Delegation.Memory

/-!
# What an attempt comes to in memory

An attempt is written against any backend. Over a memory it is a function: `Attempt.on` gives what
it comes to and the memory afterwards. The lemmas here say so for the ways to build an attempt and
for each operation of the backend, so that nothing later opens the monads.

Reading leaves the memory as it is, but for what goes on record: `Memory.noted`.
-/

namespace Clearance.Delegation

open Time (Instant)

/-- A moment by the second. -/
def second (n : Nat) : Moment := ⟨⟨n, 0, by decide⟩, n * 1000000000⟩

namespace Memory

/-- The memory with more on record. -/
def noted (w : Memory) (j : Journal) : Memory := { w with journal := w.journal ++ j }

@[simp] theorem noted_delegations (w : Memory) (j : Journal) :
    (w.noted j).delegations = w.delegations := rfl

@[simp] theorem noted_noted (w : Memory) (j k : Journal) :
    (w.noted j).noted k = w.noted (j ++ k) := by
  simp [noted]

@[simp] theorem noted_nil (w : Memory) : w.noted [] = w := by
  simp [noted]

end Memory

variable {α β : Type}

/-- What an attempt comes to in a memory, and the memory afterwards. -/
def Attempt.on (x : Attempt (StateM Memory) α) (w : Memory) : Except Refusal α × Memory :=
  x.run.run w

namespace Attempt

@[simp] theorem on_pure (a : α) (w : Memory) :
    on (pure a : Attempt (StateM Memory) α) w = (.ok a, w) := rfl

/-- What comes after a refusal does not happen. -/
theorem on_bind (x : Attempt (StateM Memory) α) (f : α → Attempt (StateM Memory) β) (w : Memory) :
    on (x >>= f) w =
      match on x w with
      | (.ok a, w') => on (f a) w'
      | (.error e, w') => (.error e, w') := by
  show (ExceptT.bindCont (fun a => f a) (x.run.run w).1).run (x.run.run w).2 = _
  unfold on
  rcases x.run.run w with ⟨_ | _, _⟩ <;> rfl

theorem on_bind_of_ok {x : Attempt (StateM Memory) α} {f : α → Attempt (StateM Memory) β}
    {w w' : Memory} {a : α} (h : on x w = (.ok a, w')) : on (x >>= f) w = on (f a) w' := by
  rw [on_bind, h]

@[simp] theorem on_refuse (r : Refusal) (w : Memory) :
    on (refuse r : Attempt (StateM Memory) α) w = (.error r, w) := rfl

@[simp] theorem on_noting (j : Journal) (w : Memory) :
    on (Memory.backend.noting j) w = (.ok (), w.noted j) := rfl

@[simp] theorem on_activeFor (now : Instant) (delegate : String) (w : Memory) :
    on (stored (Memory.backend.activeFor now delegate)) w =
      (.ok (w.delegations.activeFor now delegate), w) := rfl

@[simp] theorem on_policiesFor (subject : Subject) (w : Memory) :
    on (stored (Memory.backend.policiesFor subject)) w =
      (.ok (w.policies.policiesFor subject), w.noted w.policies.record) := rfl

end Attempt

end Clearance.Delegation
