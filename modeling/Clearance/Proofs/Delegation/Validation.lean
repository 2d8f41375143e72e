import Clearance.Delegation.Validation
import Clearance.Proofs.Delegation.Attempt
import Clearance.Proofs.Evaluator

/-!
# What the validator checks

The validator goes through the pairs of a scope, puts questions to the evaluator, notes decisions,
and looks up what is held by delegation when a pair first needs it. What it comes to is simple:
`Validator.holds` says of one pair whether it is held, by policy or by delegation, and
`Validator.verdict` names the first pair that is not. `check_on` proves that checking a scope comes
to its verdict and leaves nothing behind but records; when the look-up happens makes no difference
because nothing else changes on the way.
-/

namespace Clearance.Delegation

open Time (Instant)

/-- Questions are put until one is denied, so whether one is denied is whether any of them is. -/
theorem anyDenied_fst (e : Evaluator) (p : Policy) (questions : List Request) :
    (anyDenied e p questions).1 = questions.any fun q => !(e.effect p q).isAllow := by
  induction questions with
  | nil => rfl
  | cons q rest ih =>
    simp only [anyDenied, List.any_cons, Evaluator.effect]
    split
    next h => simp only [h, Bool.not_true, Bool.false_or, ih, Evaluator.effect]
    next h => simp [h]

/-- The policy gives a pair if it allows the pair itself and everything that a deny rule speaks of
inside it. -/
theorem givenByPolicy_fst (e : Evaluator) (p : Policy) (ask : Pair → Request) (pair : Pair) :
    (givenByPolicy e p ask pair).1 =
      ((e.effect p (ask pair)).isAllow &&
        (exceptions p pair).all fun x => (e.effect p (ask x)).isAllow) := by
  simp only [givenByPolicy]
  split
  next h =>
    have hdenied := anyDenied_fst e p ((exceptions p pair).map ask)
    rw [show (e.effect p (ask pair)).isAllow = true from h, Bool.true_and]
    simp only [hdenied, List.any_map, List.not_any_eq_all_not, Function.comp_def, Bool.not_not]
  next h =>
    rw [show (e.effect p (ask pair)).isAllow = false by simpa [Evaluator.effect] using h,
      Bool.false_and]

namespace Validator

/-- What a delegator may hand on of what was delegated to them. -/
def heldByDelegation (v : Validator) (w : Memory) (now : Instant) (delegator : String) :
    List Delegation :=
  if v.redelegation then (w.delegations.activeFor now delegator).filter (·.transitive) else []

/-- Whether a delegator holds a pair, by policy or by delegation. -/
def holds (v : Validator) (w : Memory) (now : Instant) (delegator : Subject) (context : Context)
    (pair : Pair) : Bool :=
  (givenByPolicy v.evaluator (w.policies.policiesFor delegator) (pairRequest delegator context)
    pair).1 ||
    (v.heldByDelegation w now delegator.id).any (·.scope.includes pair.1 pair.2)

/-- What checking some pairs comes to: the first that is not held is refused. -/
def verdict (v : Validator) (w : Memory) (now : Instant) (delegator : Subject) (context : Context)
    (pairs : List Pair) : Except Refusal Unit :=
  match pairs.find? fun pair => !v.holds w now delegator context pair with
  | none => .ok ()
  | some pair => .error (.notHeld delegator.id pair.1 pair.2)

variable {v : Validator} {w : Memory} {now : Moment} {delegator : Subject} {context : Context}

/-- A pair that is held is passed over. -/
theorem verdict_cons_of_holds {pair : Pair} {rest : List Pair}
    (h : v.holds w now.time delegator context pair = true) :
    v.verdict w now.time delegator context (pair :: rest) =
      v.verdict w now.time delegator context rest := by
  unfold verdict
  rw [List.find?_cons_of_neg (by simp [h])]

/-- The first pair that is not held is named in the refusal. -/
theorem verdict_cons_of_not_holds {pair : Pair} {rest : List Pair}
    (h : v.holds w now.time delegator context pair = false) :
    v.verdict w now.time delegator context (pair :: rest) =
      .error (.notHeld delegator.id pair.1 pair.2) := by
  unfold verdict
  rw [List.find?_cons_of_pos (by simp [h])]

/-- Whatever goes on with what is held by delegation, it gets the same list whether that has been
looked up before or is looked up now. -/
theorem lookUp_on {held? : Option (List Delegation)}
    (hheld : held? = none ∨ held? = some (v.heldByDelegation w now.time delegator.id))
    (k : List Delegation → Attempt (StateM Memory) Unit) :
    Attempt.on
        (match held? with
          | some held => do
            let held ← pure held
            k held
          | none =>
            if v.redelegation then do
              let active ← stored (Memory.backend.activeFor now.time delegator.id)
              let held ← pure (active.filter (·.transitive))
              k held
            else do
              let held ← pure []
              k held)
        w =
      Attempt.on (k (v.heldByDelegation w now.time delegator.id)) w := by
  rcases hheld with rfl | rfl
  · dsimp only
    unfold heldByDelegation
    split
    · rw [Attempt.on_bind_of_ok (Attempt.on_activeFor ..)]
      rfl
    · rfl
  · rfl

/-- Checking pairs comes to their verdict and leaves only records, whether or not what is held by
delegation has been looked up before. -/
theorem checkPairs_on (pairs : List Pair) {held? : Option (List Delegation)}
    (hheld : held? = none ∨ held? = some (v.heldByDelegation w now.time delegator.id)) :
    ∃ j, Attempt.on
        (v.checkPairs Memory.backend now (w.policies.policiesFor delegator) delegator context held?
          pairs) w =
      (v.verdict w now.time delegator context pairs, w.noted j) := by
  induction pairs generalizing w held? with
  | nil => exact ⟨[], by simp [checkPairs, verdict]⟩
  | cons pair rest ih =>
    unfold checkPairs
    generalize hgiven : givenByPolicy v.evaluator (w.policies.policiesFor delegator)
      (pairRequest delegator context) pair = given
    obtain ⟨given, journal⟩ := given
    dsimp only
    rw [Attempt.on_bind_of_ok (Attempt.on_noting journal w)]
    cases given with
    | true =>
      obtain ⟨j, hj⟩ := ih (w := w.noted journal) hheld
      have hholds : v.holds w now.time delegator context pair = true := by
        unfold holds
        rw [hgiven, Bool.true_or]
      rw [if_pos rfl, verdict_cons_of_holds hholds]
      rw [Memory.noted_noted] at hj
      exact ⟨journal ++ j, hj⟩
    | false =>
      have hholds : v.holds w now.time delegator context pair =
          (v.heldByDelegation w now.time delegator.id).any (·.scope.includes pair.1 pair.2) := by
        unfold holds
        rw [hgiven, Bool.false_or]
      have hnext := lookUp_on (w := w.noted journal) hheld fun held =>
        if held.any (·.scope.includes pair.1 pair.2) then
          v.checkPairs Memory.backend now (w.policies.policiesFor delegator) delegator context
            (some held) rest
        else refuse (.notHeld delegator.id pair.1 pair.2)
      rw [if_neg (by decide)]
      refine Exists.imp (fun _ => hnext.trans) ?_
      split
      next hany =>
        obtain ⟨j, hj⟩ := ih (w := w.noted journal) (.inr rfl)
        rw [verdict_cons_of_holds (hholds.trans hany)]
        rw [Memory.noted_noted] at hj
        exact ⟨journal ++ j, hj⟩
      next hany =>
        have hnot := hholds.trans (Bool.not_eq_true _ ▸ hany)
        exact ⟨journal, by rw [Attempt.on_refuse, verdict_cons_of_not_holds hnot]⟩

/-- An empty scope has no pairs to check. -/
theorem pairs_eq_nil_of_isEmpty {scope : Scope} (h : scope.isEmpty = true) : scope.pairs = [] := by
  simp only [Scope.isEmpty, Bool.or_eq_true, List.isEmpty_iff] at h
  unfold Scope.pairs
  rcases h with h | h <;> simp [h]

/-- Checking a scope comes to the verdict on its pairs and leaves only records. -/
theorem check_on (v : Validator) (now : Moment) (delegator : Subject) (scope : Scope) (w : Memory) :
    ∃ j, Attempt.on (v.check Memory.backend now delegator scope) w =
      (v.verdict w now.time delegator scope.context scope.pairs, w.noted j) := by
  unfold check
  split
  next h =>
    rw [pairs_eq_nil_of_isEmpty h]
    exact ⟨[], by simp [verdict]⟩
  next =>
    rw [Attempt.on_bind_of_ok (Attempt.on_policiesFor delegator w)]
    have hpairs := @checkPairs_on v (w.noted w.policies.record) now delegator scope.context
    obtain ⟨j, hj⟩ := hpairs scope.pairs (.inl rfl)
    rw [Memory.noted_noted] at hj
    exact ⟨w.policies.record ++ j, hj⟩

/-- A scope passes if all its pairs are held. -/
theorem verdict_ok_iff {pairs : List Pair} :
    v.verdict w now.time delegator context pairs = .ok () ↔
      ∀ pair ∈ pairs, v.holds w now.time delegator context pair = true := by
  unfold verdict
  cases hf : pairs.find? fun pair => !v.holds w now.time delegator context pair with
  | none => simpa using hf
  | some pair =>
    refine iff_of_false (by simp) fun h => ?_
    have hnot := List.find?_some hf
    rw [h pair (List.mem_of_find?_eq_some hf)] at hnot
    exact absurd hnot (by decide)

/-- A scope passes if every pair of it is held. -/
theorem check_ok_iff {scope : Scope} :
    (Attempt.on (v.check Memory.backend now delegator scope) w).1 = .ok () ↔
      ∀ pair ∈ scope.pairs, v.holds w now.time delegator scope.context pair = true := by
  obtain ⟨j, hj⟩ := check_on v now delegator scope w
  rw [hj, verdict_ok_iff]

end Validator

end Clearance.Delegation
