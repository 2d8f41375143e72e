import Clearance.Proofs.Delegation.Index
import Clearance.Proofs.Delegation.Validation
import Clearance.Proofs.Glob.Scan
import Clearance.Proofs.PolicyStore.Loading

/-!
# Handing on what is named outright

For patterns that describe more than one thing the validator can only test representatives. A scope
without metacharacters is its own representative, and there the test is exact: `check_of_concrete` says
that a delegator may hand on such a scope if and only if each pair of it is allowed by all live rules
together or lies in an active delegation that may be handed on (`Validator.Entitled`), and that the
first pair of which this is not so is the one that is named.

Neither side of that goes through what the validator does to find out. It asks about the rules loaded
for the delegator, where `Entitled` speaks of all live ones, and it looks delegations up in an index,
where `Entitled` speaks of the rows.

A scope without resources or actions has no pairs and passes, before any store is asked.
-/

namespace Clearance

/-- Whether nothing in a scope is a pattern for more than itself. -/
def Scope.IsConcrete (s : Scope) : Prop :=
  ∀ text ∈ s.resources ++ s.actions, '*' ∉ text.toList ∧ '?' ∉ text.toList

namespace Scope

/-- The pairs of a scope are each resource with each action. -/
theorem mem_pairs {s : Scope} {pair : String × String} :
    pair ∈ s.pairs ↔ pair.1 ∈ s.resources ∧ pair.2 ∈ s.actions := by
  obtain ⟨r, a⟩ := pair
  simp [pairs]

/-- No pair of a concrete scope has a metacharacter. -/
theorem IsConcrete.of_mem_pairs {s : Scope} (h : s.IsConcrete) {pair : String × String}
    (hpair : pair ∈ s.pairs) : Glob.isGlob pair.1 = false ∧ Glob.isGlob pair.2 = false := by
  obtain ⟨hr, ha⟩ := mem_pairs.1 hpair
  exact ⟨Glob.not_isGlob_iff.2 (h _ (List.mem_append_left _ hr)),
    Glob.not_isGlob_iff.2 (h _ (List.mem_append_right _ ha))⟩

end Scope

namespace Delegation

open Time (Instant)

/-- Nothing lies inside a pair without metacharacters. -/
theorem exceptions_of_plain {pair : Pair} (h : Glob.isGlob pair.1 = false ∧ Glob.isGlob pair.2 = false)
    (p : Policy) : exceptions p pair = [] := by
  unfold exceptions
  rw [h.1, h.2]
  rfl

namespace Validator

/-- Whether a delegator is entitled to a pair: all live rules together allow it in the domain of the
scope, or, where that counts, it lies in an active delegation to them that may be handed on. -/
def Entitled (v : Validator) (w : Memory) (now : Instant) (delegator : Subject) (scope : Scope)
    (pair : Pair) : Prop :=
  v.evaluator.effect (.ofRules w.policies.liveRules) (pairRequest delegator scope.context pair) =
      .allow ∨
    v.redelegation = true ∧ ∃ d ∈ w.delegations.rows, d.delegate = delegator.id ∧
      d.isActiveAt now = true ∧ d.transitive = true ∧ d.scope.includes pair.1 pair.2 = true

instance (v : Validator) (w : Memory) (now : Instant) (delegator : Subject) (scope : Scope)
    (pair : Pair) : Decidable (v.Entitled w now delegator scope pair) :=
  inferInstanceAs (Decidable (_ ∨ _))

/-- How a check is ruled: it passes if the delegator is entitled to every pair, and else names the
first pair to which they are not. -/
structure Exact (v : Validator) (w : Memory) (now : Instant) (delegator : Subject) (scope : Scope)
    (r : Except Refusal Unit) : Prop where
  ok_iff : r = .ok () ↔ ∀ pair ∈ scope.pairs, v.Entitled w now delegator scope pair
  first : r ≠ .ok () → ∃ front pair back, scope.pairs = front ++ pair :: back ∧
    (∀ x ∈ front, v.Entitled w now delegator scope x) ∧ ¬ v.Entitled w now delegator scope pair ∧
    r = .error (.notHeld delegator.id pair.1 pair.2)

variable {v : Validator} {w : Memory} {now : Moment} {delegator : Subject} {scope : Scope}

/-- What is found by delegation is what the rows say. -/
theorem any_heldByDelegation_iff (hi : w.delegations.Indexed) {t : Instant} {holder : String}
    {pair : Pair} :
    (v.heldByDelegation w t holder).any (·.scope.includes pair.1 pair.2) = true ↔
      v.redelegation = true ∧ ∃ d ∈ w.delegations.rows, d.delegate = holder ∧
        d.isActiveAt t = true ∧ d.transitive = true ∧ d.scope.includes pair.1 pair.2 = true := by
  unfold heldByDelegation
  split
  next hv =>
    simp only [List.any_eq_true, List.mem_filter, hi.mem_activeFor, hv, true_and]
    constructor
    · rintro ⟨d, ⟨⟨hrow, hactive, hto⟩, htransitive⟩, hin⟩
      exact ⟨d, hrow, hto, hactive, htransitive, hin⟩
    · rintro ⟨d, hrow, hto, hactive, htransitive, hin⟩
      exact ⟨d, ⟨⟨hrow, hactive, hto⟩, htransitive⟩, hin⟩
  next hv =>
    rw [List.any_nil]
    exact iff_of_false (by decide) fun h => hv h.1

/-- A pair without metacharacters is held if the delegator is entitled to it. -/
theorem holds_iff_entitled (hi : w.delegations.Indexed) {t : Instant} {pair : Pair}
    (hplain : Glob.isGlob pair.1 = false ∧ Glob.isGlob pair.2 = false) :
    v.holds w t delegator scope.context pair = true ↔ v.Entitled w t delegator scope pair := by
  have hloaded : v.evaluator.effect (w.policies.policiesFor delegator)
      (pairRequest delegator scope.context pair) =
        v.evaluator.effect (.ofRules w.policies.liveRules)
          (pairRequest delegator scope.context pair) :=
    congrArg Decision.effect
      (w.policies.decision_loaded v.evaluator (pairRequest delegator scope.context pair))
  unfold holds Entitled
  rw [Bool.or_eq_true, any_heldByDelegation_iff hi, givenByPolicy_fst, exceptions_of_plain hplain,
    List.all_nil, Bool.and_true, hloaded, Effect.isAllow_iff]

/-- Where holding a pair is being entitled to it, the verdict is exact. -/
theorem exact_verdict (h : ∀ pair ∈ scope.pairs,
      (v.holds w now.time delegator scope.context pair = true ↔
        v.Entitled w now.time delegator scope pair)) :
    v.Exact w now.time delegator scope
      (v.verdict w now.time delegator scope.context scope.pairs) where
  ok_iff := by
    rw [verdict_ok_iff]
    exact forall₂_congr h
  first := by
    unfold verdict
    cases hfind : scope.pairs.find? fun pair => !v.holds w now.time delegator scope.context pair with
    | none => exact fun hne => absurd rfl hne
    | some pair =>
      intro _
      obtain ⟨hnot, front, back, hsplit, hfront⟩ := List.find?_eq_some_iff_append.1 hfind
      have hmem : ∀ x, x ∈ front ∨ x = pair → x ∈ scope.pairs := by
        intro x hx
        rw [hsplit]
        rcases hx with hx | rfl
        · exact List.mem_append_left _ hx
        · exact List.mem_append_right _ (List.mem_cons_self ..)
      refine ⟨front, pair, back, hsplit, fun x hx => ?_, ?_, rfl⟩
      · exact (h x (hmem x (.inl hx))).1 (by simpa using hfront x hx)
      · rw [← h pair (hmem pair (.inr rfl))]
        simpa using hnot

/-- A scope without resources or actions passes before any store is asked. -/
theorem check_of_isEmpty {m : Type → Type} [Monad m] (v : Validator) (b : Backend m) (now : Moment)
    (delegator : Subject) (h : scope.isEmpty = true) : v.check b now delegator scope = pure () := by
  unfold check
  rw [if_pos h]

/-- **On a scope without metacharacters the check is exact**, whatever policies there are and whatever
has been done to a store of delegations that was empty: it passes if and only if the delegator is
entitled to every pair, and else it names the first pair to which they are not. A scope without
resources or actions passes anyhow, and over any backend. -/
theorem check_of_concrete (hempty : w.delegations = .empty) (edits : List Edit) (v : Validator)
    (now : Moment) (delegator : Subject) (scope : Scope) :
    (scope.IsConcrete → v.Exact (w.edited edits) now.time delegator scope
      (Attempt.on (v.check Memory.backend now delegator scope) (w.edited edits)).1) ∧
    (scope.resources = [] ∨ scope.actions = [] → ∀ (m : Type → Type) [Monad m] (b : Backend m),
      v.check b now delegator scope = pure ()) := by
  constructor
  · intro hconcrete
    have hstart : w.delegations.Kept [] := by
      rw [hempty]
      exact Store.kept_empty
    have hi : (w.edited edits).delegations.Indexed := (Memory.kept_edited hstart edits).indexed
    obtain ⟨j, hj⟩ := check_on v now delegator scope (w.edited edits)
    rw [hj]
    exact exact_verdict fun pair hpair => holds_iff_entitled hi (hconcrete.of_mem_pairs hpair)
  · intro hnone m _ b
    refine check_of_isEmpty v b now delegator ?_
    simpa [Scope.isEmpty] using hnone

/-- By the policies alice may read a document, and nobody may touch what is secret. -/
def aliceReads : Memory :=
  { policies := PolicyStore.empty.put "main"
      (.ofRules [.allow "alice" "document:1" "read", .deny "*" "secret:*" "*"]) false }

/-- Leave for alice to read reports, which she may hand on, and leave to read secrets, which she may
not. -/
def lentToAlice : List Edit :=
  [.create
      { Memory.lentEarly ⟨1⟩ "alice" with scope := ⟨["report:*"], ["read"], none⟩, transitive := true },
    .create { Memory.lentEarly ⟨2⟩ "alice" with scope := ⟨["secret:*"], ["read"], none⟩ }]

/-- A document that the policies give, a report that is lent, and something secret. -/
def wished : Scope := ⟨["document:1", "report:7", "secret:3"], ["read"], none⟩

/-- The refusal names the secret, and the document and the report are held. -/
theorem wished_but_secret :
    aliceReads.delegations = .empty ∧ wished.IsConcrete ∧
      (Attempt.on (check {} Memory.backend (second 1) { id := "alice" } wished)
        (aliceReads.edited lentToAlice)).1 = .error (.notHeld "alice" "secret:3" "read") ∧
      Exact {} (aliceReads.edited lentToAlice) (second 1).time { id := "alice" } wished
        (.error (.notHeld "alice" "secret:3" "read")) ∧
      ∀ pair ∈ wished.pairs, pair.1 ≠ "secret:3" →
        Entitled {} (aliceReads.edited lentToAlice) (second 1).time { id := "alice" } wished pair := by
  have hempty : aliceReads.delegations = .empty := rfl
  have hconcrete : wished.IsConcrete := by
    unfold Scope.IsConcrete
    decide
  have hrefused : (Attempt.on (check {} Memory.backend (second 1) { id := "alice" } wished)
      (aliceReads.edited lentToAlice)).1 = .error (.notHeld "alice" "secret:3" "read") := by
    decide +kernel
  have hexact :=
    (check_of_concrete hempty lentToAlice {} (second 1) { id := "alice" } wished).1 hconcrete
  rw [hrefused] at hexact
  exact ⟨hempty, hconcrete, hrefused, hexact, by decide +kernel⟩

end Validator

end Delegation

end Clearance
