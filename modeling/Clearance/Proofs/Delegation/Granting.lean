import Clearance.Proofs.Delegation.Store
import Clearance.Proofs.Delegation.Service

/-!
# A grant is all or nothing

The checks of a grant come in a fixed order, and the first that finds something wrong is the answer:
the ids, the end, the chain behind the delegator if the delegation may be handed on, and what the
delegator holds (`Ruled`). A refusal leaves nothing behind but a record of it. A grant that passes adds
one row and drops one list from the cache, and all else stays as it was (`Recorded`).

The first two checks only look at the proposal (`Proposal.check`). An end that is not late is exactly
one at which the new row is active, so no grant is over when it is made.
-/

namespace Clearance.Delegation

open Time (Instant)

namespace Proposal

variable {p : Proposal} {now : Instant} {id : Uuid}

/-- Whether an id is empty or too long, or delegator and delegate are one. -/
def BadIds (p : Proposal) : Prop :=
  ¬(1 ≤ p.delegator.length ∧ p.delegator.length ≤ 255) ∨
    ¬(1 ≤ p.delegate.length ∧ p.delegate.length ≤ 255) ∨ p.delegator = p.delegate

/-- Whether the delegation would be over before it begins. -/
def Late (p : Proposal) (now : Instant) : Prop := ∃ t, p.expiresAt = some t ∧ t ≤ now

/-- An id has from 1 to 255 characters. -/
theorem isIdOk_iff {id : String} : isIdOk id = true ↔ 1 ≤ id.length ∧ id.length ≤ 255 := by
  unfold isIdOk
  rw [Bool.and_eq_true, decide_eq_true_iff, decide_eq_true_iff]
  rfl

/-- The ids of a proposal are right if each is and they differ. -/
theorem not_badIds_iff :
    ¬ p.BadIds ↔ isIdOk p.delegator = true ∧ isIdOk p.delegate = true ∧ p.delegator ≠ p.delegate := by
  unfold BadIds
  rw [← isIdOk_iff, ← isIdOk_iff, not_or, not_or, not_not, not_not]

/-- Wrong ids are refused as invalid input, before anything else is looked at. -/
theorem check_of_badIds (h : p.BadIds) (now : Instant) :
    ∃ e, p.check now = .error e ∧ e.kind = "invalid_input" := by
  unfold check
  split
  next => exact ⟨_, rfl, rfl⟩
  next hdelegator =>
    split
    next => exact ⟨_, rfl, rfl⟩
    next hdelegate =>
      split
      next => exact ⟨_, rfl, rfl⟩
      next hne =>
        have hids : isIdOk p.delegator = true ∧ isIdOk p.delegate = true := by
          simpa using And.intro hdelegator hdelegate
        exact absurd h (not_badIds_iff.2 ⟨hids.1, hids.2, hne⟩)

/-- An end that has come is refused, and named in the refusal. -/
theorem check_of_late (h : ¬ p.BadIds) {t : Instant} (hend : p.expiresAt = some t) (ht : t ≤ now) :
    p.check now = .error (.expired t) := by
  obtain ⟨hdelegator, hdelegate, hne⟩ := not_badIds_iff.1 h
  unfold check
  rw [if_neg (by simp [hdelegator]), if_neg (by simp [hdelegate]), if_neg hne, hend]
  exact if_pos ht

/-- A proposal with right ids and time left passes the first check. -/
theorem check_of_not_late (h : ¬ p.BadIds) (hlate : ¬ p.Late now) : p.check now = .ok () := by
  obtain ⟨hdelegator, hdelegate, hne⟩ := not_badIds_iff.1 h
  unfold check
  rw [if_neg (by simp [hdelegator]), if_neg (by simp [hdelegate]), if_neg hne]
  cases hend : p.expiresAt with
  | none => rfl
  | some t => exact if_neg fun ht => hlate ⟨t, hend, ht⟩

/-- A proposal that is not late comes to a delegation that is active at once. -/
theorem isActiveAt_granted (hlate : ¬ p.Late now) : (p.granted id now).isActiveAt now = true := by
  unfold isActiveAt isExpiredAt granted
  cases hend : p.expiresAt with
  | none => rfl
  | some t =>
    have ht : ¬ t ≤ now := fun ht => hlate ⟨t, hend, ht⟩
    simp [ht]

end Proposal

namespace Service

variable {s : Service} {w : Memory} {now : Moment} {id : Uuid} {p : Proposal}

/-- What the walk behind the delegator comes to. -/
def walked (s : Service) (w : Memory) (now : Moment) (p : Proposal) : Except Refusal Unit :=
  (Attempt.on (checkChain Memory.backend now s.maxChainDepth p.delegator p.delegate) w).1

/-- What the check of the delegator's holdings comes to. -/
def validated (s : Service) (w : Memory) (now : Moment) (p : Proposal) : Except Refusal Unit :=
  (Attempt.on (s.validator.check Memory.backend now { id := p.delegator } p.scope) w).1

/-- The check of the delegator's holdings comes to the verdict on the pairs of the scope. -/
theorem validated_eq (s : Service) (w : Memory) (now : Moment) (p : Proposal) :
    s.validated w now p =
      s.validator.verdict w now.time { id := p.delegator } p.scope.context p.scope.pairs := by
  obtain ⟨j, hj⟩ := Validator.check_on s.validator now { id := p.delegator } p.scope w
  unfold validated
  rw [hj]

/-- What the proposal itself is refused for goes before all other checks. -/
theorem verdict_of_check_error {e : Refusal} (h : p.check now.time = .error e) :
    s.verdict w now p = .error e := by
  unfold verdict
  rw [h]
  rfl

/-- A chain that is refused goes before the scope. -/
theorem verdict_of_walked_error {e : Refusal} (h : p.check now.time = .ok ())
    (htransitive : p.transitive = true) (hwalk : s.walked w now p = .error e) :
    s.verdict w now p = .error e := by
  unfold walked at hwalk
  unfold verdict
  rw [h, htransitive, hwalk]
  rfl

/-- Where proposal and chain pass, the scope decides. -/
theorem verdict_of_walked (h : p.check now.time = .ok ())
    (hwalk : p.transitive = true → s.walked w now p = .ok ()) :
    s.verdict w now p = s.validated w now p := by
  unfold walked at hwalk
  unfold verdict
  rw [h, validated_eq]
  cases htransitive : p.transitive with
  | false => rfl
  | true =>
    rw [hwalk htransitive]
    rfl

/-- With a fresh id a grant answers what the verdict says. -/
theorem grant_answer (hfresh : w.delegations.find id = none) :
    ((s.grant Memory.backend now id p).run w).1 =
      (s.verdict w now p).map fun _ => p.granted id now.time := by
  obtain ⟨j, hj⟩ := grant_run s w now id p
  have hcreate : ∃ store, w.delegations.create (p.granted id now.time) = .ok store := by
    unfold Store.create
    have hfree : w.delegations.find (p.granted id now.time).id = none := hfresh
    rw [hfree]
    exact ⟨_, rfl⟩
  obtain ⟨store, hcreate⟩ := hcreate
  rw [hj]
  unfold outcome
  rw [hcreate]
  cases s.verdict w now p <;> rfl

/-- How a grant is ruled: the first thing that is wrong decides, and if nothing is, it is made. -/
structure Ruled (s : Service) (w : Memory) (now : Moment) (id : Uuid) (p : Proposal)
    (r : Except Refusal Delegation) : Prop where
  badIds : p.BadIds → ∃ e, r = .error e ∧ e.kind = "invalid_input"
  late : ¬ p.BadIds → ∀ t, p.expiresAt = some t → t ≤ now.time → r = .error (.expired t)
  chain : ¬ p.BadIds → ¬ p.Late now.time → p.transitive = true →
    ∀ e, s.walked w now p = .error e → r = .error e
  notHeld : ¬ p.BadIds → ¬ p.Late now.time → (p.transitive = true → s.walked w now p = .ok ()) →
    ∀ e, s.validated w now p = .error e → r = .error e
  granted : ¬ p.BadIds → ¬ p.Late now.time → (p.transitive = true → s.walked w now p = .ok ()) →
    s.validated w now p = .ok () → r = .ok (p.granted id now.time)

/-- The ruling of a verdict. -/
theorem ruled_verdict (s : Service) (w : Memory) (now : Moment) (id : Uuid) (p : Proposal) :
    Ruled s w now id p ((s.verdict w now p).map fun _ => p.granted id now.time) where
  badIds h := by
    obtain ⟨e, he, hkind⟩ := Proposal.check_of_badIds h now.time
    exact ⟨e, by rw [verdict_of_check_error he]; rfl, hkind⟩
  late h t hend ht := by
    rw [verdict_of_check_error (Proposal.check_of_late h hend ht)]
    rfl
  chain h hlate htransitive e he := by
    rw [verdict_of_walked_error (Proposal.check_of_not_late h hlate) htransitive he]
    rfl
  notHeld h hlate hwalk e he := by
    rw [verdict_of_walked (Proposal.check_of_not_late h hlate) hwalk, he]
    rfl
  granted h hlate hwalk hheld := by
    rw [verdict_of_walked (Proposal.check_of_not_late h hlate) hwalk, hheld]
    rfl

/-- What a grant leaves behind: a row for what was proposed, active at once, its place in the index,
and one list less in the cache. -/
structure Recorded (s : Service) (w : Memory) (now : Moment) (id : Uuid) (p : Proposal)
    (d : Delegation) (w' : Memory) : Prop where
  active : d.isActiveAt now.time = true
  stamped : d.id = id ∧ d.createdAt = now.time
  carries : d.delegator = p.delegator ∧ d.delegate = p.delegate ∧ d.scope = p.scope ∧
    d.expiresAt = p.expiresAt ∧ d.transitive = p.transitive ∧ d.metadata = p.metadata
  rows : w'.delegations.rows = w.delegations.rows ++ [d]
  index : ∀ k, w'.delegations.idsOf k =
    if k = p.delegate then w.delegations.idsOf k ++ [id] else w.delegations.idsOf k
  cache : ∀ key, w'.cache.slots.get? key =
    if s.caching ∧ key = cacheKey p.delegate then none else w.cache.slots.get? key
  rest : w'.policies = w.policies ∧ w'.retention = w.retention ∧
    w'.cache.limits = w.cache.limits

/-- What is stored for a proposal that is not late is recorded as it should be. -/
theorem recorded_storing {store : Store} (hlate : ¬ p.Late now.time)
    (hcreate : w.delegations.create (p.granted id now.time) = .ok store) (j : Journal) :
    Recorded s w now id p (p.granted id now.time) ((s.storing w store p.delegate).noted j) := by
  obtain ⟨-, rfl⟩ := Store.create_cases hcreate
  refine ⟨Proposal.isActiveAt_granted hlate, ⟨rfl, rfl⟩, ⟨rfl, rfl, rfl, rfl, rfl, rfl⟩, rfl, ?_, ?_,
    rfl, rfl, ?_⟩
  · intro k
    show ((w.delegations.index.insert p.delegate _).get? k).getD [] = _
    rw [Register.get?_insert]
    split
    next hk => rw [hk]; rfl
    next => rfl
  · intro key
    show (if s.caching then w.cache.delete (cacheKey p.delegate) else w.cache).slots.get? key = _
    by_cases hcaching : s.caching = true
    · rw [if_pos hcaching]
      show (w.cache.slots.erase (cacheKey p.delegate)).get? key = _
      rw [Register.get?_erase]
      simp [hcaching]
    · rw [if_neg hcaching, if_neg fun h => hcaching h.1]
  · show (if s.caching then w.cache.delete (cacheKey p.delegate) else w.cache).limits = _
    split <;> rfl

/-- **A grant is all or nothing, and the order of its checks is fixed.** Under a fresh id the first
thing that is wrong with a proposal decides what it is refused for, and it is granted if nothing is.
A refusal leaves only a record of itself; a grant adds one row, active at once, which carries what was
proposed, and takes the delegate's list out of the cache. -/
theorem grant_all_or_nothing (s : Service) (w : Memory) (now : Moment) (id : Uuid) (p : Proposal)
    (hfresh : w.delegations.find id = none) :
    Ruled s w now id p ((s.grant Memory.backend now id p).run w).1 ∧
    (∀ e, ((s.grant Memory.backend now id p).run w).1 = .error e →
      ∃ j, ((s.grant Memory.backend now id p).run w).2 = w.noted j) ∧
    ∀ d, ((s.grant Memory.backend now id p).run w).1 = .ok d →
      Recorded s w now id p d ((s.grant Memory.backend now id p).run w).2 := by
  obtain ⟨j, hj⟩ := grant_run s w now id p
  refine ⟨?_, ?_, ?_⟩
  · rw [grant_answer hfresh]
    exact ruled_verdict s w now id p
  · intro e he
    rw [hj] at he ⊢
    cases hout : s.outcome w now id p with
    | error e' => exact ⟨j, rfl⟩
    | ok store =>
      rw [hout] at he
      exact absurd he (by simp)
  · intro d hd
    rw [hj] at hd ⊢
    cases hout : s.outcome w now id p with
    | error e =>
      rw [hout] at hd
      exact absurd hd (by simp)
    | ok store =>
      rw [hout] at hd
      obtain rfl := Except.ok.inj hd
      obtain ⟨hverdict, hcreate⟩ := outcome_ok_iff.1 hout
      -- what has passed is not late, or the first check would have refused it
      have hlate : ¬ p.Late now.time := by
        rintro ⟨t, hend, ht⟩
        have hcheck := (verdict_ok_iff.1 hverdict).1
        by_cases hids : p.BadIds
        · obtain ⟨e, he, -⟩ := Proposal.check_of_badIds hids now.time
          rw [he] at hcheck
          exact absurd hcheck (by simp)
        · rw [Proposal.check_of_late hids hend ht] at hcheck
          exact absurd hcheck (by simp)
      exact recorded_storing hlate hcreate j

/-- A memory in which alice may do anything. -/
def aliceMayAll : Memory :=
  { policies := PolicyStore.empty.put "main" (.ofRules [.allow "alice" "*" "*"]) false }

/-- Leave for bob to read, which ends at the second second. -/
def briefly : Proposal :=
  { delegator := "alice", delegate := "bob", scope := ⟨["document:*"], ["read"], none⟩
    expiresAt := some (second 2).time, transitive := true }

/-- What is lent for a second is granted at once, and refused when the second is over. -/
theorem briefly_granted_or_not :
    aliceMayAll.delegations.find ⟨1⟩ = none ∧
    ((grant {} Memory.backend (second 1) ⟨1⟩ briefly).run aliceMayAll).1 =
      .ok (briefly.granted ⟨1⟩ (second 1).time) ∧
    Recorded {} aliceMayAll (second 1) ⟨1⟩ briefly (briefly.granted ⟨1⟩ (second 1).time)
      ((grant {} Memory.backend (second 1) ⟨1⟩ briefly).run aliceMayAll).2 ∧
    ((grant {} Memory.backend (second 2) ⟨1⟩ briefly).run aliceMayAll).1 =
      .error (.expired (second 2).time) := by
  have hfresh : aliceMayAll.delegations.find ⟨1⟩ = none := rfl
  have hgranted : ((grant {} Memory.backend (second 1) ⟨1⟩ briefly).run aliceMayAll).1 =
      .ok (briefly.granted ⟨1⟩ (second 1).time) := by
    decide +kernel
  have hids : ¬ briefly.BadIds := Proposal.not_badIds_iff.2 (by decide)
  obtain ⟨-, -, hrecorded⟩ := grant_all_or_nothing {} aliceMayAll (second 1) ⟨1⟩ briefly hfresh
  obtain ⟨hruled, -, -⟩ := grant_all_or_nothing {} aliceMayAll (second 2) ⟨1⟩ briefly hfresh
  exact ⟨hfresh, hgranted, hrecorded _ hgranted, hruled.late hids _ rfl (Int.le_refl _)⟩

end Service

end Clearance.Delegation
