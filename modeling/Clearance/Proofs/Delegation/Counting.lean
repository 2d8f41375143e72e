import Clearance.Proofs.Delegation.Caching
import Clearance.Proofs.Delegation.Fate
import Clearance.Proofs.Journal

/-!
# What an operation counts

Each operation counts at most one thing, and which one can be told from its answer or from the memory
it starts from: `Service.counts`. Most of the way an operation counts nothing but the decisions that
its checks ask for (`Attempt.Quiet`). Attempts are put together from quiet ones, so what a grant
counts is what its last step counts, or what counts its refusal.
-/

namespace Clearance

/-- Events are noted, not counted. -/
theorem Journal.counted_map_event (l : List Event) : Journal.counted (l.map .event) = [] := by
  induction l with
  | nil => rfl
  | cons e l ih => exact ih

/-- A decision is put on record without a count of its own. -/
theorem Evaluator.counted_record (e : Evaluator) (q : Request) (d : Decision) :
    (e.record q d).counted = [] := by
  unfold record
  split <;> rfl

/-- What the policy store notes when it is asked is not counted. -/
theorem PolicyStore.counted_record (s : PolicyStore) : s.record.counted = [] :=
  Journal.counted_map_event _

namespace Delegation

open Time (Instant)

/-- To put questions counts nothing. -/
theorem counted_anyDenied (e : Evaluator) (p : Policy) (questions : List Request) :
    (anyDenied e p questions).2.counted = [] := by
  induction questions with
  | nil => rfl
  | cons q rest ih =>
    simp only [anyDenied]
    split
    next =>
      show Journal.counted (_ ++ _) = _
      rw [Journal.counted_append, Evaluator.counted_record, ih]
      rfl
    next => exact e.counted_record _ _

/-- To ask whether a policy gives a pair counts nothing. -/
theorem counted_givenByPolicy (e : Evaluator) (p : Policy) (ask : Pair → Request) (pair : Pair) :
    (givenByPolicy e p ask pair).2.counted = [] := by
  simp only [givenByPolicy]
  split
  next =>
    show Journal.counted (_ ++ _) = _
    rw [Journal.counted_append, Evaluator.counted_record, counted_anyDenied]
    rfl
  next => exact e.counted_record _ _

variable {α β : Type}

namespace Attempt

/-- Whether what an attempt counts can be told from its answer. -/
def Counts (x : Attempt (StateM Memory) α) (n : Except Refusal α → List (Counter × Nat)) : Prop :=
  ∀ w, (x.on w).2.journal.counted = w.journal.counted ++ n (x.on w).1

/-- Whether an attempt counts nothing. -/
def Quiet (x : Attempt (StateM Memory) α) : Prop := x.Counts fun _ => []

/-- An attempt that leaves the journal alone counts nothing. -/
theorem quiet_of_journal {x : Attempt (StateM Memory) α}
    (h : ∀ w, (x.on w).2.journal = w.journal) : Quiet x := by
  intro w
  rw [h w, List.append_nil]

theorem quiet_pure (a : α) : Quiet (pure a) := quiet_of_journal fun _ => rfl

theorem quiet_refuse (r : Refusal) : Quiet (refuse r : Attempt (StateM Memory) α) :=
  quiet_of_journal fun _ => rfl

theorem quiet_activeFor (now : Instant) (delegate : String) :
    Quiet (stored (Memory.backend.activeFor now delegate)) :=
  quiet_of_journal fun _ => rfl

theorem quiet_create (d : Delegation) : Quiet (stored (Memory.backend.create d)) := by
  refine quiet_of_journal fun w => ?_
  rw [on_create]
  cases w.delegations.create d <;> rfl

/-- To note what is not counted is quiet. -/
theorem quiet_noting {j : Journal} (hj : j.counted = []) : Quiet (Memory.backend.noting j) := by
  intro w
  rw [on_noting]
  show Journal.counted (w.journal ++ j) = _
  rw [Journal.counted_append, hj]

theorem quiet_policiesFor (subject : Subject) :
    Quiet (stored (Memory.backend.policiesFor subject)) := by
  intro w
  rw [on_policiesFor]
  show Journal.counted (w.journal ++ w.policies.record) = _
  rw [Journal.counted_append, PolicyStore.counted_record]

/-- After a quiet attempt the rest counts what it counts by itself, if it is reached. -/
theorem Quiet.bind {x : Attempt (StateM Memory) α} {f : α → Attempt (StateM Memory) β}
    {n : Except Refusal β → List (Counter × Nat)} (hx : Quiet x) (hf : ∀ a, (f a).Counts n)
    (hn : ∀ e, n (.error e) = []) : Counts (x >>= f) n := by
  intro w
  have hbefore := hx w
  rw [on_bind]
  cases hrun : x.on w with
  | mk answer w' =>
    rw [hrun, List.append_nil] at hbefore
    cases answer with
    | error e =>
      -- the rest is not reached, and a refusal counts nothing
      show w'.journal.counted = _ ++ n (.error e)
      rw [hbefore, hn, List.append_nil]
    | ok a =>
      show ((f a).on w').2.journal.counted = _ ++ n ((f a).on w').1
      rw [hf a w', hbefore]

/-- One quiet attempt after another is quiet. -/
theorem Quiet.then {x : Attempt (StateM Memory) α} {f : α → Attempt (StateM Memory) β}
    (hx : Quiet x) (hf : ∀ a, Quiet (f a)) : Quiet (x >>= f) :=
  hx.bind hf fun _ => rfl

end Attempt

open Attempt

/-! ## The checks of a grant -/

/-- To meet a generation counts nothing. -/
theorem quiet_generation (now : Moment) (delegator delegate : String) (frontier : List String)
    (walk : Walk) : Quiet (generation Memory.backend now delegator delegate walk frontier) := by
  induction frontier generalizing walk with
  | nil => exact quiet_pure walk
  | cons party rest ih =>
    unfold generation
    refine (quiet_activeFor now.time party).then fun upstream => ?_
    cases walk.meet delegate upstream with
    | none => exact quiet_refuse _
    | some walk => exact ih walk

/-- To walk back counts nothing, however far it goes. -/
theorem quiet_walkBack (now : Moment) (delegator delegate : String) (limit left : Nat)
    (met frontier : List String) :
    Quiet (walkBack Memory.backend now delegator delegate limit left met frontier) := by
  induction left generalizing met frontier with
  | zero =>
    unfold walkBack
    refine (quiet_generation now delegator delegate frontier ⟨met, []⟩).then fun walk => ?_
    split
    next => exact quiet_pure ()
    next => exact quiet_refuse _
  | succ left ih =>
    unfold walkBack
    refine (quiet_generation now delegator delegate frontier ⟨met, []⟩).then fun walk => ?_
    split
    next => exact quiet_pure ()
    next => exact ih walk.met walk.next

/-- To check a chain counts nothing, whatever comes of it. -/
theorem quiet_checkChain (now : Moment) (limit : Nat) (delegator delegate : String) :
    Quiet (checkChain Memory.backend now limit delegator delegate) :=
  quiet_walkBack now delegator delegate limit limit [delegator] [delegator]

namespace Validator

variable {v : Validator} {now : Moment} {delegator : Subject} {context : Context} {p : Policy}

/-- To check pairs counts nothing, also where what is held by delegation is looked up. -/
theorem quiet_checkPairs (held? : Option (List Delegation)) (pairs : List Pair) :
    Quiet (v.checkPairs Memory.backend now p delegator context held? pairs) := by
  induction pairs generalizing held? with
  | nil => exact quiet_pure ()
  | cons pair rest ih =>
    unfold checkPairs
    have hgiven := counted_givenByPolicy v.evaluator p (pairRequest delegator context) pair
    generalize givenByPolicy v.evaluator p (pairRequest delegator context) pair = given at hgiven
    obtain ⟨given, journal⟩ := given
    refine (quiet_noting hgiven).then fun _ => ?_
    -- whatever is held, the pair is refused or the rest is checked
    have hrest : ∀ held : List Delegation, Quiet
        (if held.any (·.scope.includes pair.1 pair.2) then
          v.checkPairs Memory.backend now p delegator context (some held) rest
        else refuse (.notHeld delegator.id pair.1 pair.2)) := by
      intro held
      split
      next => exact ih (some held)
      next => exact quiet_refuse _
    split
    next => exact ih held?
    next =>
      cases held? with
      | some held => exact hrest held
      | none =>
        dsimp only
        split
        next => exact (quiet_activeFor now.time delegator.id).then fun active => hrest _
        next => exact hrest []

/-- To check a scope counts nothing. -/
theorem quiet_check (v : Validator) (now : Moment) (delegator : Subject) (scope : Scope) :
    Quiet (v.check Memory.backend now delegator scope) := by
  unfold check
  split
  next => exact quiet_pure ()
  next => exact (quiet_policiesFor delegator).then fun p => quiet_checkPairs none scope.pairs

end Validator

namespace Service

variable {s : Service} {w : Memory} {now : Moment} {id : Uuid} {p : Proposal}

/-! ## Single operations -/

/-- The counter that goes up with a grant or its refusal. -/
def grantCounter : Except Refusal Delegation → Counter
  | .ok d => .granted d.transitive
  | .error e => .rejected e.kind

/-- What an attempt to grant counts: a refusal is counted only afterwards. -/
def attemptCounts : Except Refusal Delegation → List (Counter × Nat)
  | .ok d => [(.granted d.transitive, 1)]
  | .error _ => []

/-- To drop a list from the cache counts nothing. -/
theorem quiet_invalidate (s : Service) (delegate : String) :
    Quiet (ExceptT.lift (s.invalidate Memory.backend delegate)) := by
  refine quiet_of_journal fun w => ?_
  have hrun : (s.invalidate Memory.backend delegate).run w = _ :=
    invalidate_run s w w.delegations delegate
  rw [on_lift, hrun]
  rfl

/-- Only the last step of a grant counts anything. -/
theorem attemptGrant_counts (s : Service) (now : Moment) (id : Uuid) (p : Proposal) :
    (s.attemptGrant Memory.backend now id p).Counts attemptCounts := by
  -- what comes once the proposal and the chain have been checked
  have hrest : (do
      s.validator.check Memory.backend now { id := p.delegator } p.scope
      let d ← stored (Memory.backend.create (p.granted id now.time))
      ExceptT.lift (s.invalidate Memory.backend d.delegate)
      Memory.backend.noting [.count (.granted d.transitive) 1]
      return d : Attempt (StateM Memory) Delegation).Counts attemptCounts := by
    have hcheck := Validator.quiet_check s.validator now { id := p.delegator } p.scope
    refine hcheck.bind (fun _ => ?_) fun _ => rfl
    refine (quiet_create _).bind (fun d => ?_) fun _ => rfl
    refine (quiet_invalidate s d.delegate).bind (fun _ w => ?_) fun _ => rfl
    exact Journal.counted_append ..
  unfold attemptGrant
  split
  next => exact quiet_refuse _
  next =>
    split
    next =>
      have hchain := quiet_checkChain now s.maxChainDepth p.delegator p.delegate
      exact hchain.bind (fun _ => hrest) fun _ => rfl
    next => exact hrest

/-- **A grant counts itself**: once, as granted of its kind, or as refused for its reason. -/
theorem grant_counted (s : Service) (w : Memory) (now : Moment) (id : Uuid) (p : Proposal) :
    ((s.grant Memory.backend now id p).run w).2.journal.counted =
      w.journal.counted ++ [(grantCounter ((s.grant Memory.backend now id p).run w).1, 1)] := by
  have hattempt := attemptGrant_counts s now id p w
  cases hrun : (s.attemptGrant Memory.backend now id p).on w with
  | mk answer w' =>
    rw [hrun] at hattempt
    unfold grant
    rw [Memory.run_bind_of hrun]
    cases answer with
    | ok d => exact hattempt
    | error e =>
      show Journal.counted (w'.journal ++ [.count (.rejected e.kind) 1]) = _
      rw [Journal.counted_append, hattempt, attemptCounts, List.append_nil]
      rfl

/-- How a look-up finds the cache. -/
def lookUpCounter (w : Memory) (now : Moment) (delegate : String) : Counter :=
  match (w.cache.get now.uptime (cacheKey delegate)).1 with
  | none => .cacheMiss
  | some text => if (readList text).isSome then .cacheHit else .cacheError

/-- A look-up in the cache counts what came of it, and only that. -/
theorem cachedFor_counted (w : Memory) (now : Moment) (delegate : String) :
    ((cachedFor Memory.backend now delegate).run w).2.journal.counted =
      w.journal.counted ++ [(lookUpCounter w now delegate, 1)] := by
  have hget : (Memory.backend.cacheGet now.uptime (cacheKey delegate)).run w =
      (.ok (w.cache.get now.uptime (cacheKey delegate)).1,
        { w with cache := (w.cache.get now.uptime (cacheKey delegate)).2 }) := rfl
  unfold cachedFor lookUpCounter
  rw [Memory.run_bind_of hget]
  cases (w.cache.get now.uptime (cacheKey delegate)).1 with
  | none => exact Journal.counted_append ..
  | some text =>
    dsimp only
    cases readList text with
    | none => exact Journal.counted_append ..
    | some ds => exact Journal.counted_append ..

/-- **A look-up through the cache counts how it went**, once. -/
theorem activeFor_counted (s : Service) (w : Memory) (now : Moment) (delegate : String) :
    ((s.activeFor Memory.backend now delegate).run w).2.journal.counted =
      w.journal.counted ++ if s.caching then [(lookUpCounter w now delegate, 1)] else [] := by
  have hcached := cachedFor_counted w now delegate
  unfold activeFor
  split
  next =>
    cases hrun : (cachedFor Memory.backend now delegate).run w with
    | mk list w' =>
      rw [hrun] at hcached
      rw [Memory.run_bind_of hrun]
      cases list with
      | none => exact hcached
      | some ds => exact hcached
  next => exact (List.append_nil _).symm

/-- What an operation counts, other than decisions. -/
def counts (s : Service) (w : Memory) (now : Moment) : Op → List (Counter × Nat)
  | .grant id p =>
    [(grantCounter ((s.outcome w now id p).map fun _ => p.granted id now.time), 1)]
  | .revoke id =>
    match w.delegations.find id with
    | none => []
    | some d => if d.status = .revoked then [] else [(.revoked, 1)]
  | .cleanup => [(.cleaned, (w.delegations.cleanup w.retention now.time).1)]
  | .find _ => []
  | .activeFor delegate => if s.caching then [(lookUpCounter w now delegate, 1)] else []
  | .permits delegate _ _ => if s.caching then [(lookUpCounter w now delegate, 1)] else []
  | .policies _ => []

/-- **Every operation counts what it is said to count** and nothing else. -/
theorem step_counted (s : Service) (w : Memory) (now : Moment) (op : Op) :
    (s.step w (now, op)).journal.counted = w.journal.counted ++ s.counts w now op := by
  cases op with
  | grant id p =>
    obtain ⟨j, hj⟩ := grant_run s w now id p
    refine (grant_counted s w now id p).trans ?_
    rw [hj, counts]
    cases s.outcome w now id p <;> rfl
  | revoke id =>
    show ((s.revoke Memory.backend now id).run w).2.journal.counted = _
    rw [revoke_run, counts]
    cases w.delegations.find id with
    | none => exact (List.append_nil _).symm
    | some d =>
      dsimp only
      split
      next => exact (List.append_nil _).symm
      next => exact Journal.counted_append ..
  | cleanup => exact Journal.counted_append ..
  | find id => exact (List.append_nil _).symm
  | activeFor delegate => exact activeFor_counted s w now delegate
  | permits delegate resource action => exact activeFor_counted s w now delegate
  | policies store => exact (List.append_nil _).symm

end Service

end Delegation

end Clearance
