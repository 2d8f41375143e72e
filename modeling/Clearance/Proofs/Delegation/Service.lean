import Clearance.Delegation.Service
import Clearance.Proofs.Delegation.Chain
import Clearance.Proofs.Delegation.Outage
import Clearance.Proofs.Delegation.Store
import Clearance.Proofs.Delegation.Validation

/-!
# What a service does to a memory

Each operation of a service, run over a memory, comes to an answer and a new memory. There is one
theorem for each that gives both, so that the monads stay closed from here on.

A grant has two parts. Its `verdict` is what all the checks come to, and only reads; its `outcome`
goes on to the store. If either refuses, the memory has more on record and is otherwise as it was.
A look-up through the cache can change the cache; only a grant, a revocation and a cleanup change
what is delegated.

The operations that use the cache are followed through any `Outage` of it (`grant_amid`, `revoke_amid`,
`activeFor_amid`, `permits_amid`), and then once more without one.
-/

namespace Clearance.Delegation

open Time (Instant)

/-- To create a row in memory comes to what it comes to in the store. -/
theorem Memory.create_run (d : Delegation) (w : Memory) :
    (Memory.create d).run w =
      match w.delegations.create d with
      | .error e => (.error e, w)
      | .ok s => (.ok d, { w with delegations := s }) := by
  change ((match w.delegations.create d with
    | .error e => pure (.error e)
    | .ok s => set { w with delegations := s } *> pure (.ok d) :
      StateM Memory (Except StoreError Delegation))).run w = _
  cases w.delegations.create d <;> rfl

/-- To revoke a row in memory comes to what it comes to in the store. -/
theorem Memory.revoke_run (now : Instant) (id : Uuid) (w : Memory) :
    (Memory.revoke now id).run w =
      match w.delegations.revoke now id with
      | .error e => (.error e, w)
      | .ok (d, s) => (.ok d, { w with delegations := s }) := by
  change ((match w.delegations.revoke now id with
    | .error e => pure (.error e)
    | .ok (d, s) => set { w with delegations := s } *> pure (.ok d) :
      StateM Memory (Except StoreError Delegation))).run w = _
  cases w.delegations.revoke now id <;> rfl

/-- What comes after a step starts from what that has left. -/
theorem Memory.run_bind_of {α β : Type} {x : StateM Memory α} {f : α → StateM Memory β}
    {w w' : Memory} {a : α} (h : x.run w = (a, w')) : (x >>= f).run w = (f a).run w' := by
  rw [StateT.run_bind, h]
  rfl

namespace Attempt

variable {α : Type}

@[simp] theorem on_lift (x : StateM Memory α) (w : Memory) :
    on (ExceptT.lift x : Attempt (StateM Memory) α) w = (.ok (x.run w).1, (x.run w).2) := rfl

@[simp] theorem on_create (d : Delegation) (w : Memory) :
    on (stored (Memory.backend.create d)) w =
      match w.delegations.create d with
      | .error e => (.error (.storage e), w)
      | .ok s => (.ok d, { w with delegations := s }) := by
  show ((((Memory.create d).run w).1.mapError .storage, ((Memory.create d).run w).2) :
    Except Refusal Delegation × Memory) = _
  rw [Memory.create_run]
  cases w.delegations.create d <;> rfl

end Attempt

namespace Service

variable {s : Service} {w : Memory} {now : Moment} {id : Uuid} {p : Proposal}

/-- The memory with a store in place of its own, and a delegate's list dropped from the cache. -/
def storing (s : Service) (w : Memory) (store : Store) (delegate : String) : Memory :=
  { w with
    delegations := store
    cache := if s.caching then w.cache.delete (cacheKey delegate) else w.cache }

/-- The service, without its cache if no list can be dropped from that. -/
def droppingAmid (s : Service) (o : Outage) : Service :=
  { s with caching := o.delete.isNone && s.caching }

/-- What goes on record if a list cannot be dropped. -/
def complaint (s : Service) (o : Outage) (delegate : String) : Journal :=
  match o.delete with
  | none => []
  | some e => if s.caching then [.event (.cacheInvalidationFailed delegate e)] else []

/-- A list that cannot be dropped stays where it is, and nothing else comes of it. -/
theorem invalidate_amid (s : Service) (o : Outage) (w : Memory) (store : Store) (delegate : String) :
    (s.invalidate o.backend delegate).run { w with delegations := store } =
      ((), ((s.droppingAmid o).storing w store delegate).noted (s.complaint o delegate)) := by
  obtain ⟨get, set, delete⟩ := o
  cases delete with
  | none =>
    show _ = ((), (s.storing w store delegate).noted [])
    rw [Memory.noted_nil]
    unfold invalidate storing
    split
    next => rfl
    next => rfl
  | some e =>
    unfold invalidate complaint
    dsimp only
    split
    next => rfl
    next =>
      rw [Memory.noted_nil]
      rfl

/-- To drop a list leaves the memory with the new store and without the list. -/
theorem invalidate_run (s : Service) (w : Memory) (store : Store) (delegate : String) :
    (s.invalidate Memory.backend delegate).run { w with delegations := store } =
      ((), s.storing w store delegate) := by
  have hrun := s.invalidate_amid {} w store delegate
  rw [show s.complaint {} delegate = [] from rfl, Memory.noted_nil] at hrun
  exact hrun

/-- What the checks of a grant come to, in their order. -/
def verdict (s : Service) (w : Memory) (now : Moment) (p : Proposal) : Except Refusal Unit := do
  p.check now.time
  if p.transitive then
    (Attempt.on (checkChain Memory.backend now s.maxChainDepth p.delegator p.delegate) w).1
  s.validator.verdict w now.time { id := p.delegator } p.scope.context p.scope.pairs

/-- What is delegated after a grant, if it comes to that. -/
def outcome (s : Service) (w : Memory) (now : Moment) (id : Uuid) (p : Proposal) :
    Except Refusal Store := do
  s.verdict w now p
  (w.delegations.create (p.granted id now.time)).mapError .storage

/-- Nobody passes the check who delegates to themselves. -/
theorem check_ne (h : p.check now.time = .ok ()) : p.delegator ≠ p.delegate := by
  unfold Proposal.check at h
  split at h
  next => exact absurd h (by simp)
  next =>
    split at h
    next => exact absurd h (by simp)
    next =>
      split at h
      next => exact absurd h (by simp)
      next hne => exact hne

/-- A verdict is favourable if each check is. The chain counts only for what may be handed on. -/
theorem verdict_ok_iff :
    s.verdict w now p = .ok () ↔
      p.check now.time = .ok () ∧
        (p.transitive = true →
          (Attempt.on (checkChain Memory.backend now s.maxChainDepth p.delegator p.delegate) w).1 =
            .ok ()) ∧
        s.validator.verdict w now.time { id := p.delegator } p.scope.context p.scope.pairs =
          .ok () := by
  unfold verdict
  cases p.check now.time with
  | error e => exact iff_of_false (by simp [bind, Except.bind]) (by simp)
  | ok _ =>
    cases p.transitive with
    | false => simp [bind, Except.bind]
    | true =>
      cases (Attempt.on (checkChain Memory.backend now s.maxChainDepth p.delegator p.delegate) w).1
        with
      | error e => simp [bind, Except.bind]
      | ok _ => simp [bind, Except.bind]

/-- A grant comes about if all checks pass and the store takes the row. -/
theorem outcome_ok_iff {store : Store} :
    s.outcome w now id p = .ok store ↔
      s.verdict w now p = .ok () ∧ w.delegations.create (p.granted id now.time) = .ok store := by
  unfold outcome
  cases s.verdict w now p with
  | error e => simp [bind, Except.bind]
  | ok _ =>
    cases w.delegations.create (p.granted id now.time) <;>
      simp [bind, Except.bind, Except.mapError]

/-- Checking the chain leaves the memory alone. -/
theorem checkChain_run (limit : Nat) (hne : p.delegator ≠ p.delegate) :
    Attempt.on (checkChain Memory.backend now limit p.delegator p.delegate) w =
      ((Attempt.on (checkChain Memory.backend now limit p.delegator p.delegate) w).1, w) := by
  obtain ⟨r, hr, -⟩ := checkChain_on w now limit hne
  rw [hr]

/-- From the validation on, a grant comes to its outcome. -/
theorem recordGrant_on (s : Service) (o : Outage) (w : Memory) (now : Moment) (id : Uuid)
    (p : Proposal) :
    ∃ j, Attempt.on (do
        s.validator.check o.backend now { id := p.delegator } p.scope
        let d ← stored (o.backend.create (p.granted id now.time))
        ExceptT.lift (s.invalidate o.backend d.delegate)
        o.backend.noting [.count (.granted d.transitive) 1]
        return d) w =
      match (do
        s.validator.verdict w now.time { id := p.delegator } p.scope.context p.scope.pairs
        (w.delegations.create (p.granted id now.time)).mapError .storage :
          Except Refusal Store) with
      | .error e => (.error e, w.noted j)
      | .ok store =>
        (.ok (p.granted id now.time), ((s.droppingAmid o).storing w store p.delegate).noted j) := by
  obtain ⟨j, hj⟩ := Validator.check_on s.validator now { id := p.delegator } p.scope w
  have hcreate : o.backend.create = Memory.backend.create := rfl
  rw [Attempt.on_bind, o.check_backend, hj]
  cases s.validator.verdict w now.time { id := p.delegator } p.scope.context p.scope.pairs with
  | error e => exact ⟨j, rfl⟩
  | ok _ =>
    -- the validation has put more on record and left the store as it was
    dsimp only
    rw [Attempt.on_bind, hcreate, Attempt.on_create, Memory.noted_delegations]
    cases w.delegations.create (p.granted id now.time) with
    | error e => exact ⟨j, rfl⟩
    | ok store =>
      refine ⟨j ++ s.complaint o p.delegate ++ [.count (.granted p.transitive) 1], ?_⟩
      dsimp only
      rw [Attempt.on_bind, Attempt.on_lift, invalidate_amid]
      show (Except.ok _, (((s.droppingAmid o).storing (w.noted j) store p.delegate).noted _).noted _) =
        (Except.ok _, ((s.droppingAmid o).storing w store p.delegate).noted _)
      rw [← Memory.noted_noted, ← Memory.noted_noted]
      rfl

/-- **A grant is all or nothing.** It comes to what its outcome says; where that is a refusal, the
memory has only more on record. -/
theorem attemptGrant_on (s : Service) (o : Outage) (w : Memory) (now : Moment) (id : Uuid)
    (p : Proposal) :
    ∃ j, Attempt.on (s.attemptGrant o.backend now id p) w =
      match s.outcome w now id p with
      | .error e => (.error e, w.noted j)
      | .ok store =>
        (.ok (p.granted id now.time), ((s.droppingAmid o).storing w store p.delegate).noted j) := by
  unfold attemptGrant outcome verdict
  cases hcheck : p.check now.time with
  | error e =>
    refine ⟨[], ?_⟩
    rw [Memory.noted_nil]
    rfl
  | ok _ =>
    dsimp only
    split
    next =>
      rw [Attempt.on_bind, o.checkChain_backend, checkChain_run s.maxChainDepth (check_ne hcheck)]
      cases (Attempt.on (checkChain Memory.backend now s.maxChainDepth p.delegator p.delegate) w).1
        with
      | error e =>
        refine ⟨[], ?_⟩
        rw [Memory.noted_nil]
        rfl
      | ok _ => exact recordGrant_on s o w now id p
    next => exact recordGrant_on s o w now id p

/-- What fails of the cache changes neither what a grant comes to nor what it records. -/
theorem grant_amid (s : Service) (o : Outage) (w : Memory) (now : Moment) (id : Uuid) (p : Proposal) :
    ∃ j, (s.grant o.backend now id p).run w =
      match s.outcome w now id p with
      | .error e => (.error e, w.noted j)
      | .ok store =>
        (.ok (p.granted id now.time), ((s.droppingAmid o).storing w store p.delegate).noted j) := by
  obtain ⟨j, hj⟩ := attemptGrant_on s o w now id p
  unfold grant
  cases hout : s.outcome w now id p with
  | error e =>
    rw [hout] at hj
    refine ⟨j ++ [.count (.rejected e.kind) 1], (Memory.run_bind_of hj).trans ?_⟩
    rw [← Memory.noted_noted]
    rfl
  | ok store =>
    rw [hout] at hj
    exact ⟨j, Memory.run_bind_of hj⟩

/-- A grant over the memory itself. -/
theorem grant_run (s : Service) (w : Memory) (now : Moment) (id : Uuid) (p : Proposal) :
    ∃ j, (s.grant Memory.backend now id p).run w =
      match s.outcome w now id p with
      | .error e => (.error e, w.noted j)
      | .ok store => (.ok (p.granted id now.time), (s.storing w store p.delegate).noted j) :=
  grant_amid s {} w now id p

/-- Revoking touches a row only if there is one that is not revoked yet. -/
theorem revoke_amid (s : Service) (o : Outage) (w : Memory) (now : Moment) (id : Uuid) :
    (s.revoke o.backend now id).run w =
      match w.delegations.find id with
      | none => (.ok none, w)
      | some d =>
        if d.status = .revoked then (.ok (some d), w)
        else
          (.ok (some (Store.revokedRow d now.time)),
            ((s.droppingAmid o).storing w (w.delegations.replace (Store.revokedRow d now.time))
              d.delegate).noted (s.complaint o d.delegate ++ [.count .revoked 1])) := by
  have hfind : (o.backend.find id).run w = (.ok (w.delegations.find id), w) := rfl
  unfold revoke
  rw [Memory.run_bind_of hfind]
  cases hd : w.delegations.find id with
  | none => rfl
  | some d =>
    dsimp only
    split
    next => rfl
    next =>
      have hrevoke : (o.backend.revoke now.time id).run w =
          (.ok (Store.revokedRow d now.time),
            { w with
              delegations := w.delegations.replace (Store.revokedRow d now.time) }) := by
        refine (Memory.revoke_run now.time id w).trans ?_
        unfold Store.revoke
        rw [hd]
      rw [Memory.run_bind_of hrevoke]
      dsimp only
      rw [Memory.run_bind_of (invalidate_amid ..), Store.revokedRow_delegate, ← Memory.noted_noted]
      rfl

/-- A revocation over the memory itself. -/
theorem revoke_run (s : Service) (w : Memory) (now : Moment) (id : Uuid) :
    (s.revoke Memory.backend now id).run w =
      match w.delegations.find id with
      | none => (.ok none, w)
      | some d =>
        if d.status = .revoked then (.ok (some d), w)
        else
          (.ok (some (Store.revokedRow d now.time)),
            (s.storing w (w.delegations.replace (Store.revokedRow d now.time)) d.delegate).noted
              [.count .revoked 1]) :=
  revoke_amid s {} w now id

/-- A cleanup removes from the store what has been over for the time of retention, and counts it. -/
theorem cleanup_run (w : Memory) (now : Moment) :
    (cleanup Memory.backend now).run w =
      (.ok (w.delegations.cleanup w.retention now.time).1,
        { w with delegations := (w.delegations.cleanup w.retention now.time).2 }.noted
          [.count .cleaned (w.delegations.cleanup w.retention now.time).1]) := rfl

theorem find_run (w : Memory) (id : Uuid) :
    (find Memory.backend id).run w = (.ok (w.delegations.find id), w) := rfl

/-- The list that the cache gives for a delegate, if it gives one that can be read. -/
def cachedList (w : Memory) (now : Moment) (delegate : String) : Option (List Delegation) :=
  (w.cache.get now.uptime (cacheKey delegate)).1.bind readList

/-- What a look-up answers. -/
def held (s : Service) (w : Memory) (now : Moment) (delegate : String) : List Delegation :=
  if s.caching then
    match cachedList w now delegate with
    | some ds => ds.filter (·.isActiveAt now.time)
    | none => w.delegations.activeFor now.time delegate
  else w.delegations.activeFor now.time delegate

/-- The cache after a look-up. -/
def cacheAfter (s : Service) (w : Memory) (now : Moment) (delegate : String) : Cache String :=
  if s.caching then
    match cachedList w now delegate with
    | some _ => (w.cache.get now.uptime (cacheKey delegate)).2
    | none =>
      ((w.cache.get now.uptime (cacheKey delegate)).2.set w.lastUptime now.uptime (cacheKey delegate)
        (writeList (w.delegations.activeFor now.time delegate)) (1000000000 * s.cacheSeconds)).2
  else w.cache

/-- The service, without its cache if nothing can be read from that. -/
def readingAmid (s : Service) (o : Outage) : Service := { s with caching := o.get.isNone && s.caching }

/-- A cache in which the list that the store gives for a delegate is filed, if that works. -/
def filing (s : Service) (o : Outage) (w : Memory) (now : Moment) (delegate : String)
    (c : Cache String) : Cache String :=
  match o.set with
  | none =>
    (c.set w.lastUptime now.uptime (cacheKey delegate)
      (writeList (w.delegations.activeFor now.time delegate)) (1000000000 * s.cacheSeconds)).2
  | some _ => c

/-- The cache after a look-up in the course of which calls of it fail. -/
def cacheAmid (s : Service) (o : Outage) (w : Memory) (now : Moment) (delegate : String) :
    Cache String :=
  if s.caching then
    match o.get with
    | none =>
      match cachedList w now delegate with
      | some _ => (w.cache.get now.uptime (cacheKey delegate)).2
      | none => s.filing o w now delegate (w.cache.get now.uptime (cacheKey delegate)).2
    | some _ => s.filing o w now delegate w.cache
  else w.cache

/-- A look-up in the cache gives the list that can be read there, if any. -/
theorem cachedFor_run (w : Memory) (now : Moment) (delegate : String) :
    ∃ j, (cachedFor Memory.backend now delegate).run w =
      (cachedList w now delegate,
        { w with cache := (w.cache.get now.uptime (cacheKey delegate)).2 }.noted j) := by
  have hget : (Memory.backend.cacheGet now.uptime (cacheKey delegate)).run w =
      (.ok (w.cache.get now.uptime (cacheKey delegate)).1,
        { w with cache := (w.cache.get now.uptime (cacheKey delegate)).2 }) := rfl
  unfold cachedFor cachedList
  rw [Memory.run_bind_of hget]
  cases (w.cache.get now.uptime (cacheKey delegate)).1 with
  | none => exact ⟨_, rfl⟩
  | some text =>
    rw [Option.bind_some]
    change ∃ j, (match readList text with
      | some ds => _
      | none => _ : StateM Memory _).run _ = _
    cases readList text with
    | none => exact ⟨_, rfl⟩
    | some ds => exact ⟨_, rfl⟩

/-- What cannot be read from the cache is read from the store, and what cannot be filed is not. -/
theorem loadFor_amid (s : Service) (o : Outage) (w : Memory) (now : Moment) (delegate : String) :
    ∃ j, (s.loadFor o.backend now delegate).run w =
      (.ok (w.delegations.activeFor now.time delegate),
        { w with cache := s.filing o w now delegate w.cache }.noted j) := by
  obtain ⟨get, set, delete⟩ := o
  cases set with
  | none => exact ⟨[], by rw [Memory.noted_nil]; rfl⟩
  | some e => exact ⟨_, rfl⟩

/-- A look-up changes nothing but the cache and what is on record. -/
theorem activeFor_amid (s : Service) (o : Outage) (w : Memory) (now : Moment) (delegate : String) :
    ∃ j, (s.activeFor o.backend now delegate).run w =
      (.ok ((s.readingAmid o).held w now delegate),
        { w with cache := s.cacheAmid o w now delegate }.noted j) := by
  unfold activeFor held cacheAmid readingAmid
  cases hcaching : s.caching with
  | false =>
    rw [Bool.and_false]
    exact ⟨[], by rw [Memory.noted_nil]; rfl⟩
  | true =>
    cases hget : o.get with
    | none =>
      have hcached : cachedFor o.backend now delegate = cachedFor Memory.backend now delegate := by
        unfold cachedFor Outage.backend
        rw [hget]
      obtain ⟨j, hj⟩ := cachedFor_run w now delegate
      simp only [if_true, Option.isNone_none, Bool.and_self, hcached]
      rw [Memory.run_bind_of hj]
      cases cachedList w now delegate with
      | none =>
        obtain ⟨j', hj'⟩ := loadFor_amid s o
          ({ w with cache := (w.cache.get now.uptime (cacheKey delegate)).2 }.noted j) now delegate
        exact ⟨j ++ j', by rw [← Memory.noted_noted]; exact hj'⟩
      | some ds => exact ⟨j, rfl⟩
    | some e =>
      have hcached : (cachedFor o.backend now delegate).run w =
          (none, w.noted [.count .cacheError 1, .event (.cacheReadFailed delegate e)]) := by
        unfold cachedFor Outage.backend
        rw [hget]
        rfl
      obtain ⟨j, hj⟩ := loadFor_amid s o
        (w.noted [.count .cacheError 1, .event (.cacheReadFailed delegate e)]) now delegate
      simp only [if_true]
      rw [Memory.run_bind_of hcached]
      exact ⟨_ ++ j, by rw [← Memory.noted_noted]; exact hj⟩

/-- A look-up over the memory itself. -/
theorem activeFor_run (s : Service) (w : Memory) (now : Moment) (delegate : String) :
    ∃ j, (s.activeFor Memory.backend now delegate).run w =
      (.ok (s.held w now delegate), { w with cache := s.cacheAfter w now delegate }.noted j) :=
  activeFor_amid s {} w now delegate

/-- What is permitted goes by the list that a look-up gives, whatever fails of the cache. -/
theorem permits_amid (s : Service) (o : Outage) (w : Memory) (now : Moment)
    (delegate resource action : String) :
    ∃ j, (s.permits o.backend now delegate resource action).run w =
      (.ok (((s.readingAmid o).held w now delegate).any (·.scope.includes resource action)),
        { w with cache := s.cacheAmid o w now delegate }.noted j) := by
  obtain ⟨j, hj⟩ := activeFor_amid s o w now delegate
  refine ⟨j, ?_⟩
  show (Except.map _ ((s.activeFor o.backend now delegate).run w).1,
    ((s.activeFor o.backend now delegate).run w).2) = _
  rw [hj]
  rfl

/-- A question whether something is permitted, over the memory itself. -/
theorem permits_run (s : Service) (w : Memory) (now : Moment) (delegate resource action : String) :
    ∃ j, (s.permits Memory.backend now delegate resource action).run w =
      (.ok ((s.held w now delegate).any (·.scope.includes resource action)),
        { w with cache := s.cacheAfter w now delegate }.noted j) :=
  permits_amid s {} w now delegate resource action

end Service

end Clearance.Delegation
