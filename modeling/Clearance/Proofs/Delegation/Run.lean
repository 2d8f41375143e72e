import Clearance.Proofs.Delegation.Service
import Mathlib.Data.List.Induction

/-!
# Runs of a service

A run is any number of operations, one after another, each at a moment of its own; in between the
policies may be replaced by others. `Service.after` is the memory that a run leaves behind.

`Service.perform_run` tells each operation without its monad, as an answer (`reply`) and the memory
that it leaves (`left`); `perform_amid` does so where calls of the cache fail. Most arguments need to
know even less of a step, only how it changes what is delegated, and there are four ways:
`Service.Changes`. None of them makes anything active that was not granted just then (`Known.left`).
What holds of every run is proved once, in `after_induction`: a statement about an instant and a memory
that stays true while time passes and through each single operation is true of whatever a run leads to,
if the clock never goes back.
-/

namespace Clearance.Delegation

open Time (Instant)

/-- What can be asked of a service, and a change of the policies from outside. -/
inductive Op where
  | grant (id : Uuid) (p : Proposal)
  | revoke (id : Uuid)
  | cleanup
  | find (id : Uuid)
  | activeFor (delegate : String)
  | permits (delegate resource action : String)
  | policies (store : PolicyStore)

/-- What an operation answers. -/
inductive Answer where
  | granted (r : Except Refusal Delegation)
  | found (r : Except Refusal (Option Delegation))
  | listed (r : Except Refusal (List Delegation))
  | permitted (r : Except Refusal Bool)
  | cleaned (r : Except Refusal Nat)
  | done

namespace Service

variable {s : Service} {w : Memory} {now : Moment}

/-- An operation, over some backend. -/
def performOn (s : Service) (b : Backend (StateM Memory)) (now : Moment) : Op → StateM Memory Answer
  | .grant id p => .granted <$> s.grant b now id p
  | .revoke id => .found <$> s.revoke b now id
  | .cleanup => .cleaned <$> cleanup b now
  | .find id => .found <$> find b id
  | .activeFor delegate => .listed <$> s.activeFor b now delegate
  | .permits delegate resource action => .permitted <$> s.permits b now delegate resource action
  | .policies store => do
    modify fun w => { w with policies := store }
    return .done

def perform (s : Service) (now : Moment) (op : Op) : StateM Memory Answer :=
  s.performOn Memory.backend now op

/-- What an operation answers, told without the monads. -/
def reply (s : Service) (w : Memory) (now : Moment) : Op → Answer
  | .grant id p => .granted ((s.outcome w now id p).map fun _ => p.granted id now.time)
  | .revoke id => .found (.ok ((w.delegations.find id).map (Store.revokedRow · now.time)))
  | .cleanup => .cleaned (.ok (w.delegations.cleanup w.retention now.time).1)
  | .find id => .found (.ok (w.delegations.find id))
  | .activeFor delegate => .listed (.ok (s.held w now delegate))
  | .permits delegate resource action =>
    .permitted (.ok ((s.held w now delegate).any (·.scope.includes resource action)))
  | .policies _ => .done

/-- The memory after an operation, but for what goes on record. -/
def left (s : Service) (w : Memory) (now : Moment) : Op → Memory
  | .grant id p =>
    match s.outcome w now id p with
    | .error _ => w
    | .ok store => s.storing w store p.delegate
  | .revoke id =>
    match w.delegations.find id with
    | none => w
    | some d =>
      if d.status = .revoked then w
      else s.storing w (w.delegations.replace (Store.revokedRow d now.time)) d.delegate
  | .cleanup =>
    { w with delegations := (w.delegations.cleanup w.retention now.time).2 }
  | .find _ => w
  | .activeFor delegate => { w with cache := s.cacheAfter w now delegate }
  | .permits delegate _ _ => { w with cache := s.cacheAfter w now delegate }
  | .policies store => { w with policies := store }

/-- No operation touches what is on record by itself, or for how long delegations stay. -/
theorem left_frame (s : Service) (w : Memory) (now : Moment) (op : Op) :
    (s.left w now op).journal = w.journal ∧
      (s.left w now op).retention = w.retention := by
  cases op with
  | grant id p =>
    rw [left]
    cases s.outcome w now id p <;> exact ⟨rfl, rfl⟩
  | revoke id =>
    rw [left]
    cases w.delegations.find id with
    | none => exact ⟨rfl, rfl⟩
    | some d =>
      dsimp only
      split <;> exact ⟨rfl, rfl⟩
  | _ => exact ⟨rfl, rfl⟩

/-- The memory after an operation in the course of which calls of the cache fail, but for what goes on
record. -/
def leftAmid (s : Service) (o : Outage) (w : Memory) (now : Moment) : Op → Memory
  | .grant id p => (s.droppingAmid o).left w now (.grant id p)
  | .revoke id => (s.droppingAmid o).left w now (.revoke id)
  | .activeFor delegate => { w with cache := s.cacheAmid o w now delegate }
  | .permits delegate _ _ => { w with cache := s.cacheAmid o w now delegate }
  | op => s.left w now op

/-- What each operation answers and leaves behind, whatever fails of the cache. -/
theorem perform_amid (s : Service) (o : Outage) (w : Memory) (now : Moment) (op : Op) :
    ∃ j, (s.performOn o.backend now op).run w =
      ((s.readingAmid o).reply w now op, (s.leftAmid o w now op).noted j) := by
  cases op with
  | grant id p =>
    obtain ⟨j, hj⟩ := grant_amid s o w now id p
    have houtcome : (s.readingAmid o).outcome w now id p = s.outcome w now id p := rfl
    have houtcome' : (s.droppingAmid o).outcome w now id p = s.outcome w now id p := rfl
    refine ⟨j, ?_⟩
    rw [performOn, StateT.run_map, hj, reply, leftAmid, left, houtcome, houtcome']
    cases s.outcome w now id p <;> rfl
  | revoke id =>
    rw [performOn, StateT.run_map, revoke_amid, reply, leftAmid, left]
    cases w.delegations.find id with
    | none => exact ⟨[], by rw [Memory.noted_nil]; rfl⟩
    | some d =>
      dsimp only
      split
      next hstatus =>
        refine ⟨[], ?_⟩
        rw [Memory.noted_nil, Option.map_some, Store.revokedRow, if_pos hstatus]
        rfl
      next => exact ⟨_, rfl⟩
  | cleanup => exact ⟨_, rfl⟩
  | find id => exact ⟨[], by rw [Memory.noted_nil]; rfl⟩
  | activeFor delegate =>
    obtain ⟨j, hj⟩ := activeFor_amid s o w now delegate
    refine ⟨j, ?_⟩
    rw [performOn, StateT.run_map, hj]
    rfl
  | permits delegate resource action =>
    obtain ⟨j, hj⟩ := permits_amid s o w now delegate resource action
    refine ⟨j, ?_⟩
    rw [performOn, StateT.run_map, hj]
    rfl
  | policies store => exact ⟨[], by rw [Memory.noted_nil]; rfl⟩

/-- What each operation answers and leaves behind. -/
theorem perform_run (s : Service) (w : Memory) (now : Moment) (op : Op) :
    ∃ j, (s.perform now op).run w = (s.reply w now op, (s.left w now op).noted j) := by
  obtain ⟨j, hj⟩ := perform_amid s {} w now op
  refine ⟨j, hj.trans ?_⟩
  cases op <;> rfl

/-- Only a grant that passes all checks grants anything. -/
theorem granted_of_reply {op : Op} {d : Delegation} (h : s.reply w now op = .granted (.ok d)) :
    ∃ id p, op = .grant id p ∧ s.verdict w now p = .ok () ∧ d = p.granted id now.time := by
  cases op with
  | grant id p =>
    rw [reply] at h
    cases hout : s.outcome w now id p with
    | error e =>
      rw [hout] at h
      exact absurd (Answer.granted.inj h) (by simp [Except.map])
    | ok store =>
      rw [hout] at h
      exact ⟨id, p, rfl, (outcome_ok_iff.1 hout).1, (Except.ok.inj (Answer.granted.inj h)).symm⟩
  | _ => exact Answer.noConfusion h

/-- The memory after one operation. -/
def step (s : Service) (w : Memory) (e : Moment × Op) : Memory := ((s.perform e.1 e.2).run w).2

/-- The memory after a run. -/
def after (s : Service) (w : Memory) (ops : List (Moment × Op)) : Memory := ops.foldl s.step w

/-- The last operation of a run finds what the run up to it has left. -/
theorem after_append (ops : List (Moment × Op)) (e : Moment × Op) :
    s.after w (ops ++ [e]) = s.step (s.after w ops) e := by
  unfold after
  rw [List.foldl_append]
  rfl

/-- What one operation can make of what is delegated. -/
inductive Changes (s : Service) (w : Memory) (now : Moment) : Store → Prop
  | same : Changes s w now w.delegations
  | grant {id : Uuid} {p : Proposal} {store : Store} (hverdict : s.verdict w now p = .ok ())
      (hcreate : w.delegations.create (p.granted id now.time) = .ok store) : Changes s w now store
  | revoke {id : Uuid} {d : Delegation} (hrow : w.delegations.find id = some d)
      (hstatus : d.status ≠ .revoked) :
      Changes s w now (w.delegations.replace (Store.revokedRow d now.time))
  | cleanup : Changes s w now (w.delegations.cleanup w.retention now.time).2

/-- What an operation leaves of the delegations is one of four things. -/
theorem left_changes (s : Service) (w : Memory) (now : Moment) (op : Op) :
    Changes s w now (s.left w now op).delegations := by
  cases op with
  | grant id p =>
    rw [left]
    cases h : s.outcome w now id p with
    | error e => exact .same
    | ok store =>
      obtain ⟨hverdict, hcreate⟩ := outcome_ok_iff.1 h
      exact .grant hverdict hcreate
  | revoke id =>
    rw [left]
    cases hrow : w.delegations.find id with
    | none => exact .same
    | some d =>
      dsimp only
      split
      next => exact .same
      next hstatus => exact .revoke hrow hstatus
  | cleanup => exact .cleanup
  | find id => exact .same
  | activeFor delegate => exact .same
  | permits delegate resource action => exact .same
  | policies store => exact .same

/-- A step is one of the four changes. -/
theorem step_changes (s : Service) (w : Memory) (now : Moment) (op : Op) :
    Changes s w now (s.step w (now, op)).delegations := by
  obtain ⟨j, hj⟩ := perform_run s w now op
  unfold step
  rw [hj]
  exact left_changes s w now op

/-- The store and its index agree after each operation if they did before. -/
theorem Changes.indexed {store : Store} (h : Changes s w now store) (hi : w.delegations.Indexed) :
    store.Indexed := by
  cases h with
  | same => exact hi
  | grant hverdict hcreate => exact hi.create hcreate
  | revoke hrow hstatus => exact hi.replace_revokedRow hrow now.time
  | cleanup => exact hi.cleanup ..

/-- Whether whatever is on record as active is known. -/
def Known (known : List Delegation) (w : Memory) : Prop :=
  ∀ d ∈ w.delegations.rows, d.status = .active → d ∈ known

/-- What is active on record is known. -/
theorem Known.of_isActiveAt {known : List Delegation} (h : Known known w) {d : Delegation}
    {t : Instant} (hrow : d ∈ w.delegations.rows) (hactive : d.isActiveAt t = true) : d ∈ known :=
  h d hrow (by simpa using (Bool.and_eq_true_iff.1 hactive).1)

/-- What is active after an operation was so before or is what the operation grants. -/
theorem Known.left {known : List Delegation} (h : Known known w) {op : Op}
    (hop : ∀ d, s.reply w now op = .granted (.ok d) → d ∈ known) :
    Known known (s.left w now op) := by
  cases op with
  | grant id p =>
    rw [Service.left]
    cases hout : s.outcome w now id p with
    | error e => exact h
    | ok store =>
      obtain ⟨-, hcreate⟩ := outcome_ok_iff.1 hout
      obtain ⟨-, rfl⟩ := Store.create_cases hcreate
      intro d hd hstatus
      rcases List.mem_append.1 hd with hold | hnew
      · exact h d hold hstatus
      · rw [List.mem_singleton.1 hnew]
        exact hop _ (by rw [reply, hout]; rfl)
  | revoke id =>
    rw [Service.left]
    cases w.delegations.find id with
    | none => exact h
    | some row =>
      dsimp only
      split
      next => exact h
      next =>
        intro d hd hstatus
        obtain ⟨old, hold, rfl⟩ := List.mem_map.1 hd
        split at hstatus
        next => exact absurd (hstatus.symm.trans (Store.revokedRow_status ..)) (by decide)
        next hid =>
          rw [if_neg hid]
          exact h old hold hstatus
  | cleanup =>
    intro d hd hstatus
    exact h d (List.mem_filter.1 hd).1 hstatus
  | find id => exact h
  | activeFor delegate => exact h
  | permits delegate resource action => exact h
  | policies store => exact h

/-- What is known stays known when more is. -/
theorem Known.mono {known known' : List Delegation} (h : Known known w) (hsub : known ⊆ known') :
    Known known' w :=
  fun d hd hstatus => hsub (h d hd hstatus)

/-- What holds of a run of steps of some kind. The induction is on the run from its end: the last step
finds what the run up to its moment has led to. -/
theorem foldl_induction {E : Type} (time : E → Instant) {step : Memory → E → Memory}
    {I : Instant → Memory → Prop} {ops : List E}
    (later : ∀ {t t' w}, t ≤ t' → I t w → I t' w)
    (hstep : ∀ {w}, ∀ e ∈ ops, I (time e) w → I (time e) (step w e))
    (start : ∀ t, I t w) (hclock : ops.Pairwise (time · ≤ time ·))
    {t : Instant} (ht : ∀ e ∈ ops, time e ≤ t) : I t (ops.foldl step w) := by
  induction ops using List.reverseRecOn generalizing t with
  | nil => exact start t
  | append_singleton ops e ih =>
    obtain ⟨hbefore, -, hlast⟩ := List.pairwise_append.1 hclock
    rw [List.foldl_append]
    refine later (ht e (by simp)) (hstep e (by simp) (ih ?_ hbefore fun e' he' => ?_))
    · exact fun e' he' => hstep e' (List.mem_append_left _ he')
    · exact hlast e' he' e (List.mem_singleton.2 rfl)

/-- **What holds of every run**, whatever its operations are. -/
theorem after_induction {I : Instant → Memory → Prop}
    (later : ∀ {t t' w}, t ≤ t' → I t w → I t' w)
    (step : ∀ {w} e, I e.1.time w → I e.1.time (s.step w e))
    (start : ∀ t, I t w) {ops : List (Moment × Op)} (hclock : ops.Pairwise (·.1.time ≤ ·.1.time))
    {t : Instant} (ht : ∀ e ∈ ops, e.1.time ≤ t) : I t (s.after w ops) :=
  foldl_induction (I := I) (fun e => e.1.time) later (fun e _ => step e) start hclock ht

end Service

end Clearance.Delegation
