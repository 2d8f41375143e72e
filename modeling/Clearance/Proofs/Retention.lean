import Clearance.Proofs.Delegation.Lookup
import Clearance.Proofs.Delegation.Run
import Clearance.Proofs.Time.Span
import Clearance.Retention

/-!
# The retention worker keeps the store young

A worker that is started at some time and sleeps exactly as long as it means to makes a pass, waits for
its interval, and makes the next. In between anything may be asked of the service, at any time and any
number of times; a `Timed` run says how worker, service and time go on together, under one clock.

Each row is judged by the pass before: it was not over then, or not for longer than the retention
period, or it was granted or revoked since. So whenever it is over, it has been since no earlier than
the retention period before that pass (`NotBefore`). That survives all that can be done to a row, also
a revocation after the end, which moves the time since which the row is over, but only to later. The
next pass comes one interval after the last, so nothing on record has been over for longer than the
retention period and the interval (`bounded_age`). What is active is never removed.
-/

namespace Clearance

open Time (Instant Span)

namespace Delegation

/-- Whether a delegation, if it is over at a time or later, has not been since before a limit. -/
def NotBefore (d : Delegation) (p limit : Instant) : Prop :=
  ∀ t since, p ≤ t → d.terminalSince t = some since → limit ≤ since

variable {d : Delegation} {p now limit : Instant}

/-- What a row says once it is on record as over, whatever the time. -/
theorem terminalSince_of_ne_active (h : d.status ≠ .active) (t t' : Instant) :
    d.terminalSince t = d.terminalSince t' := by
  have hstate : ∀ t, d.stateAt t = d.status := by
    intro t
    unfold stateAt
    rw [if_neg fun hboth => h (by simpa using (Bool.and_eq_true_iff.1 hboth).1)]
  unfold terminalSince
  rw [hstate, hstate]

/-- A row that is on record as active is over from its end on. -/
theorem terminalSince_of_active (h : d.status = .active) {t since : Instant}
    (hsince : d.terminalSince t = some since) :
    d.expiresAt = some since ∧ since ≤ t := by
  unfold terminalSince stateAt isExpiredAt at hsince
  rw [h] at hsince
  cases hend : d.expiresAt with
  | none => simp [hend] at hsince
  | some e =>
    by_cases he : e ≤ t
    · simp only [hend, Option.any_some, he, decide_true, Bool.and_true] at hsince
      obtain rfl := Option.some.inj hsince
      exact ⟨rfl, he⟩
    · simp [hend, he] at hsince

/-- An active row that has run out has been over since its end. -/
theorem terminalSince_of_end (h : d.status = .active) {t since : Instant}
    (hend : d.expiresAt = some since) (hpast : since ≤ t) : d.terminalSince t = some since := by
  unfold terminalSince stateAt isExpiredAt
  rw [h, hend, Option.any_some, decide_eq_true hpast]
  rfl

/-- What a cleanup leaves has not been over for the retention period. -/
theorem notBefore_of_not_isOverdue {r : Span} (h : Store.isOverdue r p d = false) :
    d.NotBefore p (p.minus r) := by
  intro t since ht hsince
  have hkept : ∀ {since}, d.terminalSince p = some since → p.minus r ≤ since := by
    intro since hover
    unfold Store.isOverdue at h
    rw [hover, Option.any_some, decide_eq_false_iff_not, Instant.le_def] at h
    rw [Instant.le_def]
    omega
  by_cases hstatus : d.status = .active
  · obtain ⟨hend, -⟩ := terminalSince_of_active hstatus hsince
    by_cases hpast : since ≤ p
    · -- it was over already, and its end has not moved
      exact hkept (terminalSince_of_end hstatus hend hpast)
    · -- it has ended since, which is soon enough for any period
      have hle := Instant.minus_le p r
      rw [Instant.le_def] at hpast hle ⊢
      omega
  · rw [terminalSince_of_ne_active hstatus t p] at hsince
    exact hkept hsince

/-- What is granted ends after it was granted, if it ends. -/
theorem notBefore_granted {q : Proposal} (h : q.check now = .ok ()) (id : Uuid)
    (hlimit : limit ≤ now) : (q.granted id now).NotBefore p limit := by
  intro t since _ hsince
  obtain ⟨hend, -⟩ := terminalSince_of_active rfl hsince
  change q.expiresAt = some since at hend
  have hlate : ¬ since ≤ now := by
    intro hle
    unfold Proposal.check at h
    rw [hend] at h
    dsimp only at h
    split at h
    next => exact absurd h (by simp)
    next =>
      split at h
      next => exact absurd h (by simp)
      next =>
        split at h
        next => exact absurd h (by simp)
        next => exact absurd h (by simp)
  rw [Instant.le_def] at hlimit hlate ⊢
  omega

/-- What is revoked is over from then on, even if it had been over before. -/
theorem notBefore_revokedRow (h : d.status ≠ .revoked) (hlimit : limit ≤ now) :
    (Store.revokedRow d now).NotBefore p limit := by
  intro t since _ hsince
  rw [Store.revokedRow, if_neg h] at hsince
  obtain rfl : now = since := Option.some.inj hsince
  exact hlimit

/-- Whether no row that is ever over has been since before a limit. -/
def Store.NotBefore (s : Store) (p limit : Instant) : Prop := ∀ d ∈ s.rows, d.NotBefore p limit

/-- **No operation puts a row on record that was over too early.** -/
theorem Service.Changes.notBefore {s : Service} {w : Memory} {now : Moment} {store : Store}
    (h : Changes s w now store) (hrows : w.delegations.NotBefore p limit)
    (hlimit : limit ≤ now.time) : store.NotBefore p limit := by
  intro d hd
  cases h with
  | same => exact hrows d hd
  | @grant id q _ hverdict hcreate =>
    obtain ⟨-, rfl⟩ := Store.create_cases hcreate
    rcases List.mem_append.1 hd with hold | hnew
    · exact hrows d hold
    · rw [List.mem_singleton.1 hnew]
      exact notBefore_granted (verdict_ok_iff.1 hverdict).1 id hlimit
  | @revoke id row hrow hstatus =>
    obtain ⟨old, hold, rfl⟩ := List.mem_map.1 hd
    split
    next => exact notBefore_revokedRow hstatus hlimit
    next => exact hrows old hold
  | cleanup => exact hrows d (List.mem_filter.1 hd).1

/-- A cleanup leaves only rows that have not been over for the retention period. -/
theorem Store.notBefore_cleanup (s : Store) (r : Span) (now : Instant) :
    (s.cleanup r now).2.NotBefore now (now.minus r) := by
  intro d hd
  obtain ⟨-, hkept⟩ := List.mem_filter.1 hd
  exact notBefore_of_not_isOverdue (by simpa using hkept)

end Delegation

namespace Retention

open Delegation (Memory Op Service)

variable {s : Service} {r : Retention} {origin t : Instant} {worker : Worker} {w : Memory}

/-! ## Single passes -/

/-- A pass of the worker does what a cleanup does. -/
theorem pass_run (w : Memory) (now : Moment) :
    (pass Memory.backend now).run w =
      ((), { w with delegations := (w.delegations.cleanup w.retention now.time).2 }.noted
        [.count .cleaned (w.delegations.cleanup w.retention now.time).1]) := rfl

/-- Only a worker that is wanted is started, and its first pass is made at once. -/
theorem start_run (r : Retention) (w : Memory) (now : Moment) (clock : Nat) :
    (r.start Memory.backend now clock).run w =
      if r.enabled then
        (some ⟨r.interval, clock + r.interval⟩, ((pass Memory.backend now).run w).2)
      else (none, w) := by
  unfold start
  cases r.enabled <;> rfl

/-- A worker makes a pass when it is due. -/
theorem wake_run (worker : Worker) (w : Memory) (now : Moment) (clock : Nat) :
    (worker.wake Memory.backend now clock).run w =
      if worker.due ≤ clock then
        ({ worker with due := clock + worker.interval }, ((pass Memory.backend now).run w).2)
      else (worker, w) := by
  unfold Worker.wake
  split <;> rfl

/-- **What is active is not removed** by a pass. -/
theorem mem_of_pass {d : Delegation} {now : Moment} (hd : d ∈ w.delegations.rows)
    (hactive : d.isActiveAt now.time = true) :
    d ∈ ((pass Memory.backend now).run w).2.delegations.rows := by
  rw [pass_run]
  refine List.mem_filter.2 ⟨hd, ?_⟩
  cases hover : Delegation.Store.isOverdue w.retention now.time d with
  | false => rfl
  | true =>
    rw [Delegation.Store.not_isActiveAt_of_isOverdue hover] at hactive
    exact absurd hactive (by decide)

/-! ## Timed runs -/

/-- A time, a worker and a memory that a run comes to. The worker's clock counts seconds from some
instant. Until the worker is due, time may pass, and anything may be asked of the service at any time;
when the worker is due, time does not pass before it has made its pass. -/
inductive Timed (s : Service) (r : Retention) (origin : Instant) :
    Instant → Worker → Memory → Prop
  /-- The worker is started, whatever is on record. -/
  | start (w : Memory) (clock uptime : Nat) {worker : Worker}
      (hstart : ((r.start Memory.backend ⟨origin.plusSeconds clock, uptime⟩ clock).run w).1 =
        some worker) :
      Timed s r origin (origin.plusSeconds clock) worker
        ((r.start Memory.backend ⟨origin.plusSeconds clock, uptime⟩ clock).run w).2
  /-- Something is asked of the service. -/
  | operate {t : Instant} {worker : Worker} {w : Memory} (h : Timed s r origin t worker w)
      (uptime : Nat) (op : Op) : Timed s r origin t worker (s.step w (⟨t, uptime⟩, op))
  /-- The worker sees what time it is. -/
  | wake {worker : Worker} {w : Memory} {clock : Nat}
      (h : Timed s r origin (origin.plusSeconds clock) worker w) (uptime : Nat) :
      Timed s r origin (origin.plusSeconds clock)
        ((worker.wake Memory.backend ⟨origin.plusSeconds clock, uptime⟩ clock).run w).1
        ((worker.wake Memory.backend ⟨origin.plusSeconds clock, uptime⟩ clock).run w).2
  /-- Time passes. -/
  | later {t t' : Instant} {worker : Worker} {w : Memory} (h : Timed s r origin t worker w)
      (ht : t ≤ t') (hdue : t' ≤ origin.plusSeconds worker.due) : Timed s r origin t' worker w

/-- What holds since the last pass, which was made at `p`. -/
structure SincePass (r : Retention) (origin p t : Instant) (worker : Worker) (w : Memory) : Prop where
  interval : worker.interval = r.interval
  due : origin.plusSeconds worker.due = p.plusSeconds r.interval
  passed : p ≤ t
  notPast : t ≤ p.plusSeconds r.interval
  young : w.delegations.NotBefore p (p.minus w.retention)

/-- Right after a pass, with a whole interval to go. -/
theorem sincePass_pass (w : Memory) (clock uptime : Nat) :
    SincePass r origin (origin.plusSeconds clock) (origin.plusSeconds clock)
      ⟨r.interval, clock + r.interval⟩
      ((pass Memory.backend ⟨origin.plusSeconds clock, uptime⟩).run w).2 := by
  refine ⟨rfl, ?_, Int.le_refl _, ?_, ?_⟩
  · rw [Instant.plusSeconds_plusSeconds]
  · rw [Instant.le_def, Instant.rank_plusSeconds _ r.interval]
    omega
  · rw [pass_run]
    exact w.delegations.notBefore_cleanup w.retention (origin.plusSeconds clock)

/-- No operation changes for how long rows stay on record. -/
theorem step_retention (s : Service) (w : Memory) (e : Moment × Op) :
    (s.step w e).retention = w.retention := by
  obtain ⟨j, hj⟩ := Delegation.Service.perform_run s w e.1 e.2
  unfold Service.step
  rw [hj]
  exact (Delegation.Service.left_frame s w e.1 e.2).2

/-- Every moment of a timed run has a last pass. The induction is on the run: an operation and time
keep the pass, and a pass that is due takes its place. -/
theorem Timed.sincePass (h : Timed s r origin t worker w) :
    ∃ p, SincePass r origin p t worker w := by
  induction h with
  | start w clock uptime hstart =>
    rw [start_run] at hstart ⊢
    split at hstart
    next henabled =>
      obtain rfl := Option.some.inj hstart
      rw [if_pos henabled]
      exact ⟨_, sincePass_pass w clock uptime⟩
    next => exact absurd hstart (by simp)
  | @operate t worker w _ uptime op ih =>
    obtain ⟨p, hp⟩ := ih
    refine ⟨p, hp.interval, hp.due, hp.passed, hp.notPast, ?_⟩
    rw [step_retention]
    refine (Delegation.Service.step_changes s w ⟨t, uptime⟩ op).notBefore hp.young ?_
    exact Int.le_trans (Instant.minus_le p w.retention) hp.passed
  | @wake worker w clock _ uptime ih =>
    obtain ⟨p, hp⟩ := ih
    rw [wake_run]
    split
    next hdue =>
      -- it is due just now, so the interval begins where it ends
      rw [hp.interval]
      exact ⟨_, sincePass_pass w clock uptime⟩
    next => exact ⟨p, hp⟩
  | later _ ht hdue ih =>
    -- no row changes, and the limit is set by the pass and not by the present
    obtain ⟨p, hp⟩ := ih
    refine ⟨p, hp.interval, hp.due, Int.le_trans hp.passed ht, ?_, hp.young⟩
    rw [← hp.due]
    exact hdue

/-- When the worker is due, it makes a pass and is due again an interval later. -/
theorem Timed.next (h : Timed s r origin t worker w) :
    ∃ w', Timed s r origin (origin.plusSeconds worker.due)
      ⟨r.interval, worker.due + r.interval⟩ w' := by
  obtain ⟨p, hp⟩ := h.sincePass
  have htime : t ≤ origin.plusSeconds worker.due := by
    rw [hp.due]
    exact hp.notPast
  have hwake := (h.later htime (Int.le_refl _)).wake 0
  rw [wake_run, if_pos (Nat.le_refl _), hp.interval] at hwake
  exact ⟨_, hwake⟩

/-- **Time is not held up** by a worker that pauses: every later time is reached, after as many passes
as are due. The induction is on how many intervals that time is away. -/
theorem Timed.reaches (hpause : 0 < r.interval) {t' : Instant} (ht : t ≤ t')
    (h : Timed s r origin t worker w) : ∃ worker' w', Timed s r origin t' worker' w' := by
  have hfar : ∀ n : Nat, ∀ {t worker w}, t ≤ t' → Timed s r origin t worker w →
      t' ≤ (origin.plusSeconds worker.due).plusSeconds (n * r.interval) →
      ∃ worker' w', Timed s r origin t' worker' w' := by
    intro n
    induction n with
    | zero =>
      intro t worker w ht h hwithin
      rw [Nat.zero_mul, Instant.plusSeconds_plusSeconds, Nat.add_zero] at hwithin
      exact ⟨worker, w, h.later ht hwithin⟩
    | succ n ih =>
      intro t worker w ht h hwithin
      by_cases hdue : t' ≤ origin.plusSeconds worker.due
      · exact ⟨worker, w, h.later ht hdue⟩
      · obtain ⟨w', hnext⟩ := h.next
        have hpast : origin.plusSeconds worker.due ≤ t' := by
          rw [Instant.le_def] at hdue ⊢
          omega
        refine ih hpast hnext ?_
        have hsum : worker.due + (n + 1) * r.interval = worker.due + r.interval + n * r.interval := by
          rw [Nat.succ_mul]
          omega
        rw [Instant.plusSeconds_plusSeconds, hsum] at hwithin
        rw [Instant.plusSeconds_plusSeconds]
        exact hwithin
  -- an interval is a second at least, so there are enough of them
  let gap := (t'.rank - (origin.plusSeconds worker.due).rank).toNat
  refine hfar gap ht h ?_
  have hlong : gap * 1 ≤ gap * r.interval := Nat.mul_le_mul_left gap hpause
  rw [Instant.le_def, Instant.rank_plusSeconds]
  omega

/-- **Nothing on record has been over for longer** than the retention period and the interval, however
long they are, at any time after the first pass; and no pass removes what is active. -/
theorem bounded_age (h : Timed s r origin t worker w) :
    (t.Steady w.retention → ∀ d ∈ w.delegations.rows, ∀ since, d.terminalSince t = some since →
      (t.minus w.retention).minusSeconds r.interval ≤ since) ∧
    ∀ (w' : Memory) (now : Moment), ∀ d ∈ w'.delegations.rows, d.isActiveAt now.time = true →
      d ∈ ((pass Memory.backend now).run w').2.delegations.rows := by
  obtain ⟨p, hp⟩ := h.sincePass
  refine ⟨fun hsteady d hd since hsince => ?_, fun w' now d hd hactive => mem_of_pass hd hactive⟩
  have hlimit := hp.young d hd t since hp.passed hsince
  exact Int.le_trans (Instant.minus_minusSeconds_le hsteady hp.notPast) hlimit

/-- A pass every hour. -/
def hourly : Retention := { enabled := true, intervalHours := 1 }

/-- The start of time. -/
def epoch : Instant := (Delegation.second 0).time

/-- Ten and a half minutes, and half a second. -/
def aWhile : Span := { seconds := 630, nanos := 500000000 }

/-- What alice may hand on, until some time. -/
def lease (delegate : String) (expiresAt : Option Instant) : Delegation.Proposal :=
  { delegator := "alice", delegate, scope := ⟨["*"], ["read"], none⟩, expiresAt }

/-- A worker is started on an empty store that keeps what is over for a while. Bob has a lease of forty
minutes, dave one of fifty, and carol one without end. -/
def leased : Memory :=
  Service.after {}
    ((hourly.start Memory.backend ⟨epoch.plusSeconds 0, 0⟩ 0).run { retention := aWhile }).2
    [(⟨epoch.plusSeconds 0, 0⟩,
        .policies (PolicyStore.empty.put "main" (.ofRules [.allow "alice" "*" "*"]) false)),
      (⟨epoch.plusSeconds 0, 0⟩, .grant ⟨1⟩ (lease "bob" (some (epoch.plusSeconds 2400)))),
      (⟨epoch.plusSeconds 0, 0⟩, .grant ⟨2⟩ (lease "dave" (some (epoch.plusSeconds 3000)))),
      (⟨epoch.plusSeconds 0, 0⟩, .grant ⟨3⟩ (lease "carol" none))]

/-- The leases are granted at the time at which the worker is started. -/
theorem leased_timed : Timed {} hourly epoch (epoch.plusSeconds 0) ⟨3600, 3600⟩ leased := by
  have hstart : Timed {} hourly epoch (epoch.plusSeconds 0) ⟨3600, 3600⟩
      ((hourly.start Memory.backend ⟨epoch.plusSeconds 0, 0⟩ 0).run { retention := aWhile }).2 :=
    .start _ 0 0 rfl
  exact (((hstart.operate 0 _).operate 0 _).operate 0 _).operate 0 _

/-- Carol's lease is revoked an hour later, right after the pass. -/
def revokedAfterPass : Memory :=
  Service.step {}
    ((Worker.wake ⟨3600, 3600⟩ Memory.backend ⟨epoch.plusSeconds 3600, 0⟩ 3600).run leased).2
    (⟨epoch.plusSeconds 3600, 0⟩, .revoke ⟨3⟩)

/-- The memory is what the run has come to well before the worker is due again. -/
theorem revokedAfterPass_timed :
    Timed {} hourly epoch (epoch.plusSeconds 5000) ⟨3600, 7200⟩ revokedAfterPass := by
  have hdue : Timed {} hourly epoch (epoch.plusSeconds 3600) ⟨3600, 3600⟩ leased :=
    leased_timed.later (by decide) (by decide)
  have hpass : Timed {} hourly epoch (epoch.plusSeconds 3600) ⟨3600, 7200⟩
      ((Worker.wake ⟨3600, 3600⟩ Memory.backend ⟨epoch.plusSeconds 3600, 0⟩ 3600).run leased).2 :=
    hdue.wake 0
  exact (hpass.operate 0 (.revoke ⟨3⟩)).later (by decide) (by decide)

/-- Bob's lease has been removed, and dave's had not been over for long enough. -/
theorem revokedAfterPass_bounded :
    Timed {} hourly epoch (epoch.plusSeconds 5000) ⟨3600, 7200⟩ revokedAfterPass ∧
      revokedAfterPass.delegations.rows.map (·.terminalSince (epoch.plusSeconds 5000)) =
        [some (epoch.plusSeconds 3000), some (epoch.plusSeconds 3600)] ∧
      (epoch.plusSeconds 5000).Steady revokedAfterPass.retention ∧
      ∀ d ∈ revokedAfterPass.delegations.rows, ∀ since,
        d.terminalSince (epoch.plusSeconds 5000) = some since →
        ((epoch.plusSeconds 5000).minus revokedAfterPass.retention).minusSeconds
          hourly.interval ≤ since :=
  have hsteady : (epoch.plusSeconds 5000).Steady revokedAfterPass.retention := .inl (by decide)
  ⟨revokedAfterPass_timed, by decide +kernel, hsteady, (bounded_age revokedAfterPass_timed).1 hsteady⟩

end Retention

end Clearance
