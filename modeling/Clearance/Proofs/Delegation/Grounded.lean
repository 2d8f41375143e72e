import Clearance.Proofs.Delegation.Run
import Clearance.Proofs.Scope
import Mathlib.Data.List.Chain

/-!
# Delegated authority comes from somewhere

Nobody can hand on what nobody ever held: behind every pair of a granted scope stands a chain of
earlier grants, each of which could be handed on and was active when the next was granted, back to a
pair that the policies of the time allowed (`grounded`). Rows on it may have run out, been revoked
or been cleaned up since, and the policies may have changed.

A single grant has only looked one step back: each of its pairs was allowed by the policies or lay
in a scope that was held by delegation at that moment (`Supported`). What was held then was active,
and what is active has never been changed since it was granted, so it is itself a grant of the run
(`Known`). The chain follows by induction on how many grants came before (`exists_chain`).
-/

namespace Clearance.Delegation

open Time (Instant)

/-- A delegation as it was granted, when, and what there was in memory just before. -/
structure Grant where
  row : Delegation
  now : Moment
  before : Memory

/-- A grant and a pair of patterns of its scope. -/
structure Link where
  grant : Grant
  pair : Pair

namespace Link

/-- Whether the policies of the time allowed the pair, read as plain text, to the delegator. -/
def Allowed (e : Evaluator) (l : Link) : Prop :=
  e.effect (l.grant.before.policies.policiesFor { id := l.grant.row.delegator })
    (pairRequest { id := l.grant.row.delegator } l.grant.row.scope.context l.pair) = .allow

/-- Whether one grant gave the delegator of the next what the next hands on. -/
structure Backs (l next : Link) : Prop where
  inScope : l.pair ∈ l.grant.row.scope.pairs
  /-- It could be handed on. -/
  transitive : l.grant.row.transitive = true
  /-- It was on record and active when the next was granted. -/
  onRecord : l.grant.row ∈ next.grant.before.delegations.rows
  active : l.grant.row.isActiveAt next.grant.now.time = true
  delegate : l.grant.row.delegate = next.grant.row.delegator
  /-- Its pair accepts that of the next as plain text. -/
  resource : Glob.accepts l.pair.1 next.pair.1 = true
  action : Glob.accepts l.pair.2 next.pair.2 = true

end Link

/-- Whether each pair of a grant was allowed by policy or is backed by one of some grants. -/
def Supported (e : Evaluator) (earlier : List Grant) (g : Grant) : Prop :=
  ∀ pair ∈ g.row.scope.pairs,
    Link.Allowed e ⟨g, pair⟩ ∨ ∃ g' ∈ earlier, ∃ pair', Link.Backs ⟨g', pair'⟩ ⟨g, pair⟩

/-- In a log in which the earlier grants support each grant, a chain leads back from every pair of a
grant to one that was allowed by policy. -/
theorem exists_chain {e : Evaluator} {log : List Grant}
    (hlog : ∀ earlier g later, log = earlier ++ g :: later → Supported e earlier g)
    {earlier later : List Grant} {g : Grant} (hg : log = earlier ++ g :: later) {pair : Pair}
    (hpair : pair ∈ g.row.scope.pairs) :
    ∃ chain : List Link, (chain.map (·.grant)).Sublist earlier ∧
      (chain ++ [Link.mk g pair]).IsChain Link.Backs ∧
      ∃ first, (chain ++ [Link.mk g pair]).head? = some first ∧ first.Allowed e := by
  induction hn : earlier.length using Nat.strongRecOn generalizing earlier later g pair with
  | ind n ih =>
    rcases hlog earlier g later hg pair hpair with hallowed | ⟨g', hg', pair', hbacks⟩
    · exact ⟨[], List.nil_sublist _, List.isChain_singleton _, _, rfl, hallowed⟩
    · -- the grant that backs this one came earlier, so it has a chain already
      obtain ⟨front, back, rfl⟩ := List.append_of_mem hg'
      have hlog' : log = front ++ g' :: (back ++ g :: later) := by
        rw [hg, List.append_assoc, List.cons_append]
      have hshorter : front.length < n := by
        rw [← hn, List.length_append, List.length_cons]
        omega
      obtain ⟨chain, hsub, hchain, first, hfirst, hallowed⟩ :=
        ih front.length hshorter hlog' hbacks.inScope rfl
      refine ⟨chain ++ [⟨g', pair'⟩], ?_, ?_, first, ?_, hallowed⟩
      · rw [List.map_append]
        exact hsub.append ((List.nil_sublist back).cons_cons g')
      · refine List.isChain_append.2 ⟨hchain, List.isChain_singleton _, ?_⟩
        intro last hlast next hnext
        rw [List.getLast?_concat, Option.mem_some_iff] at hlast
        rw [List.head?_cons, Option.mem_some_iff] at hnext
        rw [← hlast, ← hnext]
        exact hbacks
      · rw [List.head?_append, hfirst]
        rfl

namespace Service

variable {s : Service} {w : Memory} {now : Moment}

/-- The grant that an operation makes, if it makes one. -/
def granted? (s : Service) (w : Memory) (e : Moment × Op) : Option Grant :=
  match ((s.perform e.1 e.2).run w).1 with
  | .granted (.ok row) => some ⟨row, e.1, w⟩
  | _ => none

/-- Every grant of a run, in order. -/
def grants (s : Service) (w : Memory) : List (Moment × Op) → List Grant
  | [] => []
  | e :: ops => (s.granted? w e).toList ++ grants s (s.step w e) ops

/-- A grant that is answered is on the list of grants. -/
theorem granted?_of_reply {op : Op} {d : Delegation}
    (h : s.reply w now op = .granted (.ok d)) : s.granted? w (now, op) = some ⟨d, now, w⟩ := by
  obtain ⟨j, hj⟩ := perform_run s w now op
  unfold granted?
  rw [hj, h]

/-- A grant has passed all checks. -/
theorem granted?_eq_some {op : Op} {g : Grant} (h : s.granted? w (now, op) = some g) :
    ∃ id p, s.verdict w now p = .ok () ∧ g = ⟨p.granted id now.time, now, w⟩ := by
  obtain ⟨j, hj⟩ := perform_run s w now op
  unfold granted? at h
  rw [hj] at h
  dsimp only at h
  split at h
  next row hreply =>
    obtain ⟨id, p, -, hverdict, rfl⟩ := granted_of_reply hreply
    exact ⟨id, p, hverdict, (Option.some.inj h).symm⟩
  next => exact absurd h (by simp)

/-- What passes is allowed by the policies or held by delegation. -/
theorem supported_of_verdict {log : List Grant} {id : Uuid} {p : Proposal}
    (hi : w.delegations.Indexed) (hknown : Known (log.map (·.row)) w)
    (hverdict : s.verdict w now p = .ok ()) :
    Supported s.validator.evaluator log ⟨p.granted id now.time, now, w⟩ := by
  intro pair hpair
  obtain ⟨-, -, hvalid⟩ := verdict_ok_iff.1 hverdict
  have hholds := Validator.verdict_ok_iff.1 hvalid pair hpair
  unfold Validator.holds at hholds
  rcases Bool.or_eq_true_iff.1 hholds with hpolicy | hdelegation
  · rw [givenByPolicy_fst, Bool.and_eq_true] at hpolicy
    exact .inl (Effect.isAllow_iff.1 hpolicy.1)
  · obtain ⟨d, hd, hincludes⟩ := List.any_eq_true.1 hdelegation
    obtain ⟨pair', hpair', hresource, haction⟩ := Scope.includes_iff.1 hincludes
    unfold Validator.heldByDelegation at hd
    split at hd
    next =>
      obtain ⟨hactive, htransitive⟩ := List.mem_filter.1 hd
      obtain ⟨hrow, hactive, hdelegate⟩ := hi.mem_activeFor.1 hactive
      obtain ⟨g, hg, rfl⟩ := List.mem_map.1 (hknown.of_isActiveAt hrow hactive)
      exact .inr ⟨g, hg, pair', hpair', htransitive, hrow, hactive, hdelegate, hresource, haction⟩
    next => exact absurd hd List.not_mem_nil

/-- What every run keeps, with the grants so far as its log: whatever is active was granted, and
every grant was supported by those before it. -/
structure Logged (s : Service) (log : List Grant) (w : Memory) : Prop where
  indexed : w.delegations.Indexed
  known : Known (log.map (·.row)) w
  supported : ∀ earlier g later, log = earlier ++ g :: later →
    Supported s.validator.evaluator earlier g

/-- A run that begins with an empty store begins with an empty log. -/
theorem logged_of_empty (h : w.delegations = .empty) : Logged s [] w := by
  refine ⟨?_, ?_, fun earlier g later hlog => ?_⟩
  · rw [h]
    exact Store.indexed_empty
  · intro d hd
    rw [h] at hd
    exact absurd hd List.not_mem_nil
  · exact absurd hlog.symm (List.append_ne_nil_of_right_ne_nil _ (List.cons_ne_nil _ _))

/-- Each step adds to the log what it grants, and nothing else comes on record. -/
theorem Logged.step {log : List Grant} (h : Logged s log w) (e : Moment × Op) :
    Logged s (log ++ (s.granted? w e).toList) (s.step w e) := by
  obtain ⟨now, op⟩ := e
  refine ⟨(step_changes s w now op).indexed h.indexed, ?_, ?_⟩
  · have hmore : Known ((log ++ (s.granted? w (now, op)).toList).map (·.row)) w := by
      refine h.known.mono ?_
      rw [List.map_append]
      exact List.subset_append_left ..
    obtain ⟨j, hj⟩ := perform_run s w now op
    unfold Service.step
    rw [hj]
    refine hmore.left fun d hd => ?_
    rw [granted?_of_reply hd]
    simp
  · cases hgranted : s.granted? w (now, op) with
    | none => simpa using h.supported
    | some new =>
      intro earlier g later hlog
      rcases List.eq_nil_or_concat later with rfl | ⟨later, last, rfl⟩
      · -- the grant just made, with the whole log before it
        obtain ⟨rfl, hlast⟩ := List.append_inj' hlog rfl
        obtain ⟨id, p, hverdict, rfl⟩ := granted?_eq_some hgranted
        rw [← (List.cons.inj hlast).1]
        exact supported_of_verdict h.indexed h.known hverdict
      · rw [List.concat_eq_append, ← List.cons_append, ← List.append_assoc] at hlog
        exact h.supported earlier g later (List.append_inj' hlog rfl).1

/-- Along a run the log grows by what the run grants. -/
theorem Logged.after {ops : List (Moment × Op)} {log : List Grant} {w : Memory}
    (h : Logged s log w) : Logged s (log ++ s.grants w ops) (s.after w ops) := by
  induction ops generalizing log w with
  | nil => simpa [grants, Service.after] using h
  | cons e ops ih =>
    rw [grants, ← List.append_assoc]
    exact ih (h.step e)

/-- **Delegated authority is always grounded.** Behind every pair of whatever a run on an empty
store grants stands a chain of grants made before, in order, each of which backs the next, and the
first of its pairs was allowed by the policies when it was granted. The policies may change at any
point of the run, and what is on the chain need not last. -/
theorem grounded (s : Service) {w : Memory} (hempty : w.delegations = .empty)
    {ops : List (Moment × Op)} {earlier later : List Grant} {g : Grant}
    (hg : s.grants w ops = earlier ++ g :: later) {pair : Pair}
    (hpair : pair ∈ g.row.scope.pairs) :
    ∃ chain : List Link, (chain.map (·.grant)).Sublist earlier ∧
      (chain ++ [Link.mk g pair]).IsChain Link.Backs ∧
      ∃ first, (chain ++ [Link.mk g pair]).head? = some first ∧
        first.Allowed s.validator.evaluator := by
  have hlogged : Logged s (s.grants w ops) (s.after w ops) := (logged_of_empty hempty).after
  exact exists_chain hlogged.supported hg hpair

/-- The right to read, to be handed on at will. -/
def reading (delegator delegate resource : String) : Proposal :=
  { delegator, delegate, scope := ⟨[resource], ["read"], none⟩, transitive := true }

/-- Alice hands on to bob what the policies allow her. The policies are withdrawn, and bob hands on
a part to carol. -/
def passedOn : List (Moment × Op) :=
  [(second 0,
      .policies (PolicyStore.empty.put "main" (.ofRules [.allow "alice" "document:*" "*"]) false)),
    (second 1, .grant ⟨1⟩ (reading "alice" "bob" "document:*")),
    (second 2, .policies {}),
    (second 3, .grant ⟨2⟩ (reading "bob" "carol" "document:1"))]

/-- What is passed on is grounded in the policy through the delegation before it. -/
theorem passedOn_grounded :
    ∃ first last, grants {} {} passedOn = [first] ++ [last] ∧
      ("document:1", "read") ∈ last.row.scope.pairs ∧
      ∃ chain : List Link, (chain.map (·.grant)).Sublist [first] ∧
        (chain ++ [Link.mk last ("document:1", "read")]).IsChain Link.Backs ∧
        ∃ l, (chain ++ [Link.mk last ("document:1", "read")]).head? = some l ∧ l.Allowed {} := by
  have hrows : (grants {} {} passedOn).map (·.row) =
      [(reading "alice" "bob" "document:*").granted ⟨1⟩ (second 1).time,
        (reading "bob" "carol" "document:1").granted ⟨2⟩ (second 3).time] := by
    decide +kernel
  obtain ⟨first, rest, hgrants, -, hrest⟩ := List.map_eq_cons_iff.1 hrows
  obtain ⟨last, rfl, hlast⟩ := List.map_eq_singleton_iff.1 hrest
  have hpair : ("document:1", "read") ∈ last.row.scope.pairs := by
    rw [hlast]
    decide
  exact ⟨first, last, hgrants, hpair, grounded {} rfl hgrants hpair⟩

end Service

end Clearance.Delegation
