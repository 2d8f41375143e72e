import Clearance.Proofs.Delegation.Run
import Mathlib.Logic.Relation

/-!
# No one is handed what they have handed on

The active delegations that may be handed on are the edges of a graph, from delegator to delegate.
This file proves that no run of a service ever closes a circle in it (`after_acyclic`).

Time, revocations and cleanups only take edges away, and a delegation that may not be handed on is
no edge, so a circle could only be closed by granting one that may. Such a grant has walked back
from the delegator along all active delegations, which are more than the edges, and has not met the
delegate. So there is no path from the delegate to the delegator, and an edge the other way closes
no circle (`Acyclic.of_edge`).
-/

namespace Clearance.Delegation

open Relation (TransGen ReflTransGen)
open Time (Instant Span)

/-- What one more edge makes reachable goes through it. -/
theorem transGen_of_edge {α : Type} {R R' : α → α → Prop} {u v x y : α}
    (hR : ∀ x y, R' x y → R x y ∨ (x = u ∧ y = v)) (h : TransGen R' x y) :
    TransGen R x y ∨ (ReflTransGen R x u ∧ ReflTransGen R v y) := by
  induction h with
  | single hstep =>
    rcases hR _ _ hstep with h | ⟨rfl, rfl⟩
    · exact .inl (.single h)
    · exact .inr ⟨.refl, .refl⟩
  | tail _ hstep ih =>
    rcases hR _ _ hstep with h | ⟨rfl, rfl⟩
    · rcases ih with hpath | ⟨hto, hfrom⟩
      · exact .inl (hpath.tail h)
      · exact .inr ⟨hto, hfrom.tail h⟩
    · rcases ih with hpath | ⟨hto, -⟩
      · exact .inr ⟨hpath.to_reflTransGen, .refl⟩
      · exact .inr ⟨hto, .refl⟩

namespace Store

variable {s s' : Store} {t t' : Instant}

/-- Whether one party has delegated to another what is active at a time and may be handed on. -/
def Edge (s : Store) (t : Instant) (x y : String) : Prop :=
  ∃ d ∈ s.rows, d.isActiveAt t = true ∧ d.transitive = true ∧ d.delegator = x ∧ d.delegate = y

instance (s : Store) (t : Instant) (x y : String) : Decidable (s.Edge t x y) :=
  inferInstanceAs (Decidable (∃ d ∈ s.rows, _))

/-- Whether no path along the edges comes back to where it started. -/
def Acyclic (s : Store) (t : Instant) : Prop := ∀ x, ¬ TransGen (s.Edge t) x x

/-- Fewer edges make no circle. -/
theorem Acyclic.of_edges (h : Acyclic s t) (hedges : ∀ x y, s'.Edge t' x y → s.Edge t x y) :
    Acyclic s' t' :=
  fun x hpath => h x (TransGen.mono hedges x x hpath)

/-- Where there is no path from `v` to `u`, an edge from `u` to `v` closes no circle. -/
theorem Acyclic.of_edge {u v : String} (h : Acyclic s t)
    (hedges : ∀ x y, s'.Edge t x y → s.Edge t x y ∨ (x = u ∧ y = v))
    (hno : ¬ ReflTransGen (s.Edge t) v u) : Acyclic s' t := by
  intro x hpath
  rcases transGen_of_edge hedges hpath with hold | ⟨hto, hfrom⟩
  · exact h x hold
  · exact hno (hfrom.trans hto)

/-- Edges are lost as time passes and none are won. -/
theorem Acyclic.later (h : Acyclic s t) (ht : t ≤ t') : Acyclic s t' := by
  refine h.of_edges ?_
  intro x y hedge
  obtain ⟨d, hd, hactive, hrest⟩ := hedge
  exact ⟨d, hd, isActiveAt_of_le ht hactive, hrest⟩

/-- Where nothing is delegated there is no circle. -/
theorem acyclic_empty (t : Instant) : Acyclic empty t := by
  intro x hpath
  obtain ⟨y, ⟨d, hd, -⟩, -⟩ := TransGen.head'_iff.1 hpath
  exact absurd hd List.not_mem_nil

/-- A revoked row is no edge. -/
theorem Acyclic.replace_revokedRow (h : Acyclic s t) (d : Delegation) (now : Instant) :
    Acyclic (s.replace (revokedRow d now)) t := by
  refine h.of_edges ?_
  intro x y hedge
  obtain ⟨row, hrow, hactive, hrest⟩ := hedge
  obtain ⟨old, hold, rfl⟩ := List.mem_map.1 hrow
  split at hactive
  next => simp [isActiveAt] at hactive
  next hid =>
    rw [if_neg hid] at hrest
    exact ⟨old, hold, hactive, hrest⟩

/-- A cleanup takes edges away and adds none. -/
theorem Acyclic.cleanup (h : Acyclic s t) (r : Span) (now : Instant) :
    Acyclic (s.cleanup r now).2 t := by
  refine h.of_edges ?_
  intro x y hedge
  obtain ⟨row, hrow, hrest⟩ := hedge
  exact ⟨row, (List.mem_filter.1 hrow).1, hrest⟩

/-- Whoever has a path to a party stands behind it. -/
theorem Indexed.behind_of_path (h : Indexed s) {x y : String}
    (hpath : ReflTransGen (s.Edge t) x y) : ∃ k, Behind (s.activeFor t) y k x := by
  induction hpath using ReflTransGen.head_induction_on with
  | refl => exact ⟨0, rfl⟩
  | head hstep _ ih =>
    obtain ⟨k, hk⟩ := ih
    obtain ⟨d, hd, hactive, -, rfl, rfl⟩ := hstep
    exact ⟨k + 1, _, hk, d, h.mem_activeFor.2 ⟨hd, hactive, rfl⟩, rfl⟩

end Store

namespace Service

variable {s : Service} {w : Memory} {now : Moment}

/-- Behind the delegator of something that may be handed on there is no path from the delegate. -/
theorem no_path_of_verdict {p : Proposal} (hi : w.delegations.Indexed)
    (hverdict : s.verdict w now p = .ok ()) (htransitive : p.transitive = true) :
    ¬ ReflTransGen (w.delegations.Edge now.time) p.delegate p.delegator := by
  obtain ⟨hcheck, hchain, -⟩ := verdict_ok_iff.1 hverdict
  intro hpath
  obtain ⟨k, hk⟩ := hi.behind_of_path hpath
  obtain ⟨r, hr, hanswer⟩ := checkChain_on w now s.maxChainDepth (check_ne hcheck)
  have hok := hchain htransitive
  rw [hr] at hok
  obtain rfl : r = .ok () := hok
  exact hanswer.not_behind k hk

/-- No operation closes a circle. -/
theorem Changes.acyclic {store : Store} (h : Changes s w now store) (hi : w.delegations.Indexed)
    (ha : w.delegations.Acyclic now.time) : store.Acyclic now.time := by
  cases h with
  | same => exact ha
  | @grant id p _ hverdict hcreate =>
    obtain ⟨-, rfl⟩ := Store.create_cases hcreate
    have hrows : ∀ d ∈ w.delegations.rows ++ [p.granted id now.time],
        d ∈ w.delegations.rows ∨ d = p.granted id now.time := by
      intro d hd
      simpa using hd
    by_cases htransitive : p.transitive = true
    · -- the only new edge, and the walk back has shown that no path leads the other way
      refine ha.of_edge ?_ (no_path_of_verdict hi hverdict htransitive)
      intro x y hedge
      obtain ⟨d, hd, hactive, htrans, rfl, rfl⟩ := hedge
      rcases hrows d hd with hold | rfl
      · exact .inl ⟨d, hold, hactive, htrans, rfl, rfl⟩
      · exact .inr ⟨rfl, rfl⟩
    · -- what may not be handed on is no edge
      refine ha.of_edges ?_
      intro x y hedge
      obtain ⟨d, hd, hactive, htrans, rfl, rfl⟩ := hedge
      rcases hrows d hd with hold | rfl
      · exact ⟨d, hold, hactive, htrans, rfl, rfl⟩
      · exact absurd htrans htransitive
  | revoke hrow hstatus => exact ha.replace_revokedRow _ now.time
  | cleanup => exact ha.cleanup _ _

/-- What every run keeps: the index is right, and there is no circle. -/
structure CircleFree (t : Instant) (w : Memory) : Prop where
  indexed : w.delegations.Indexed
  acyclic : w.delegations.Acyclic t

/-- A run that begins with an empty store begins without a circle. -/
theorem circleFree_of_empty (h : w.delegations = .empty) (t : Instant) : CircleFree t w := by
  refine ⟨?_, ?_⟩
  · rw [h]
    exact Store.indexed_empty
  · rw [h]
    exact Store.acyclic_empty t

/-- Time takes edges away and adds none. -/
theorem CircleFree.later {t t' : Instant} (ht : t ≤ t') (h : CircleFree t w) : CircleFree t' w :=
  ⟨h.indexed, h.acyclic.later ht⟩

/-- No operation closes a circle. -/
theorem CircleFree.step (e : Moment × Op) (h : CircleFree e.1.time w) :
    CircleFree e.1.time (s.step w e) := by
  have hchanges := step_changes s w e.1 e.2
  exact ⟨hchanges.indexed h.indexed, hchanges.acyclic h.indexed h.acyclic⟩

/-- **No circle of delegations can be built.** Whatever a service is asked to do on an empty store
and in whatever order, and however the policies change meanwhile, if the clock never goes back then
at no time does a path of active delegations that may be handed on come back to where it started. -/
theorem after_acyclic (s : Service) {w : Memory} (hempty : w.delegations = .empty)
    {ops : List (Moment × Op)} (hclock : ops.Pairwise (·.1.time ≤ ·.1.time)) {t : Instant}
    (ht : ∀ e ∈ ops, e.1.time ≤ t) (party : String) :
    ¬ TransGen ((s.after w ops).delegations.Edge t) party party := by
  have hfree : CircleFree t (s.after w ops) :=
    after_induction (I := CircleFree) CircleFree.later CircleFree.step (circleFree_of_empty hempty)
      hclock ht
  exact hfree.acyclic party

/-- Everything that someone may do, to be handed on at will. -/
def everything (delegator delegate : String) : Proposal :=
  { delegator, delegate, scope := ⟨["*"], ["*"], none⟩, transitive := true }

/-- Alice hands everything on to bob, and bob tries to hand it back. -/
def thereAndBack : List (Moment × Op) :=
  [(second 0,
      .policies (PolicyStore.empty.put "main" (.ofRules [.allow "alice" "*" "*"]) false)),
    (second 1, .grant ⟨1⟩ (everything "alice" "bob")),
    (second 2, .grant ⟨2⟩ (everything "bob" "alice"))]

/-- Alice's delegation to bob stands, and that back to her has not come about. -/
theorem thereAndBack_acyclic :
    thereAndBack.Pairwise (·.1.time ≤ ·.1.time) ∧
      (∀ e ∈ thereAndBack, e.1.time ≤ (second 3).time) ∧
      (after {} {} thereAndBack).delegations.Edge (second 3).time "alice" "bob" ∧
      ¬ TransGen ((after {} {} thereAndBack).delegations.Edge (second 3).time) "alice"
        "alice" := by
  have hclock : thereAndBack.Pairwise (·.1.time ≤ ·.1.time) := by decide
  have ht : ∀ e ∈ thereAndBack, e.1.time ≤ (second 3).time := by decide
  exact ⟨hclock, ht, by decide +kernel, after_acyclic {} rfl hclock ht "alice"⟩

end Service

end Clearance.Delegation
