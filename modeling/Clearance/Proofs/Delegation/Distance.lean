import Clearance.Proofs.Delegation.Depth
import Clearance.Proofs.Delegation.Index

/-!
# The walk back measures distances

Which of its three answers a walk comes to follows from two lengths. One is the distance of the
delegate: the length of the shortest way back to them along active delegations, whether or not these
may be handed on (`IsDistance`). The other is how far anybody at all stands back (`IsReach`). A walk of
a limited number of steps looks one step past the limit, so a delegate there is still found; one that
stands further away is never accepted, because then the chain reaches past the limit
(`Answers.measured`).

Both lengths are those of the rows on record. The walk sees only what the store lists for one party
after another, and in any store that has been edited from an empty one that is all there is
(`Store.Indexed.delegatedTo_iff`), so `checkChain_measures` holds whatever graph the delegations form.
-/

namespace Clearance.Delegation

open Time (Instant)

section Lengths

variable (up : String → List Delegation) (start : String)

/-- Whether a length is that of the shortest way back to a party. `none` says that there is no way. -/
def IsDistance (x : String) : Option Nat → Prop
  | some k => Nearest up start k x
  | none => ∀ k, ¬ Behind up start k x

/-- Whether a length is the largest of all shortest ways back: somebody stands that far away, and nobody
further. -/
structure IsReach (k : Nat) : Prop where
  attained : ∃ x, Nearest up start k x
  largest : ∀ j x, Nearest up start j x → j ≤ k

variable {up start} {x : String} {k : Nat}

/-- Everyone stands at some distance, or at none. -/
theorem exists_isDistance (up : String → List Delegation) (start x : String) :
    ∃ D, IsDistance up start x D := by
  by_cases h : ∃ k, Behind up start k x
  · obtain ⟨j, hj⟩ := h
    obtain ⟨k, -, hk⟩ := exists_nearest hj
    exact ⟨some k, hk⟩
  · exact ⟨none, fun k hk => h ⟨k, hk⟩⟩

/-- The distance is the length of the shortest way. -/
theorem IsDistance.eq_some {D : Option Nat} (h : IsDistance up start x D) (hx : Nearest up start k x) :
    D = some k := by
  cases D with
  | none => exact absurd hx.1 (h k)
  | some d =>
    have hdk : d ≤ k := Nearest.le h hx.1
    have hkd : k ≤ d := hx.le h.1
    rw [Nat.le_antisymm hdk hkd]

/-- Of some parties none stands further back than somebody does. -/
theorem exists_farthest (up : String → List Delegation) (start : String) (parties : List String) :
    ∃ k, (∃ x, Nearest up start k x) ∧ ∀ x ∈ parties, ∀ j, Nearest up start j x → j ≤ k := by
  induction parties with
  | nil => exact ⟨0, ⟨start, nearest_zero.2 rfl⟩, fun x hx => absurd hx List.not_mem_nil⟩
  | cons party parties ih =>
    obtain ⟨k, hk, hle⟩ := ih
    by_cases hfar : ∃ j, Nearest up start j party ∧ k < j
    · -- this party stands further back than all others
      obtain ⟨j, hj, hlt⟩ := hfar
      refine ⟨j, ⟨party, hj⟩, fun x hx i hi => ?_⟩
      rcases List.mem_cons.1 hx with rfl | hx
      · exact hi.le hj.1
      · have := hle x hx i hi
        omega
    · refine ⟨k, hk, fun x hx i hi => ?_⟩
      rcases List.mem_cons.1 hx with rfl | hx
      · exact Nat.not_lt.1 fun hlt => hfar ⟨i, hi, hlt⟩
      · exact hle x hx i hi

/-- Where delegations come from finitely many parties, the shortest ways back have a largest. -/
theorem exists_isReach {parties : List String} (h : ∀ x y, DelegatedTo up x y → x ∈ parties)
    (start : String) : ∃ E, IsReach up start E := by
  obtain ⟨E, hattained, hle⟩ := exists_farthest up start parties
  refine ⟨E, hattained, fun j x hx => ?_⟩
  cases j with
  | zero => exact Nat.zero_le E
  | succ j =>
    obtain ⟨y, -, hxy⟩ := hx.1
    exact hle x (h x y hxy) (j + 1) hx

section Congr

variable {up' : String → List Delegation} (h : ∀ x y, DelegatedTo up x y ↔ DelegatedTo up' x y)
include h

/-- How far parties stand back depends on who has delegated to whom, and on nothing else. -/
theorem behind_congr : Behind up start = Behind up' start := by
  funext k
  induction k with
  | zero => rfl
  | succ k ih =>
    funext x
    simp only [Behind, ih, h]

/-- The shortest ways depend on the edges alone. -/
theorem nearest_congr : Nearest up start = Nearest up' start := by
  funext k x
  unfold Nearest
  rw [behind_congr h]

theorem IsDistance.congr {D : Option Nat} (hD : IsDistance up start x D) :
    IsDistance up' start x D := by
  cases D with
  | none =>
    unfold IsDistance at hD ⊢
    rwa [← behind_congr h]
  | some k =>
    unfold IsDistance at hD ⊢
    rwa [← nearest_congr h]

theorem IsReach.congr {E : Nat} (hE : IsReach up start E) : IsReach up' start E := by
  obtain ⟨hattained, hlargest⟩ := hE
  rw [nearest_congr h] at hattained hlargest
  exact ⟨hattained, hlargest⟩

end Congr

end Lengths

/-- What a limited walk answers, going by the distance of the delegate and by how far anybody stands
back. -/
structure Measured (limit : Nat) (delegator delegate : String) (D : Option Nat) (E : Nat)
    (r : Except Refusal Unit) : Prop where
  /-- The delegate stands within the limit or one step past it. -/
  cycle_iff : r = .error (.cycle delegator delegate) ↔ ∃ d, D = some d ∧ d ≤ limit + 1
  /-- The delegate stands further away or nowhere, and the chain goes past the limit. -/
  tooDeep_iff : r = .error (.chainTooDeep limit) ↔ (∀ d, D = some d → limit + 1 < d) ∧ limit < E
  /-- The delegate stands nowhere, and the chain keeps the limit. -/
  ok_iff : r = .ok () ↔ D = none ∧ E ≤ limit

/-- The answers of a walk are told apart by the two lengths. -/
theorem Answers.measured {up : String → List Delegation} {delegator delegate : String} {limit : Nat}
    {r : Except Refusal Unit} (h : Answers up delegator delegate limit 0 limit r) {D : Option Nat}
    (hD : IsDistance up delegator delegate D) {E : Nat} (hE : IsReach up delegator E) :
    Measured limit delegator delegate D E r := by
  cases h with
  | cycle hj hd =>
    have hDj := hD.eq_some hd
    refine ⟨iff_of_true rfl ⟨_, hDj, by omega⟩, iff_of_false nofun fun h => ?_,
      iff_of_false nofun fun h => ?_⟩
    · have hbeyond := h.1 _ hDj
      omega
    · rw [hDj] at h
      exact absurd h.1 (by simp)
  | tooDeep hd hx =>
    -- the generation one step past the limit is not empty, and the delegate stands past it
    have hlong : limit < E := by
      have := hE.largest _ _ hx
      omega
    have hfar : ∀ d, D = some d → limit + 1 < d := by
      intro d hDd
      rw [hDd] at hD
      by_cases hle : d ≤ limit + 1
      · exact absurd ⟨d, by omega, hD.1⟩ hd
      · omega
    refine ⟨iff_of_false nofun fun h => ?_, iff_of_true rfl ⟨hfar, hlong⟩,
      iff_of_false nofun fun h => ?_⟩
    · obtain ⟨d, hDd, hle⟩ := h
      have := hfar d hDd
      omega
    · omega
  | ok hj hd hend =>
    -- a generation within the limit is empty, so everyone stands before it
    have hnowhere : D = none := by
      cases D with
      | none => rfl
      | some d => exact absurd (within_of_none_nearest hend hD.1) hd
    have hshort : E ≤ limit := by
      obtain ⟨x, hx⟩ := hE.attained
      obtain ⟨i, hi, hbehind⟩ := within_of_none_nearest hend hx.1
      have := hx.le hbehind
      omega
    refine ⟨iff_of_false nofun fun h => ?_, iff_of_false nofun fun h => ?_,
      iff_of_true rfl ⟨hnowhere, hshort⟩⟩
    · obtain ⟨d, hDd, -⟩ := h
      rw [hnowhere] at hDd
      exact absurd hDd (by simp)
    · omega

namespace Store

/-- What a party holds at a time, going by the rows alone. -/
def held (s : Store) (t : Instant) (party : String) : List Delegation :=
  s.rows.filter fun d => d.isActiveAt t && d.delegate == party

variable {s : Store} {t : Instant} {x y : String}

/-- In a store in order, looking a party up shows everyone who has delegated to it. -/
theorem Indexed.delegatedTo_iff (h : s.Indexed) :
    DelegatedTo (s.held t) x y ↔ DelegatedTo (s.activeFor t) x y := by
  unfold DelegatedTo held
  rw [h.activeFor_eq]
  simp only [Stable.sort_eq, List.mem_insertionSort]

/-- Whoever has delegated something stands on a row. -/
theorem mem_delegators_of_held (h : DelegatedTo (s.held t) x y) : x ∈ s.rows.map (·.delegator) := by
  obtain ⟨d, hd, rfl⟩ := h
  exact List.mem_map.2 ⟨d, (List.mem_filter.1 hd).1, rfl⟩

end Store

namespace Memory

/-- **The walk back computes exact distances**, whatever delegations are on record: loops among them,
and such that may not be handed on. It comes to an answer and changes nothing. With `D` the distance of
the delegate and `E` that of whoever stands furthest behind the delegator, it finds a cycle if `D` is at
most one more than the limit; else the chain is too deep if `E` exceeds the limit; and it passes just
if the delegate stands nowhere and `E` keeps the limit. -/
theorem checkChain_measures {w : Memory} (hempty : w.delegations = .empty) (edits : List Edit)
    (now : Moment) (limit : Nat) {delegator delegate : String} (hne : delegator ≠ delegate) :
    ∃ D E r,
      IsDistance ((w.edited edits).delegations.held now.time) delegator delegate D ∧
      IsReach ((w.edited edits).delegations.held now.time) delegator E ∧
      Attempt.on (checkChain backend now limit delegator delegate) (w.edited edits) =
        (r, w.edited edits) ∧
      Measured limit delegator delegate D E r := by
  have hindexed : (w.edited edits).delegations.Indexed := by
    have hstart : w.delegations.Kept [] := by
      rw [hempty]
      exact Store.kept_empty
    exact (kept_edited hstart edits).indexed
  obtain ⟨D, hD⟩ := exists_isDistance ((w.edited edits).delegations.held now.time) delegator delegate
  obtain ⟨E, hE⟩ := exists_isReach (fun _ _ => Store.mem_delegators_of_held) delegator
  obtain ⟨r, hr, hanswer⟩ := checkChain_on (w.edited edits) now limit hne
  -- what the walk is told about is what is on the rows
  have hsame := fun x y => hindexed.delegatedTo_iff (t := now.time) (x := x) (y := y)
  exact ⟨D, E, r, hD, hE, hr, hanswer.measured (hD.congr hsame) (hE.congr hsame)⟩

/-- What one party has from another, who may not hand it on. -/
def heldFrom (id : Uuid) (delegator delegate : String) : Delegation :=
  { lentEarly id delegate with delegator }

/-- Alice and bob have delegated to each other. Behind bob stands carol, behind her dave. What dave had
delegated to alice is revoked. -/
def loopedBehind : List Edit :=
  [.create (heldFrom ⟨1⟩ "alice" "bob"), .create (heldFrom ⟨2⟩ "bob" "alice"),
    .create (heldFrom ⟨3⟩ "carol" "bob"), .create (heldFrom ⟨4⟩ "dave" "carol"),
    .create (heldFrom ⟨5⟩ "dave" "alice"), .revoke (second 1).time ⟨5⟩]

/-- With a limit of one, dave is not found behind alice, and is not accepted either. -/
theorem loopedBehind_measured :
    ({} : Memory).delegations = .empty ∧ "alice" ≠ "dave" ∧
      Attempt.on (checkChain backend (second 2) 1 "alice" "dave") (edited {} loopedBehind) =
        (.error (.chainTooDeep 1), edited {} loopedBehind) ∧
      ∃ D E, IsDistance ((edited {} loopedBehind).delegations.held (second 2).time) "alice" "dave" D ∧
        IsReach ((edited {} loopedBehind).delegations.held (second 2).time) "alice" E ∧
        (∀ d, D = some d → 1 + 1 < d) ∧ 1 < E := by
  have hempty : ({} : Memory).delegations = .empty := rfl
  have hne : "alice" ≠ "dave" := by decide
  have hdeep : (Attempt.on (checkChain backend (second 2) 1 "alice" "dave")
      (edited {} loopedBehind)).1 = .error (.chainTooDeep 1) := by rfl
  obtain ⟨D, E, r, hD, hE, hr, hmeasured⟩ :=
    checkChain_measures hempty loopedBehind (second 2) 1 hne
  rw [hr] at hdeep
  obtain rfl : r = .error (.chainTooDeep 1) := hdeep
  exact ⟨hempty, hne, hr, D, E, hD, hE, hmeasured.tooDeep_iff.1 rfl⟩

end Memory

end Clearance.Delegation
