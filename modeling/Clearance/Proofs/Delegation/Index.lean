import Clearance.Proofs.Delegation.Lookup
import Clearance.Proofs.Delegation.Service
import Mathlib.Data.List.Dedup

/-!
# The index after any edits

`Store.Indexed` is what single operations of a store keep. This file draws from it what can be said
of a memory that began without delegations and has since been edited in any way: delegations of the
caller's making recorded, some of them under ids that are taken, others revoked or cleaned up, at
any times.

The order in which delegations were recorded is not part of a store. `Memory.recorded` writes it down
along the edits, and `Kept` says that the rows, and so the lists of the index, stand in that order.
An id that was cleaned up may be recorded anew; it then counts where it was recorded last.
-/

namespace Clearance.Delegation

open Time (Instant Span)

/-- What can be done to the delegations of a memory. -/
inductive Edit where
  | create (d : Delegation)
  | revoke (now : Instant) (id : Uuid)
  | cleanup (now : Instant)

/-- The memory after an edit, which may have been refused. -/
def Edit.apply (w : Memory) : Edit → Memory
  | .create d => ((Memory.backend.create d).run w).2
  | .revoke now id => ((Memory.backend.revoke now id).run w).2
  | .cleanup now => ((Memory.backend.cleanup now).run w).2

/-- The id under which an edit records a delegation, if it records one. -/
def Edit.recorded? (w : Memory) : Edit → Option Uuid
  | .create d => ((Memory.backend.create d).run w).1.toOption.map (·.id)
  | .revoke .. => none
  | .cleanup _ => none

namespace Memory

/-- The memory after a number of edits. -/
def edited (w : Memory) (edits : List Edit) : Memory := edits.foldl Edit.apply w

/-- The ids that edits record, in order. -/
def recorded (w : Memory) : List Edit → List Uuid
  | [] => []
  | e :: edits => (e.recorded? w).toList ++ recorded (e.apply w) edits

/-- Whether one id was recorded before another. -/
def Earlier (log : List Uuid) (id id' : Uuid) : Prop := [id, id'].Sublist log.dedup

end Memory

/-- A new last occurrence goes to the end of a list without repetitions. -/
theorem dedup_concat {α : Type} [DecidableEq α] (l : List α) (x : α) :
    (l ++ [x]).dedup = l.dedup.filter (· ≠ x) ++ [x] := by
  induction l with
  | nil => rfl
  | cons a l ih =>
    rw [List.cons_append]
    by_cases hmem : a ∈ l
    · rw [List.dedup_cons_of_mem (List.mem_append_left _ hmem), List.dedup_cons_of_mem hmem, ih]
    · rw [List.dedup_cons_of_notMem hmem]
      by_cases hax : a = x
      · subst hax
        rw [List.dedup_cons_of_mem (by simp), ih, List.filter_cons_of_neg (by simp)]
      · rw [List.dedup_cons_of_notMem (by simp [hmem, hax]), ih, List.filter_cons_of_pos (by simpa),
          List.cons_append]

namespace Store

variable {s s' : Store} {d : Delegation} {now : Instant} {id : Uuid} {k : String} {log : List Uuid}

/-- What holds of a store of which it is known in which order its delegations were recorded. -/
structure Kept (log : List Uuid) (s : Store) : Prop where
  indexed : s.Indexed
  /-- The rows stand in the order in which they were recorded. -/
  inOrder : (s.rows.map (·.id)).Sublist log.dedup

theorem kept_empty : Kept [] empty := ⟨indexed_empty, .slnil⟩

namespace Kept

/-- A row that is created stands behind those on record. -/
theorem create (h : Kept log s) (hcreate : s.create d = .ok s') : Kept (log ++ [d.id]) s' := by
  refine ⟨h.indexed.create hcreate, ?_⟩
  obtain ⟨hfree, rfl⟩ := create_cases hcreate
  show ((s.rows ++ [d]).map _).Sublist _
  -- the id is on no row, so the rows are in order also where it is counted last
  have hother : (s.rows.map (·.id)).filter (· ≠ d.id) = s.rows.map (·.id) := by
    refine List.filter_eq_self.2 fun id hid => ?_
    obtain ⟨row, hrow, rfl⟩ := List.mem_map.1 hid
    simpa using hfree row hrow
  rw [List.map_append, dedup_concat, ← hother]
  exact (h.inOrder.filter _).append (List.Sublist.refl [d.id])

/-- A revocation leaves rows and index in their order. -/
theorem replace_revokedRow (h : Kept log s) (hrow : s.find id = some d) (now : Instant) :
    Kept log (s.replace (revokedRow d now)) := by
  refine ⟨h.indexed.replace_revokedRow hrow now, ?_⟩
  have hids : (s.replace (revokedRow d now)).rows.map (·.id) = s.rows.map (·.id) := by
    unfold replace
    rw [List.map_map]
    refine List.map_congr_left fun row _ => ?_
    rw [Function.comp_apply]
    split
    next hid => exact hid.symm
    next => rfl
  rw [hids]
  exact h.inOrder

/-- A cleanup leaves rows and index in their order. -/
theorem cleanup (h : Kept log s) (r : Span) (now : Instant) :
    Kept log (s.cleanup r now).2 :=
  ⟨h.indexed.cleanup r now, (List.filter_sublist.map _).trans h.inOrder⟩

/-- An id is listed for a delegate if it is that of a row of theirs. -/
theorem mem_idsOf (h : Kept log s) :
    id ∈ s.idsOf k ↔ ∃ row, s.find id = some row ∧ row.delegate = k := by
  rw [h.indexed.lists k, List.mem_map]
  simp only [h.indexed.find_eq_some_iff, List.mem_filter, beq_iff_eq]
  constructor
  · rintro ⟨row, ⟨hrow, hk⟩, hid⟩
    exact ⟨row, ⟨hrow, hid⟩, hk⟩
  · rintro ⟨row, ⟨hrow, hid⟩, hk⟩
    exact ⟨row, ⟨hrow, hk⟩, hid⟩

/-- No id is listed twice for a delegate. -/
theorem nodup_idsOf (h : Kept log s) (k : String) : (s.idsOf k).Nodup := by
  rw [h.indexed.lists k]
  exact h.indexed.distinct.sublist (List.filter_sublist.map _)

/-- A delegate's ids stand in the order in which they were last recorded. -/
theorem idsOf_sublist (h : Kept log s) (k : String) : (s.idsOf k).Sublist log.dedup := by
  rw [h.indexed.lists k]
  exact (List.filter_sublist.map _).trans h.inOrder

/-- A look-up lists by age, and what is equally old in the order in which it was recorded. -/
theorem activeFor_pairwise (h : Kept log s) (now : Instant) (k : String) :
    (s.activeFor now k).Pairwise fun a b =>
      a.createdAt < b.createdAt ∨ a.createdAt = b.createdAt ∧ Memory.Earlier log a.id b.id := by
  have hrows : s.rows.Pairwise fun a b => Memory.Earlier log a.id b.id := by
    refine List.pairwise_iff_forall_sublist.2 fun {a b} hab => ?_
    exact (hab.map Delegation.id).trans h.inOrder
  rw [h.indexed.activeFor_eq]
  refine (Stable.sort_pairwise_of_ties (hrows.filter _)).imp fun {a b} hab => ?_
  simp only [olderFirst, decide_eq_true_eq] at hab
  obtain ⟨hle, hties⟩ := hab
  by_cases htie : b.createdAt ≤ a.createdAt
  · exact .inr ⟨Instant.le_antisymm hle htie, hties htie⟩
  · exact .inl (Int.not_le.1 htie)

end Kept

/-- Whether the index lists the ids of each delegate's rows, each once, in the order in which they
were recorded, and nothing else. -/
structure Matched (log : List Uuid) (s : Store) : Prop where
  listed_iff : ∀ k id, id ∈ s.idsOf k ↔ ∃ row, s.find id = some row ∧ row.delegate = k
  once : ∀ k, (s.idsOf k).Nodup
  inOrder : ∀ k, (s.idsOf k).Sublist log.dedup
  kept : ∀ k, s.index.get? k ≠ some []

/-- A store that is kept has an index that matches its rows. -/
theorem Kept.matched (h : Kept log s) : Matched log s :=
  ⟨fun _ _ => h.mem_idsOf, h.nodup_idsOf, h.idsOf_sublist, h.indexed.kept⟩

/-- Whether a list is what a delegate holds at a time: their active rows, each once, by age, and what
is equally old in the order in which it was recorded. -/
structure Lists (log : List Uuid) (s : Store) (now : Instant) (k : String) (ds : List Delegation) :
    Prop where
  once : ds.Nodup
  mem_iff : ∀ d, d ∈ ds ↔ s.find d.id = some d ∧ d.isActiveAt now = true ∧ d.delegate = k
  byAge : ds.Pairwise fun a b =>
    a.createdAt < b.createdAt ∨ a.createdAt = b.createdAt ∧ Memory.Earlier log a.id b.id

/-- A list has what is on record, active and the delegate's, in the order of the log. -/
theorem Kept.lists (h : Kept log s) (now : Instant) (k : String) :
    Lists log s now k (s.activeFor now k) := by
  refine ⟨h.indexed.nodup_activeFor, fun d => ?_, h.activeFor_pairwise now k⟩
  rw [h.indexed.mem_activeFor, h.indexed.find_eq_some_iff, and_iff_left rfl]

/-- No delegation is recorded under an id that is taken. -/
theorem create_of_find {row : Delegation} (h : s.find d.id = some row) :
    s.create d = .error (.conflict ("Delegation " ++ d.id.write ++ " already exists")) := by
  unfold create
  rw [h]
  rfl

end Store

/-- What an edit can come to: the id that it records, if any, and the store that it leaves. -/
inductive Edit.Effect (w : Memory) : Option Uuid → Store → Prop
  | refused : Effect w none w.delegations
  | recorded {d : Delegation} {s : Store} (hcreate : w.delegations.create d = .ok s) :
      Effect w (some d.id) s
  | revoked {id : Uuid} {now : Instant} {d : Delegation} (hrow : w.delegations.find id = some d) :
      Effect w none (w.delegations.replace (Store.revokedRow d now))
  | cleaned {now : Instant} : Effect w none (w.delegations.cleanup w.retention now).2

/-- An edit is refused, or records a row, revokes one, or cleans up. -/
theorem Edit.effect (w : Memory) (e : Edit) : Effect w (e.recorded? w) (e.apply w).delegations := by
  cases e with
  | create d =>
    have hrun : (Memory.backend.create d).run w = _ := Memory.create_run d w
    rw [recorded?, apply, hrun]
    cases hcreate : w.delegations.create d with
    | error _ => exact .refused
    | ok s => exact .recorded hcreate
  | revoke now id =>
    have hrun : (Memory.backend.revoke now id).run w = _ := Memory.revoke_run now id w
    rw [recorded?, apply, hrun]
    cases hrevoke : w.delegations.revoke now id with
    | error _ => exact .refused
    | ok r =>
      obtain ⟨row, hrow, -, hstore⟩ := Store.revoke_cases hrevoke
      dsimp only
      rw [hstore]
      exact .revoked hrow
  | cleanup now => exact .cleaned

/-- The order that is kept goes on with what an edit records. -/
theorem Edit.Effect.kept {w : Memory} {log : List Uuid} {id? : Option Uuid} {s : Store}
    (h : Effect w id? s) (hkept : w.delegations.Kept log) : s.Kept (log ++ id?.toList) := by
  cases h with
  | refused =>
    rw [Option.toList_none, List.append_nil]
    exact hkept
  | recorded hcreate => exact hkept.create hcreate
  | revoked hrow =>
    rw [Option.toList_none, List.append_nil]
    exact hkept.replace_revokedRow hrow _
  | cleaned =>
    rw [Option.toList_none, List.append_nil]
    exact hkept.cleanup _ _

namespace Memory

variable {w : Memory} {log : List Uuid}

/-- Along edits the store stays in order. The induction is on the edits from the first: what it
leaves is what the others start from. -/
theorem kept_edited (h : w.delegations.Kept log) (edits : List Edit) :
    (w.edited edits).delegations.Kept (log ++ w.recorded edits) := by
  induction edits generalizing w log with
  | nil => simpa [recorded, edited] using h
  | cons e edits ih =>
    rw [recorded, ← List.append_assoc]
    exact ih ((e.effect w).kept h)

/-- **The index and the rows agree**, whatever has been done to a store that was empty, and recording
something under an id that is taken changes nothing. So at any time a look-up gives the delegate's
rows that are active then, each once, by age and what is equally old in the order in which it was
recorded. -/
theorem index_matches_rows (hempty : w.delegations = .empty) (edits : List Edit) :
    (w.edited edits).delegations.Matched (w.recorded edits) ∧
    (∀ d row, (w.edited edits).delegations.find d.id = some row →
      (backend.create d).run (w.edited edits) =
        (.error (.conflict ("Delegation " ++ d.id.write ++ " already exists")), w.edited edits)) ∧
    ∀ now k, ∃ ds, (backend.activeFor now k).run (w.edited edits) = (.ok ds, w.edited edits) ∧
      (w.edited edits).delegations.Lists (w.recorded edits) now k ds := by
  have hstart : w.delegations.Kept [] := by
    rw [hempty]
    exact Store.kept_empty
  have hkept : (w.edited edits).delegations.Kept (w.recorded edits) := kept_edited hstart edits
  refine ⟨hkept.matched, ?_, ?_⟩
  · intro d row hrow
    refine (create_run d _).trans ?_
    rw [Store.create_of_find hrow]
  · intro now k
    exact ⟨_, rfl, hkept.lists now k⟩

/-- Leave to read, given by alice at the start of time. -/
def lentEarly (id : Uuid) (delegate : String) : Delegation :=
  { id, delegator := "alice", delegate, scope := ⟨["*"], ["read"], none⟩
    createdAt := (second 0).time, expiresAt := none, transitive := false }

/-- Of two equally old delegations the first is revoked, cleaned up and then recorded anew. Carol
cannot be given one under an id of bob's. -/
def recordedAnew : List Edit :=
  [.create (lentEarly ⟨1⟩ "bob"), .create (lentEarly ⟨2⟩ "bob"), .create (lentEarly ⟨2⟩ "carol"),
    .revoke (second 1).time ⟨1⟩, .cleanup (second 2).time, .create (lentEarly ⟨1⟩ "bob")]

/-- Of the delegations for bob the one that was recorded anew stands last. -/
theorem recordedAnew_matches_rows :
    ({ retention := .days 0 } : Memory).delegations = .empty ∧
    (edited { retention := .days 0 } recordedAnew).delegations.idsOf "bob" = [⟨2⟩, ⟨1⟩] ∧
    (edited { retention := .days 0 } recordedAnew).delegations.find ⟨2⟩ = some (lentEarly ⟨2⟩ "bob") ∧
    (edited { retention := .days 0 } recordedAnew).delegations.Matched
      (recorded { retention := .days 0 } recordedAnew) := by
  have hempty : ({ retention := .days 0 } : Memory).delegations = .empty := rfl
  exact ⟨hempty, by decide +kernel, by decide +kernel, (index_matches_rows hempty recordedAnew).1⟩

end Memory

end Clearance.Delegation
