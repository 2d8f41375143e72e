import Clearance.Proofs.Delegation.Store

/-!
# What a delegate holds as things change

A list of what a delegate holds, looked up at one time, stays good for any later time: what has run
out since can be struck off (`Indexed.filter_activeFor`), and no change of the store that concerns
other delegates touches it. A cleanup concerns nobody's list, because what it removes is over
(`Indexed.activeFor_cleanup`).
-/

namespace Clearance.Delegation

open Time (Instant Span)

namespace Store

variable {s s' : Store} {d : Delegation} {now t t' : Instant} {id : Uuid} {k : String}

instance : IsTrans Delegation (olderFirst · ·) where
  trans a b c hab hbc := by
    simp only [olderFirst, decide_eq_true_eq] at *
    exact Int.le_trans hab hbc

instance : Std.Total (α := Delegation) (olderFirst · ·) where
  total a b := by
    simp only [olderFirst, decide_eq_true_eq]
    exact Int.le_total a.createdAt.rank b.createdAt.rank

/-- What is overdue is over. -/
theorem not_isActiveAt_of_isOverdue {r : Span} (h : isOverdue r now d = true) :
    d.isActiveAt now = false := by
  unfold isOverdue terminalSince stateAt at h
  unfold isActiveAt
  cases hstatus : d.status with
  | active =>
    cases hexpired : d.isExpiredAt now with
    | true => rfl
    | false => simp [hstatus, hexpired] at h
  | expired => rfl
  | revoked => rfl

/-- Replacing a row that a test leaves out by another one that it leaves out changes nothing. -/
theorem filter_replace {row : Delegation} {p : Delegation → Bool} (hrow : p row = false)
    (hold : ∀ x ∈ s.rows, x.id = row.id → p x = false) :
    (s.replace row).rows.filter p = s.rows.filter p := by
  unfold replace
  generalize s.rows = rows at hold ⊢
  induction rows with
  | nil => rfl
  | cons x rows ih =>
    have hrest := ih fun y hy => hold y (List.mem_cons_of_mem x hy)
    dsimp only at hrest ⊢
    rw [List.map_cons]
    by_cases hid : x.id = row.id
    · have hx : p x = false := hold x (List.mem_cons_self ..) hid
      rw [if_pos hid, List.filter_cons_of_neg (by simp [hrow]),
        List.filter_cons_of_neg (by simp [hx]), hrest]
    · rw [if_neg hid, List.filter_cons, List.filter_cons, hrest]

namespace Indexed

/-- No row is on record twice. -/
theorem nodup_rows (h : Indexed s) : s.rows.Nodup := h.distinct.of_map

/-- No row is listed twice. -/
theorem nodup_activeFor (h : Indexed s) : (s.activeFor t k).Nodup := by
  rw [h.activeFor_eq, Stable.sort_eq]
  exact (List.perm_insertionSort ..).nodup_iff.2 (h.nodup_rows.filter _)

/-- **A list stays good**: what a delegate holds later is what of it is then still active. -/
theorem filter_activeFor (h : Indexed s) (ht : t ≤ t') (k : String) :
    (s.activeFor t k).filter (·.isActiveAt t') = s.activeFor t' k := by
  rw [h.activeFor_eq, h.activeFor_eq, Stable.filter_sort, List.filter_filter]
  refine congrArg (Stable.sort olderFirst) (List.filter_congr fun d _ => ?_)
  cases hlater : d.isActiveAt t' with
  | false => simp
  | true => simp [isActiveAt_of_le ht hlater]

/-- Two stores in which a delegate's active rows are the same give the delegate the same list. -/
theorem activeFor_congr (h : Indexed s) (h' : Indexed s')
    (hrows : s'.rows.filter (fun d => d.isActiveAt t && d.delegate == k) =
      s.rows.filter fun d => d.isActiveAt t && d.delegate == k) :
    s'.activeFor t k = s.activeFor t k := by
  rw [h.activeFor_eq, h'.activeFor_eq, hrows]

/-- To record a row changes no list but its delegate's. -/
theorem activeFor_create (h : Indexed s) (hcreate : s.create d = .ok s') (hk : k ≠ d.delegate) :
    s'.activeFor t k = s.activeFor t k := by
  refine h.activeFor_congr (h.create hcreate) ?_
  obtain ⟨-, rfl⟩ := create_cases hcreate
  show (s.rows ++ [d]).filter _ = _
  have hd : (d.delegate == k) = false := by simpa using Ne.symm hk
  simp [List.filter_append, hd]

/-- To revoke a row changes no list but its delegate's. -/
theorem activeFor_replace_revokedRow (h : Indexed s) (hrow : s.find id = some d)
    (hk : k ≠ d.delegate) :
    (s.replace (revokedRow d now)).activeFor t k = s.activeFor t k := by
  have hd := (h.find_eq_some_iff.1 hrow).1
  -- the row that gives way is another delegate's, and so is the one that takes its place
  refine h.activeFor_congr (h.replace_revokedRow hrow now) (filter_replace ?_ ?_)
  · simp [Ne.symm hk]
  · intro x hx hid
    rw [revokedRow_id] at hid
    obtain rfl := h.eq_of_id hx hd hid
    simp [Ne.symm hk]

/-- A cleanup removes nothing that anybody still holds or will hold again. -/
theorem activeFor_cleanup (h : Indexed s) (r : Span) (ht : now ≤ t) :
    (s.cleanup r now).2.activeFor t k = s.activeFor t k := by
  refine h.activeFor_congr (h.cleanup r now) ?_
  show (s.rows.filter _).filter _ = _
  rw [List.filter_filter]
  refine List.filter_congr fun d _ => ?_
  cases hover : isOverdue r now d with
  | false => simp
  | true =>
    have hactive : d.isActiveAt t = false := by
      rw [← Bool.not_eq_true]
      intro hlater
      have hnow : d.isActiveAt now = true := isActiveAt_of_le ht hlater
      rw [not_isActiveAt_of_isOverdue hover] at hnow
      exact absurd hnow (by decide)
    simp [hactive]

end Indexed

end Store

end Clearance.Delegation
