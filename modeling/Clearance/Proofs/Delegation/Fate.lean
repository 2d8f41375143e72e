import Clearance.Proofs.Delegation.Run

/-!
# What becomes of a row

Between two moments of a run a row can only have stayed as it was, been revoked once, or been
removed. `origin_of_mem_left` says of one operation where a row comes from that is on record after
it: it was granted just then, or stood there before and is now revoked if the operation revokes it.
Along a run that adds up to `exists_outlived`: what is still there of a row is what it was, or the
same with the time of the first operation that revoked it (`Outlived`).

An id names one row of a run as long as no other row is granted under it, which is what a fresh id
is for.
-/

namespace Clearance.Delegation

open Time (Instant)

/-- What a row is after some operations, if it is still there. -/
inductive Outlived (d : Delegation) (ops : List (Moment × Op)) : Delegation → Prop
  | kept (h : d.status = .revoked ∨ ∀ e ∈ ops, e.2 ≠ .revoke d.id) : Outlived d ops d
  | revoked {earlier later : List (Moment × Op)} {now : Moment}
      (hops : ops = earlier ++ (now, .revoke d.id) :: later)
      (hfirst : ∀ e ∈ earlier, e.2 ≠ .revoke d.id) (hstatus : d.status = .active) :
      Outlived d ops { d with status := .revoked, revokedAt := some now.time }

variable {d row : Delegation} {ops : List (Moment × Op)} {t t' : Instant}

/-- A row keeps its id. -/
theorem Outlived.id_eq (h : Outlived d ops row) : row.id = d.id := by
  cases h <;> rfl

/-- Nothing that was over is active again. -/
theorem Outlived.not_isActiveAt (h : Outlived d ops row) (ht : t ≤ t')
    (hover : d.isActiveAt t = false) : row.isActiveAt t' = false := by
  cases h with
  | kept =>
    rw [← Bool.not_eq_true]
    intro hlater
    rw [isActiveAt_of_le ht hlater] at hover
    exact absurd hover (by decide)
  | revoked => rfl

/-- An operation that does not revoke the row leaves it as it was. -/
theorem Outlived.concat_of_ne (h : Outlived d ops row) {e : Moment × Op} (he : e.2 ≠ .revoke d.id) :
    Outlived d (ops ++ [e]) row := by
  cases h with
  | kept h =>
    refine .kept (h.imp_right fun hops e' he' => ?_)
    rcases List.mem_append.1 he' with he' | he'
    · exact hops e' he'
    · rw [List.mem_singleton.1 he']
      exact he
  | revoked hops hfirst hstatus =>
    rw [hops, List.append_assoc, List.cons_append]
    exact .revoked rfl hfirst hstatus

/-- An operation that revokes the row does so only if it has not been revoked before. -/
theorem Outlived.concat_revoke (h : Outlived d ops row) (hstatus : d.status ≠ .expired)
    (now : Moment) : Outlived d (ops ++ [(now, .revoke d.id)]) (Store.revokedRow row now.time) := by
  cases h with
  | kept h =>
    by_cases hrevoked : d.status = .revoked
    · rw [Store.revokedRow, if_pos hrevoked]
      exact .kept (.inl hrevoked)
    · have hactive : d.status = .active := by
        cases hs : d.status with
        | active => rfl
        | expired => exact absurd hs hstatus
        | revoked => exact absurd hs hrevoked
      rw [Store.revokedRow, if_neg hrevoked]
      exact .revoked rfl (h.resolve_left hrevoked) hactive
  | revoked hops hfirst hstatus =>
    rw [Store.revokedRow, if_pos rfl, hops, List.append_assoc, List.cons_append]
    exact .revoked rfl hfirst hstatus

namespace Service

variable {s : Service} {w : Memory} {now : Moment} {op : Op}

/-- A revocation touches no row but the one it is about. -/
theorem origin_of_mem_revoke {id : Uuid} (hi : w.delegations.Indexed)
    (h : row ∈ (s.left w now (.revoke id)).delegations.rows) :
    ∃ old ∈ w.delegations.rows, (id ≠ old.id ∧ row = old) ∨
      (id = old.id ∧ row = Store.revokedRow old now.time) := by
  rw [left] at h
  have hother : row ∈ w.delegations.rows → row.id ≠ id →
      ∃ old ∈ w.delegations.rows, (id ≠ old.id ∧ row = old) ∨
        (id = old.id ∧ row = Store.revokedRow old now.time) :=
    fun hrow hne => ⟨row, hrow, .inl ⟨hne.symm, rfl⟩⟩
  cases hfound : w.delegations.find id with
  | none =>
    rw [hfound] at h
    refine hother h fun hid => ?_
    exact absurd hfound (by rw [hi.find_eq_some_iff.2 ⟨h, hid⟩]; simp)
  | some old =>
    rw [hfound] at h
    obtain ⟨hold, rfl⟩ := hi.find_eq_some_iff.1 hfound
    dsimp only at h
    split at h
    next hstatus =>
      by_cases hid : row.id = old.id
      · obtain rfl := hi.eq_of_id h hold hid
        exact ⟨row, h, .inr ⟨rfl, by rw [Store.revokedRow, if_pos hstatus]⟩⟩
      · exact hother h hid
    next =>
      obtain ⟨before, hbefore, rfl⟩ := List.mem_map.1 h
      rw [Store.revokedRow_id] at hother ⊢
      by_cases hid : before.id = old.id
      · rw [if_pos hid]
        exact ⟨old, hold, .inr ⟨rfl, rfl⟩⟩
      · rw [if_neg hid] at hother ⊢
        exact hother hbefore hid

/-- **Where a row comes from** that is on record after an operation. -/
theorem origin_of_mem_left (hi : w.delegations.Indexed)
    (h : row ∈ (s.left w now op).delegations.rows) :
    (∃ p, op = .grant row.id p ∧ row = p.granted row.id now.time) ∨
      ∃ old ∈ w.delegations.rows, (op ≠ .revoke old.id ∧ row = old) ∨
        (op = .revoke old.id ∧ row = Store.revokedRow old now.time) := by
  cases op with
  | grant id p =>
    rw [left] at h
    cases hout : s.outcome w now id p with
    | error e =>
      rw [hout] at h
      exact .inr ⟨row, h, .inl ⟨Op.noConfusion, rfl⟩⟩
    | ok store =>
      rw [hout] at h
      obtain ⟨-, hcreate⟩ := outcome_ok_iff.1 hout
      obtain ⟨-, rfl⟩ := Store.create_cases hcreate
      rcases List.mem_append.1 h with hold | hnew
      · exact .inr ⟨row, hold, .inl ⟨Op.noConfusion, rfl⟩⟩
      · rw [List.mem_singleton.1 hnew]
        exact .inl ⟨p, rfl, rfl⟩
  | revoke id =>
    obtain ⟨old, hold, ⟨hne, hkept⟩ | ⟨rfl, hrevoked⟩⟩ := origin_of_mem_revoke hi h
    · exact .inr ⟨old, hold, .inl ⟨fun heq => hne (Op.revoke.inj heq), hkept⟩⟩
    · exact .inr ⟨old, hold, .inr ⟨rfl, hrevoked⟩⟩
  | cleanup => exact .inr ⟨row, (List.mem_filter.1 h).1, .inl ⟨Op.noConfusion, rfl⟩⟩
  | find id => exact .inr ⟨row, h, .inl ⟨Op.noConfusion, rfl⟩⟩
  | activeFor delegate => exact .inr ⟨row, h, .inl ⟨Op.noConfusion, rfl⟩⟩
  | permits delegate resource action => exact .inr ⟨row, h, .inl ⟨Op.noConfusion, rfl⟩⟩
  | policies store => exact .inr ⟨row, h, .inl ⟨Op.noConfusion, rfl⟩⟩

/-- A step is what is left, with more on record. -/
theorem step_delegations (s : Service) (w : Memory) (e : Moment × Op) :
    (s.step w e).delegations = (s.left w e.1 e.2).delegations := by
  obtain ⟨j, hj⟩ := perform_run s w e.1 e.2
  unfold step
  rw [hj]
  rfl

/-- The index of the store is right after every run. -/
theorem after_indexed (hi : w.delegations.Indexed) (ops : List (Moment × Op)) :
    (s.after w ops).delegations.Indexed := by
  induction ops using List.reverseRecOn with
  | nil => exact hi
  | append_singleton ops e ih =>
    rw [after_append]
    exact (step_changes s _ e.1 e.2).indexed ih

theorem after_append_list (w : Memory) (ops ops' : List (Moment × Op)) :
    s.after w (ops ++ ops') = s.after (s.after w ops) ops' := by
  unfold after
  rw [List.foldl_append]

/-- No row is ever put on record as expired. -/
theorem after_stamped (hi : w.delegations.Indexed)
    (hstamped : ∀ d ∈ w.delegations.rows, d.status ≠ .expired)
    (ops : List (Moment × Op)) : ∀ d ∈ (s.after w ops).delegations.rows, d.status ≠ .expired := by
  induction ops using List.reverseRecOn with
  | nil => exact hstamped
  | append_singleton ops e ih =>
    intro row hrow
    rw [after_append, step_delegations] at hrow
    rcases origin_of_mem_left (after_indexed hi ops) hrow with
      ⟨p, -, hnew⟩ | ⟨old, hold, ⟨-, rfl⟩ | ⟨-, rfl⟩⟩
    · rw [hnew]
      exact State.noConfusion
    · exact ih row hold
    · rw [Store.revokedRow_status]
      exact State.noConfusion

/-- **What is on record after a run was there before**, unless it was granted meanwhile, and has been
revoked at most once since. The induction is on the run from its end. -/
theorem exists_outlived (hi : w.delegations.Indexed)
    (hstamped : ∀ d ∈ w.delegations.rows, d.status ≠ .expired)
    (hrow : row ∈ (s.after w ops).delegations.rows)
    (hfresh : ∀ e ∈ ops, ∀ p, e.2 ≠ .grant row.id p) :
    ∃ d ∈ w.delegations.rows, Outlived d ops row := by
  induction ops using List.reverseRecOn generalizing row with
  | nil => exact ⟨row, hrow, .kept (.inr fun e he => absurd he List.not_mem_nil)⟩
  | append_singleton ops e ih =>
    rw [after_append, step_delegations] at hrow
    have hbefore : ∀ e ∈ ops, ∀ p, e.2 ≠ .grant row.id p := fun e he => hfresh e (by simp [he])
    rcases origin_of_mem_left (after_indexed hi ops) hrow with
      ⟨p, hgrant, -⟩ | ⟨old, hold, hkept | hrevoked⟩
    · exact absurd hgrant (hfresh e (by simp) p)
    · obtain ⟨hne, rfl⟩ := hkept
      obtain ⟨d, hd, houtlived⟩ := ih hold hbefore
      rw [houtlived.id_eq] at hne
      exact ⟨d, hd, houtlived.concat_of_ne hne⟩
    · obtain ⟨hrevoke, rfl⟩ := hrevoked
      rw [Store.revokedRow_id] at hbefore
      obtain ⟨d, hd, houtlived⟩ := ih hold hbefore
      obtain ⟨now, op⟩ := e
      obtain rfl : op = .revoke d.id := by
        rw [← houtlived.id_eq]
        exact hrevoke
      exact ⟨d, hd, houtlived.concat_revoke (hstamped d hd) now⟩

end Service

end Clearance.Delegation
