import Clearance.Proofs.Delegation.Ended
import Clearance.Proofs.Retention

/-!
# A cleanup removes what is overdue

Which rows a cleanup removes depends on three readings of a row: its state at the time, since when it
has been over, and how that compares with the time less the retention. This file puts them together for
a retention of any length (`OverdueBy`) and proves that a cleanup removes just these rows, and that one
cleanup can stand for two (`cleanup_exact`).

Two things carry the second part. A row that is over stays over since the same time, and the limit only
moves on, so that what is overdue once is overdue later (`OverdueBy.later`). And the index does not
depend on the order in which ids are taken out of it (`unindex_comm`), so that it does not matter which
of two cleanups takes which.
-/

namespace Clearance

open Time (Instant Span)

namespace Delegation

variable {d d' : Delegation} {t t' now since : Instant} {r : Span}

/-- Whether a row reads as over at a time and has been so for a span. -/
def OverdueBy (d : Delegation) (r : Span) (now : Instant) : Prop :=
  (d.stateAt now = .expired ∨ d.stateAt now = .revoked) ∧
    ∃ since, d.terminalSince now = some since ∧ since ≤ now.minus r

/-- Only what is over says since when. -/
theorem over_of_terminalSince (h : d.terminalSince t = some since) :
    d.stateAt t = .expired ∨ d.stateAt t = .revoked := by
  unfold terminalSince at h
  cases hstate : d.stateAt t with
  | active => simp [hstate] at h
  | expired => exact .inl rfl
  | revoked => exact .inr rfl

/-- **What is over stays over since the same time.** -/
theorem terminalSince_later (ht : t ≤ t') (h : d.terminalSince t = some since) :
    d.terminalSince t' = some since := by
  by_cases hstatus : d.status = .active
  · obtain ⟨hend, hpast⟩ := terminalSince_of_active hstatus h
    exact terminalSince_of_end hstatus hend (Int.le_trans hpast ht)
  · rw [terminalSince_of_ne_active hstatus t' t]
    exact h

/-- What has been over for long enough is so ever after. -/
theorem OverdueBy.later (h : d.OverdueBy r t) (hsteady : t.Steady r) (ht : t ≤ t') :
    d.OverdueBy r t' := by
  obtain ⟨-, since, hsince, hlimit⟩ := h
  have hlater := terminalSince_later ht hsince
  exact ⟨over_of_terminalSince hlater, since, hlater,
    Int.le_trans hlimit (Instant.minus_le_minus hsteady ht)⟩

/-- What has been over for some time is not active. -/
theorem OverdueBy.not_isActiveAt (h : d.OverdueBy r now) : d.isActiveAt now = false := by
  rw [← Bool.not_eq_true, ← stateAt_eq_active_iff]
  intro hactive
  rcases h.1 with hover | hover <;> rw [hover] at hactive <;> exact State.noConfusion hactive

namespace Store

variable {s : Store} {index : Register (List Uuid)}

/-! ## Taking ids out of the index -/

/-- Of a list that two ids are taken out of, what neither is stays, if anything. -/
theorem shortened_shortened {k : String} (hk : k = d.delegate) (hk' : k = d'.delegate)
    (ids : List Uuid) :
    shortened d' k (shortened d k (some ids)) =
      (some (ids.filter fun id => id != d.id && id != d'.id)).filter (!·.isEmpty) := by
  have hboth : (ids.filter fun id => id != d.id && id != d'.id) =
      (ids.filter (· != d.id)).filter (· != d'.id) := by
    rw [List.filter_filter]
    exact List.filter_congr fun id _ => Bool.and_comm ..
  unfold shortened
  rw [if_pos hk, if_pos hk', hboth, Option.map_some, Option.filter_some]
  split
  next => rfl
  next hempty =>
    -- nothing is left for the second id
    have hnil : ids.filter (· != d.id) = [] := by simpa using hempty
    rw [hnil]
    rfl

/-- Two ids can be taken off the index in either order. -/
theorem shortened_comm (d d' : Delegation) (k : String) (ids : Option (List Uuid)) :
    shortened d' k (shortened d k ids) = shortened d k (shortened d' k ids) := by
  by_cases hk : k = d.delegate
  · by_cases hk' : k = d'.delegate
    · cases ids with
      | none => simp [shortened, ← hk, ← hk']
      | some ids =>
        rw [shortened_shortened hk hk', shortened_shortened hk' hk]
        simp only [Bool.and_comm]
    · simp only [shortened, if_neg hk']
  · simp only [shortened, if_neg hk]

/-- **It does not matter which id is taken out first.** -/
theorem unindex_comm (index : Register (List Uuid)) (d d' : Delegation) :
    unindex (unindex index d) d' = unindex (unindex index d') d := by
  refine Register.ext_get? fun k => ?_
  rw [get?_unindex_eq_shortened, get?_unindex_eq_shortened, get?_unindex_eq_shortened,
    get?_unindex_eq_shortened, shortened_comm]

/-- The order in which rows are taken off the index makes no difference to it. -/
theorem foldl_unindex_perm {l l' : List Delegation} (h : l.Perm l') (index : Register (List Uuid)) :
    l.foldl unindex index = l'.foldl unindex index :=
  h.foldl_eq' (fun d _ d' _ i => unindex_comm i d d') index

/-! ## Removing rows -/

/-- Where no row is picked, nothing happens. -/
theorem remove_eq_self {gone : Delegation → Bool} (h : ∀ d ∈ s.rows, gone d = false) :
    s.remove gone = (0, s) := by
  have hnone : s.rows.filter gone = [] := List.filter_eq_nil_iff.2 fun d hd => by simp [h d hd]
  have hall : s.rows.filter (!gone ·) = s.rows :=
    List.filter_eq_self.2 fun d hd => by simp [h d hd]
  unfold remove
  rw [hnone, hall]
  rfl

/-- **One removal for two**: what a wider test picks need not have a part of it removed before. -/
theorem remove_remove {gone gone' : Delegation → Bool} (h : ∀ d ∈ s.rows, gone d → gone' d) :
    ((s.remove gone).2.remove gone').2 = (s.remove gone').2 := by
  have hstays : (s.rows.filter (!gone ·)).filter (!gone' ·) = s.rows.filter (!gone' ·) := by
    rw [List.filter_filter]
    refine List.filter_congr fun d hd => ?_
    cases hgone : gone d with
    | false => exact Bool.and_true _
    | true =>
      rw [h d hd hgone]
      rfl
  -- the rows that the two removals take, one after the other, are those of the wider one
  have htaken : (s.rows.filter gone ++ (s.rows.filter (!gone ·)).filter gone').Perm
      (s.rows.filter gone') := by
    have hfirst : s.rows.filter gone = (s.rows.filter gone').filter gone := by
      rw [List.filter_filter]
      refine List.filter_congr fun d hd => ?_
      cases hgone : gone d with
      | false => rfl
      | true => exact (h d hd hgone).symm
    have hsecond : (s.rows.filter (!gone ·)).filter gone' =
        (s.rows.filter gone').filter (!gone ·) := by
      rw [List.filter_filter, List.filter_filter]
      exact List.filter_congr fun d _ => Bool.and_comm ..
    rw [hfirst, hsecond]
    exact List.filter_append_perm gone (s.rows.filter gone')
  have hindex : ((s.rows.filter (!gone ·)).filter gone').foldl unindex
      ((s.rows.filter gone).foldl unindex s.index) = (s.rows.filter gone').foldl unindex s.index := by
    rw [← List.foldl_append]
    exact foldl_unindex_perm htaken s.index
  exact congrArg₂ Store.mk hstays hindex

/-! ## Cleanups -/

/-- What the cleanup tests is whether a row has been over for as long as the span. -/
theorem isOverdue_iff : isOverdue r now d = true ↔ d.OverdueBy r now := by
  unfold isOverdue OverdueBy
  rw [Option.any_eq_true]
  simp only [decide_eq_true_eq]
  constructor
  · rintro ⟨since, hsince, hlimit⟩
    exact ⟨over_of_terminalSince hsince, since, hsince, hlimit⟩
  · rintro ⟨-, since, hsince, hlimit⟩
    exact ⟨since, hsince, hlimit⟩

instance (d : Delegation) (r : Span) (now : Instant) : Decidable (d.OverdueBy r now) :=
  decidable_of_iff _ isOverdue_iff

/-- What a cleanup comes to. -/
structure Cleaned (s : Store) (r : Span) (now : Instant) : Prop where
  /-- It removes the overdue rows, and leaves the others as and where they are. -/
  rows : (s.cleanup r now).2.rows = s.rows.filter (¬ ·.OverdueBy r now)
  counted : (s.cleanup r now).1 = s.rows.countP (·.OverdueBy r now)
  /-- No row that is active is removed. -/
  active : ∀ d ∈ s.rows, d.isActiveAt now = true → d ∈ (s.cleanup r now).2.rows
  /-- Another one at once finds nothing to do. -/
  again : (s.cleanup r now).2.cleanup r now = (0, (s.cleanup r now).2)
  /-- A later one does what it would have done without. -/
  later : now.Steady r → ∀ t, now ≤ t → ((s.cleanup r now).2.cleanup r t).2 = (s.cleanup r t).2

theorem isOverdue_eq_decide (r : Span) (now : Instant) :
    isOverdue r now = fun d => decide (d.OverdueBy r now) := by
  funext d
  rw [Bool.eq_iff_iff, isOverdue_iff, decide_eq_true_iff]

/-- A cleanup leaves what is not overdue. -/
theorem mem_cleanup : d ∈ (s.cleanup r now).2.rows ↔ d ∈ s.rows ∧ ¬ d.OverdueBy r now := by
  unfold cleanup remove
  rw [List.mem_filter, Bool.not_eq_true', ← Bool.not_eq_true, isOverdue_iff]

/-- **A cleanup removes what is overdue and nothing else**, from any store, at any time and after any
retention: it counts what it removes, never removes what is active, has nothing left to do when it is
made again, and leaves to a later one what that would have left without it. -/
theorem cleanup_exact (s : Store) (r : Span) (now : Instant) : s.Cleaned r now where
  rows := by
    unfold cleanup remove
    rw [isOverdue_eq_decide]
    exact List.filter_congr fun d _ => (decide_not ..).symm
  counted := by
    rw [List.countP_eq_length_filter, ← isOverdue_eq_decide]
    rfl
  active := by
    intro d hd hactive
    refine mem_cleanup.2 ⟨hd, fun hover => ?_⟩
    rw [hover.not_isActiveAt] at hactive
    exact Bool.noConfusion hactive
  again := by
    refine remove_eq_self fun d hd => ?_
    rw [← Bool.not_eq_true, isOverdue_iff]
    exact (mem_cleanup.1 hd).2
  later := by
    intro hsteady t ht
    refine remove_remove fun d _ hover => ?_
    exact isOverdue_iff.2 ((isOverdue_iff.1 hover).later hsteady ht)

/-- Two and a quarter seconds. -/
def brief : Span := { seconds := 2, nanos := 250000000 }

/-- Leave for bob to read, on record in some state. -/
def lent (id : Uuid) (status : State) (expiresAt : Option Instant) : Delegation :=
  { id, delegator := "alice", delegate := "bob", scope := ⟨["*"], ["read"], none⟩
    createdAt := (second 0).time, expiresAt, transitive := false, status }

/-- After ten seconds the first row is active, the second ends just then, the third has been over for
just two and a quarter seconds, the fourth is revoked since nobody knows when, and the fifth has been over
for two seconds. -/
def aging : Store where
  rows :=
    [lent ⟨1⟩ .active none, lent ⟨2⟩ .active (some (second 10).time),
      lent ⟨3⟩ .active (some ((second 10).time.minus brief)), lent ⟨4⟩ .revoked none,
      lent ⟨5⟩ .expired (some (second 8).time)]
  index := .ofList [("bob", [⟨1⟩, ⟨2⟩, ⟨3⟩, ⟨4⟩, ⟨5⟩])]

/-- Of five rows a cleanup removes the two that have been over for long enough. -/
theorem aging_cleaned :
    (aging.cleanup brief (second 10).time).1 = 2 ∧
      (aging.cleanup brief (second 10).time).2.rows.map (·.id) = [⟨1⟩, ⟨2⟩, ⟨5⟩] ∧
      (second 10).time.Steady brief ∧ (second 10).time ≤ (second 13).time ∧
      ((aging.cleanup brief (second 10).time).2.cleanup brief (second 13).time).2 =
        (aging.cleanup brief (second 13).time).2 :=
  ⟨by decide +kernel, by decide +kernel, by decide, by decide,
    (cleanup_exact aging brief (second 10).time).later (by decide) (second 13).time (by decide)⟩

end Store

end Delegation

end Clearance
