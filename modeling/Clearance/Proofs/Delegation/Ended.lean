import Clearance.Proofs.Codec.Delegation
import Clearance.Proofs.Delegation.Caching
import Clearance.Proofs.Delegation.Fate

/-!
# What has ended never comes back

Four readers look at the rows: look-ups, questions whether something is permitted, the validator, and
the walk behind a delegator. Once a row has been revoked, has run out or is removed, none of them will
ever find it again (`ended_for_good`), and the last two come to what they would if the row had never
been there. It makes no difference that calls of the cache may fail on the way (`afterAmid`).

Look-ups that go through the cache are the exception. If the cache could not drop a list when the row
on it was revoked, that is only noted, and the row stays on the list. And a cached list knows of an end
only what its text says: for a leap second in the middle of a minute that is later than the end
(`Instant.written`). A row that `Lingers` for one of these reasons can be listed (`lingering_listed`);
no other can. `Tracked` carries that: whatever a cached list still shows of a row as active is on
record, active, under the same id and for the same delegate, or an end of the row is `Misread`.
-/

namespace Clearance.Delegation

open Time (Instant)

/-- A row is active while it is not revoked and its end is to come. -/
theorem isActiveAt_iff {d : Delegation} {t : Instant} :
    d.isActiveAt t = true ↔ d.status = .active ∧ ∀ e, d.expiresAt = some e → ¬ e ≤ t := by
  unfold isActiveAt isExpiredAt
  cases d.expiresAt <;> simp

/-- A row reads as active just while it is. -/
theorem stateAt_eq_active_iff {d : Delegation} {t : Instant} :
    d.stateAt t = .active ↔ d.isActiveAt t = true := by
  unfold stateAt isActiveAt
  cases hstatus : d.status <;> cases hexpired : d.isExpiredAt t <;> decide

namespace Store

variable {s : Store} {d : Delegation} {t now : Instant} {id : Uuid} {k : String}

/-- Whether what is on record under an id, if anything is, is over. -/
def Ended (s : Store) (t : Instant) (id : Uuid) : Prop :=
  ∀ d, s.find id = some d → d.stateAt t ≠ .active

instance (s : Store) (t : Instant) (id : Uuid) : Decidable (s.Ended t id) :=
  decidable_of_iff ((s.find id).all (·.stateAt t ≠ .active) = true) <| by
    unfold Ended
    cases s.find id <;> simp

/-- What an id has on record is over if no row of it is active. -/
theorem Indexed.ended_iff (h : Indexed s) :
    s.Ended t id ↔ ∀ d ∈ s.rows, d.id = id → d.isActiveAt t = false := by
  unfold Ended
  simp only [h.find_eq_some_iff, ne_eq, stateAt_eq_active_iff, Bool.not_eq_true, and_imp]

/-- The store without the row of an id, and without the id in the index. -/
def erase (s : Store) (id : Uuid) : Store :=
  match s.find id with
  | none => s
  | some d => ⟨s.rows.filter (·.id != id), unindex s.index d⟩

/-- The store without a row has a right index, as the store had. -/
theorem Indexed.erase (h : Indexed s) (id : Uuid) : Indexed (s.erase id) := by
  unfold Store.erase
  split
  next => exact h
  next d hd =>
    obtain ⟨hrow, rfl⟩ := h.find_eq_some_iff.1 hd
    refine ⟨h.distinct.sublist (List.filter_sublist.map _), fun k => ?_, unindex_kept h.kept d⟩
    show ((unindex s.index d).get? k).getD [] = _
    have hlists : (s.index.get? k).getD [] = (s.rows.filter (·.delegate == k)).map (·.id) := h.lists k
    rw [get?_unindex, hlists, List.filter_filter]
    split
    next hk =>
      rw [List.filter_map, List.filter_filter]
      refine congrArg (List.map _) (List.filter_congr fun row _ => ?_)
      rw [Function.comp_apply, Bool.and_comm]
    next hk =>
      -- the row that goes is another delegate's
      refine congrArg (List.map _) (List.filter_congr fun row hmem => ?_)
      by_cases hdelegate : row.delegate = k
      · have hne : row.id ≠ d.id := by
          intro hid
          rw [h.eq_of_id hmem hrow hid] at hdelegate
          exact hk hdelegate.symm
        simp [hne]
      · simp [hdelegate]

/-- A row that is over is on nobody's list. -/
theorem Indexed.activeFor_erase (h : Indexed s) (hended : s.Ended t id) (k : String) :
    (s.erase id).activeFor t k = s.activeFor t k := by
  have hover := h.ended_iff.1 hended
  refine h.activeFor_congr (h.erase id) ?_
  unfold Store.erase
  split
  next => rfl
  next d hd =>
    show (s.rows.filter _).filter _ = _
    rw [List.filter_filter]
    refine List.filter_congr fun row hrow => ?_
    by_cases hid : row.id = id
    · simp [hover row hrow hid]
    · simp [hid]

end Store

/-- The memory without the row of an id. -/
def Memory.erase (w : Memory) (id : Uuid) : Memory :=
  { w with delegations := w.delegations.erase id }

/-- Only policies and what is held decide what the validator comes to. -/
theorem Validator.check_congr (v : Validator) {w w' : Memory} (hpolicies : w.policies = w'.policies)
    {now : Moment} (hheld : w.delegations.activeFor now.time = w'.delegations.activeFor now.time)
    (delegator : Subject) (scope : Scope) :
    (Attempt.on (v.check Memory.backend now delegator scope) w).1 =
      (Attempt.on (v.check Memory.backend now delegator scope) w').1 := by
  obtain ⟨j, hj⟩ := check_on v now delegator scope w
  obtain ⟨j', hj'⟩ := check_on v now delegator scope w'
  rw [hj, hj']
  unfold verdict holds heldByDelegation
  rw [hpolicies, hheld]

/-- A run amid failures of the cache: each operation, and which calls fail during it. -/
abbrev Course := List ((Moment × Op) × Outage)

/-- Whether an instant is an end that an id has on record, or that is asked for it in the course of a
run. -/
def EndOf (w : Memory) (ops : Course) (id : Uuid) (e : Instant) : Prop :=
  (∃ d ∈ w.delegations.rows, d.id = id ∧ d.expiresAt = some e) ∨
    ∃ c ∈ ops, ∃ p, c.1.2 = .grant id p ∧ p.expiresAt = some e

/-- Whether an end has come, and what is read for it has not. -/
def Misread (ends : Instant → Prop) (t : Instant) : Prop := ∃ e, ends e ∧ e ≤ t ∧ t < e.written

/-- Nothing is misread of an end that is regular, as all are that have been read from texts. -/
theorem not_misread {ends : Instant → Prop} (h : ∀ e, ends e → e.IsRegular) (t : Instant) :
    ¬ Misread ends t := by
  intro hmisread
  obtain ⟨e, he, hpast, hfuture⟩ := hmisread
  rw [Instant.written_eq_self (h e he)] at hfuture
  exact absurd (Int.lt_of_le_of_lt hpast hfuture) (Int.lt_irrefl _)

/-- Whether a cached list may show more of a row than there is: an end of it is misread, or no list
could be dropped when it was revoked. -/
def Lingers (w : Memory) (ops : Course) (id : Uuid) (t : Instant) : Prop :=
  Misread (EndOf w ops id) t ∨ ∃ c ∈ ops, c.1.2 = .revoke id ∧ c.2.delete ≠ none

namespace Service

variable {s : Service} {w w' : Memory} {now : Moment} {t t' : Instant} {k : String} {id : Uuid}
  {o : Outage} {op : Op} {ends : Instant → Prop}

/-! ## Runs amid failures -/

/-- The memory after one operation, during which calls of the cache fail. -/
def stepAmid (s : Service) (w : Memory) (e : (Moment × Op) × Outage) : Memory :=
  ((s.performOn e.2.backend e.1.1 e.1.2).run w).2

/-- The memory after a run amid failures of the cache. -/
def afterAmid (s : Service) (w : Memory) (ops : Course) : Memory := ops.foldl s.stepAmid w

theorem stepAmid_eq (s : Service) (w : Memory) (e : (Moment × Op) × Outage) :
    ∃ j, s.stepAmid w e = (s.leftAmid e.2 w e.1.1 e.1.2).noted j := by
  obtain ⟨j, hj⟩ := perform_amid s e.2 w e.1.1 e.1.2
  exact ⟨j, congrArg Prod.snd hj⟩

/-- Whatever fails of the cache, the stores become what they become without one. -/
theorem leftAmid_alike (h : w.Alike w') (o : Outage) (now : Moment) (op : Op) :
    (s.leftAmid o w now op).Alike (s.uncached.left w' now op) := by
  cases op with
  | grant id p => exact left_alike (s := s.droppingAmid o) h now (.grant id p)
  | revoke id => exact left_alike (s := s.droppingAmid o) h now (.revoke id)
  | activeFor delegate => exact ⟨h.policies, h.delegations, h.retention⟩
  | permits delegate resource action => exact ⟨h.policies, h.delegations, h.retention⟩
  | cleanup => exact left_alike (s := s) h now .cleanup
  | find id => exact h
  | policies store => exact left_alike (s := s) h now (.policies store)

/-- Along a run the stores become what they become without a cache, whatever fails. -/
theorem afterAmid_alike (s : Service) (h : w.Alike w') (ops : Course) :
    (s.afterAmid w ops).Alike (s.uncached.after w' (ops.map (·.1))) := by
  induction ops generalizing w w' with
  | nil => exact h
  | cons e ops ih =>
    obtain ⟨j, hj⟩ := s.stepAmid_eq w e
    obtain ⟨j', hj'⟩ := perform_run s.uncached w' e.1.1 e.1.2
    have halike := leftAmid_alike (s := s) h e.2 e.1.1 e.1.2
    have hnext : (s.stepAmid w e).Alike (s.uncached.step w' e.1) := by
      unfold Service.step
      rw [hj, hj']
      exact ⟨halike.policies, halike.delegations, halike.retention⟩
    exact ih hnext

theorem afterAmid_delegations (s : Service) (w : Memory) (ops : Course) :
    (s.afterAmid w ops).delegations = (s.uncached.after w (ops.map (·.1))).delegations :=
  (s.afterAmid_alike ⟨rfl, rfl, rfl⟩ ops).delegations

theorem leftAmid_delegations (s : Service) (o : Outage) (w : Memory) (now : Moment) (op : Op) :
    (s.leftAmid o w now op).delegations = (s.uncached.left w now op).delegations :=
  (leftAmid_alike ⟨rfl, rfl, rfl⟩ o now op).delegations

/-! ## What a cached list can show -/

/-- Whether from a time on all that cached lists show of a row as active is on record and active,
unless an end is misread. -/
def Tracked (ends : Instant → Prop) (id : Uuid) (t : Instant) (w : Memory) : Prop :=
  ∀ k text ds, w.cache.value? (cacheKey k) = some text → readList text = some ds →
    ∀ d ∈ ds, d.id = id → ∀ t', t ≤ t' → d.isActiveAt t' = true →
      (∃ row ∈ w.delegations.rows, row.id = id ∧ row.delegate = k ∧ row.isActiveAt t' = true) ∨
        Misread ends t'

theorem Tracked.later (h : Tracked ends id t w) (ht : t ≤ t') : Tracked ends id t' w :=
  fun k text ds htext hds d hd hid t'' ht'' => h k text ds htext hds d hd hid t'' (Int.le_trans ht ht'')

/-- Cached lists stay right if the rows of the id stay, or the lists are dropped that may show them. -/
theorem Tracked.of_kept (h : Tracked ends id t w)
    (hcache : ∀ k text, w'.cache.value? (cacheKey k) = some text →
      w.cache.value? (cacheKey k) = some text ∧ ∀ row ∈ w.delegations.rows, row.id = id →
        row.delegate = k → row ∈ w'.delegations.rows) : Tracked ends id t w' := by
  intro k text ds htext hds d hd hid t' ht' hactive
  obtain ⟨hbefore, hrows⟩ := hcache k text htext
  refine (h k text ds hbefore hds d hd hid t' ht' hactive).imp_left fun hrow => ?_
  obtain ⟨row, hrow, hid, hdelegate, hrow'⟩ := hrow
  exact ⟨row, hrows row hrow hid hdelegate, hid, hdelegate, hrow'⟩

/-- What a look-up adds to the cache is what is on record. -/
theorem Tracked.lookUp (h : Tracked ends id now.time w) (hi : w.delegations.Indexed)
    (hends : ∀ d ∈ w.delegations.rows, d.id = id → ∀ e, d.expiresAt = some e → ends e) (k : String) :
    Tracked ends id now.time { w with cache := s.cacheAmid o w now k } := by
  intro k' text ds htext hds d hd hid t' ht' hactive
  change (s.cacheAmid o w now k).value? (cacheKey k') = some text at htext
  rcases value?_cacheAmid htext with htext | ⟨hk, rfl⟩
  · exact h k' text ds htext hds d hd hid t' ht' hactive
  · obtain rfl := cacheKey_inj.1 hk
    obtain ⟨row, hrow, hrowid, hexpires⟩ := readList_echo hds d hd
    obtain ⟨hrow, hnow, hdelegate⟩ := hi.mem_activeFor.1 hrow
    obtain rfl : row.id = id := hrowid.symm.trans hid
    by_cases hlater : row.isActiveAt t' = true
    · exact .inl ⟨row, hrow, rfl, hdelegate, hlater⟩
    · -- the row was active, so it has run out since; its echo has not
      have hstatus : row.status = .active := (isActiveAt_iff.1 hnow).1
      have hover : ∃ e, row.expiresAt = some e ∧ e ≤ t' := by
        simpa [isActiveAt_iff, hstatus] using hlater
      obtain ⟨e, hend, hpast⟩ := hover
      rw [hend] at hexpires
      exact .inr ⟨e, hends row hrow rfl e hend, hpast,
        Int.not_le.1 ((isActiveAt_iff.1 hactive).2 e.written hexpires)⟩

/-- A revocation takes the row off the cached list of its delegate, if that can be dropped. -/
theorem Tracked.revoke (hcaching : s.caching = true) (h : Tracked ends id t w)
    (hi : w.delegations.Indexed) {id' : Uuid} (hdropped : id' = id → o.delete = none) :
    Tracked ends id t (s.leftAmid o w now (.revoke id')) := by
  rw [leftAmid, left]
  cases hfound : w.delegations.find id' with
  | none => exact h
  | some d =>
    obtain ⟨hd, rfl⟩ := hi.find_eq_some_iff.1 hfound
    dsimp only
    split
    next => exact h
    next =>
      refine h.of_kept fun k text htext => ?_
      obtain ⟨htext, hkey⟩ := value?_storing htext
      refine ⟨htext, fun row hrow hid hdelegate => ?_⟩
      have hother : row.id ≠ d.id := by
        intro hsame
        obtain rfl := hi.eq_of_id hrow hd hsame
        have hdropping : (s.droppingAmid o).caching = true := by
          rw [droppingAmid, hdropped hid, hcaching]
          rfl
        exact hkey hdropping (by rw [hdelegate])
      refine List.mem_map.2 ⟨row, hrow, if_neg ?_⟩
      rw [Store.revokedRow_id]
      exact hother

/-- Every operation keeps cached lists right about a row, unless it revokes the row and cannot drop the
list of it. -/
theorem Tracked.left (hcaching : s.caching = true) (h : Tracked ends id now.time w)
    (hi : w.delegations.Indexed)
    (hends : ∀ d ∈ w.delegations.rows, d.id = id → ∀ e, d.expiresAt = some e → ends e)
    (hdropped : op = .revoke id → o.delete = none) :
    Tracked ends id now.time (s.leftAmid o w now op) := by
  cases op with
  | grant id' p =>
    rw [leftAmid, Service.left]
    cases hout : (s.droppingAmid o).outcome w now id' p with
    | error e => exact h
    | ok store =>
      obtain ⟨-, hcreate⟩ := outcome_ok_iff.1 hout
      obtain ⟨-, rfl⟩ := Store.create_cases hcreate
      refine h.of_kept fun k text htext => ⟨(value?_storing htext).1, fun row hrow _ _ => ?_⟩
      exact List.mem_append_left _ hrow
  | revoke id' => exact h.revoke hcaching hi fun hid => hdropped (congrArg Op.revoke hid)
  | cleanup =>
    intro k text ds htext hds d hd hid t' ht' hactive
    refine (h k text ds htext hds d hd hid t' ht' hactive).imp_left fun hrow => ?_
    obtain ⟨row, hrow, hid, hdelegate, hrow'⟩ := hrow
    refine ⟨row, List.mem_filter.2 ⟨hrow, ?_⟩, hid, hdelegate, hrow'⟩
    -- what is removed is over
    rw [Bool.not_eq_true', ← Bool.not_eq_true]
    intro hoverdue
    have hover := Store.not_isActiveAt_of_isOverdue hoverdue
    rw [isActiveAt_of_le ht' hrow'] at hover
    exact absurd hover (by decide)
  | find id => exact h
  | activeFor delegate => exact h.lookUp hi hends delegate
  | permits delegate resource action => exact h.lookUp hi hends delegate
  | policies store => exact h

/-- What a look-up gives for an id is on record and active, or an end of it is misread. -/
theorem Tracked.held (h : s.caching = true → Tracked ends id now.time w) (hi : w.delegations.Indexed)
    {d : Delegation} (hd : d ∈ s.held w now k) (hid : d.id = id) :
    (∃ row ∈ w.delegations.rows, row.id = id ∧ row.isActiveAt now.time = true) ∨
      s.caching = true ∧ Misread ends now.time := by
  have hstore : d ∈ w.delegations.activeFor now.time k →
      ∃ row ∈ w.delegations.rows, row.id = id ∧ row.isActiveAt now.time = true := by
    intro hd
    obtain ⟨hrow, hactive, -⟩ := hi.mem_activeFor.1 hd
    exact ⟨d, hrow, hid, hactive⟩
  unfold Service.held at hd
  split at hd
  next hcaching =>
    split at hd
    next ds hlist =>
      obtain ⟨text, htext, hds⟩ := Option.bind_eq_some_iff.1 hlist
      obtain ⟨hd, hactive⟩ := List.mem_filter.1 hd
      rcases h hcaching k text ds (Cache.value?_of_get htext) hds d hd hid now.time (Int.le_refl _)
        hactive with hrow | hmisread
      · obtain ⟨row, hrow, hid, -, hrow'⟩ := hrow
        exact .inl ⟨row, hrow, hid, hrow'⟩
      · exact .inr ⟨hcaching, hmisread⟩
    next => exact .inl (hstore hd)
  next => exact .inl (hstore hd)

/-! ## Runs -/

/-- What is assumed of the memory with which a run begins: its index is right, nothing is on record
as expired, which is never written down, and a cache that is used holds no list yet. -/
structure Opening (s : Service) (w : Memory) : Prop where
  indexed : w.delegations.Indexed
  stamped : ∀ d ∈ w.delegations.rows, d.status ≠ .expired
  cold : s.caching = true → ∀ key text, w.cache.value? key = some text → readList text = none

/-- What every run keeps where a cache is used. -/
structure Sound (ends : Instant → Prop) (id : Uuid) (t : Instant) (w : Memory) : Prop where
  indexed : w.delegations.Indexed
  recorded : ∀ d ∈ w.delegations.rows, d.id = id → ∀ e, d.expiresAt = some e → ends e
  tracked : Tracked ends id t w

theorem Sound.later (h : Sound ends id t w) (ht : t ≤ t') : Sound ends id t' w :=
  ⟨h.indexed, h.recorded, h.tracked.later ht⟩

/-- Every operation keeps what is known of a row, if it puts no other end on record for it and does not
fail to drop the list of it. -/
theorem Sound.step (hcaching : s.caching = true) {e : (Moment × Op) × Outage}
    (h : Sound ends id e.1.1.time w)
    (hgrant : ∀ p, e.1.2 = .grant id p → ∀ t, p.expiresAt = some t → ends t)
    (hdropped : e.1.2 = .revoke id → e.2.delete = none) :
    Sound ends id e.1.1.time (s.stepAmid w e) := by
  obtain ⟨⟨now, op⟩, o⟩ := e
  obtain ⟨j, hj⟩ := s.stepAmid_eq w ((now, op), o)
  rw [hj]
  refine ⟨?_, ?_, h.tracked.left hcaching h.indexed h.recorded hdropped⟩
  · rw [Memory.noted_delegations, leftAmid_delegations]
    exact (left_changes s.uncached w now op).indexed h.indexed
  · intro row hrow hid t ht
    rw [Memory.noted_delegations, leftAmid_delegations] at hrow
    rcases origin_of_mem_left h.indexed hrow with ⟨p, hop, hnew⟩ | ⟨old, hold, ⟨-, rfl⟩ | ⟨-, rfl⟩⟩
    · rw [hnew] at ht
      exact hgrant p (hid ▸ hop) t ht
    · exact h.recorded row hold hid t ht
    · refine h.recorded old hold (Store.revokedRow_id .. ▸ hid) t ?_
      rw [← ht]
      unfold Store.revokedRow
      split <;> rfl

/-- A run begins soundly, since no list is cached yet. -/
theorem Opening.sound (h : Opening s w) (hcaching : s.caching = true)
    (hends : ∀ d ∈ w.delegations.rows, d.id = id → ∀ e, d.expiresAt = some e → ends e) (t : Instant) :
    Sound ends id t w := by
  refine ⟨h.indexed, hends, ?_⟩
  intro k text ds htext hds
  rw [h.cold hcaching _ text htext] at hds
  exact absurd hds (by simp)

/-- What cached lists show of a row after a run in which they could be dropped whenever it was
revoked. -/
theorem Opening.sound_afterAmid (h : Opening s w) (hcaching : s.caching = true) {ops : Course}
    (hclock : ops.Pairwise (·.1.1.time ≤ ·.1.1.time)) (hpast : ∀ e ∈ ops, e.1.1.time ≤ t)
    (hdropped : ∀ e ∈ ops, e.1.2 = .revoke id → e.2.delete = none) :
    Sound (EndOf w ops id) id t (s.afterAmid w ops) := by
  refine foldl_induction (I := Sound (EndOf w ops id) id) (fun e => e.1.1.time)
    (fun ht h => h.later ht) (fun e he hsound => hsound.step hcaching ?_ (hdropped e he))
    (h.sound hcaching fun d hd hid e he => .inl ⟨d, hd, hid, he⟩) hclock hpast
  exact fun p hp t ht => .inr ⟨e, he, p, hp, ht⟩

/-- Whatever fails, the index stays right. -/
theorem Opening.indexed_afterAmid (h : Opening s w) (ops : Course) :
    (s.afterAmid w ops).delegations.Indexed := by
  rw [afterAmid_delegations]
  exact after_indexed h.indexed _

/-- While no row is granted under its id, a row on record is one that was there before, or what has
become of it. -/
theorem Opening.exists_outlived (h : Opening s w) {earlier later : Course}
    (hfresh : ∀ e ∈ later, ∀ p, e.1.2 ≠ .grant id p) :
    ∀ row ∈ (s.afterAmid w (earlier ++ later)).delegations.rows, row.id = id →
      ∃ d ∈ (s.afterAmid w earlier).delegations.rows, Outlived d (later.map (·.1)) row := by
  intro row hrow hid
  rw [afterAmid_delegations, List.map_append, after_append_list] at hrow
  rw [afterAmid_delegations]
  refine Service.exists_outlived (after_indexed h.indexed _)
    (after_stamped h.indexed h.stamped _) hrow ?_
  intro e he
  obtain ⟨c, hc, rfl⟩ := List.mem_map.1 he
  exact hid ▸ hfresh c hc

/-- What is over stays over while no row is granted under its id. -/
theorem Opening.ended_afterAmid (h : Opening s w) {earlier later : Course}
    (hfresh : ∀ e ∈ later, ∀ p, e.1.2 ≠ .grant id p)
    (hended : (s.afterAmid w earlier).delegations.Ended t id) (ht : t ≤ t') :
    (s.afterAmid w (earlier ++ later)).delegations.Ended t' id := by
  refine (h.indexed_afterAmid _).ended_iff.2 fun row hrow hid => ?_
  obtain ⟨d, hd, houtlived⟩ := h.exists_outlived hfresh row hrow hid
  have hover := (h.indexed_afterAmid _).ended_iff.1 hended d hd (houtlived.id_eq.symm.trans hid)
  exact houtlived.not_isActiveAt ht hover

/-- Of what is over a look-up has only what lingers in the cache. -/
theorem Opening.lingers_of_held (h : Opening s w) {ops : Course}
    (hclock : ops.Pairwise (·.1.1.time ≤ ·.1.1.time)) (hpast : ∀ e ∈ ops, e.1.1.time ≤ now.time)
    (hended : (s.afterAmid w ops).delegations.Ended now.time id) {d : Delegation}
    (hd : d ∈ (s.readingAmid o).held (s.afterAmid w ops) now k) (hid : d.id = id) :
    s.caching = true ∧ Lingers w ops id now.time := by
  have hi := h.indexed_afterAmid ops
  by_contra hnot
  have htracked : (s.readingAmid o).caching = true →
      Tracked (EndOf w ops id) id now.time (s.afterAmid w ops) := by
    intro hreading
    have hcaching : s.caching = true := (Bool.and_eq_true_iff.1 hreading).2
    refine (h.sound_afterAmid hcaching hclock hpast fun e he hop => ?_).tracked
    by_contra hdelete
    exact hnot ⟨hcaching, .inr ⟨e, he, hop, hdelete⟩⟩
  rcases Tracked.held htracked hi hd hid with ⟨row, hrow, hrowid, hactive⟩ | ⟨hreading, hmisread⟩
  · rw [hi.ended_iff.1 hended row hrow hrowid] at hactive
    exact absurd hactive (by decide)
  · exact hnot ⟨(Bool.and_eq_true_iff.1 hreading).2, .inl hmisread⟩

/-- What is over is over for all its readers: no list has it and nothing is permitted by it, but for
what `lingers`, and the validator and the walk behind a delegator come to what they would without it. -/
structure Gone (s : Service) (w : Memory) (o : Outage) (now : Moment) (id : Uuid)
    (lingers : Prop) : Prop where
  listed : ∀ k, ∃ ds, (∀ d ∈ ds, d.id = id → lingers) ∧
    (∃ w', (s.activeFor o.backend now k).run w = (.ok ds, w')) ∧
    ∀ resource action, ∃ w', (s.permits o.backend now k resource action).run w =
      (.ok (ds.any (·.scope.includes resource action)), w')
  validated : ∀ delegator scope,
    (Attempt.on (s.validator.check o.backend now delegator scope) w).1 =
      (Attempt.on (s.validator.check o.backend now delegator scope) (w.erase id)).1
  walked : ∀ limit delegator delegate,
    (Attempt.on (checkChain o.backend now limit delegator delegate) w).1 =
      (Attempt.on (checkChain o.backend now limit delegator delegate) (w.erase id)).1

/-- A row that is over is out of the reach of every reader but cached lists. -/
theorem gone_of_ended {lingers : Prop} (hi : w.delegations.Indexed)
    (hended : w.delegations.Ended now.time id)
    (hheld : ∀ k, ∀ d ∈ (s.readingAmid o).held w now k, d.id = id → lingers) :
    Gone s w o now id lingers := by
  have hpolicies : w.policies = (w.erase id).policies := rfl
  have hsame : w.delegations.activeFor now.time = (w.erase id).delegations.activeFor now.time :=
    funext fun k => (hi.activeFor_erase hended k).symm
  refine ⟨fun k => ⟨(s.readingAmid o).held w now k, hheld k, ?_, ?_⟩, ?_, ?_⟩
  · obtain ⟨j, hj⟩ := activeFor_amid s o w now k
    exact ⟨_, hj⟩
  · intro resource action
    obtain ⟨j, hj⟩ := permits_amid s o w now k resource action
    exact ⟨_, hj⟩
  · intro delegator scope
    rw [o.check_backend]
    exact s.validator.check_congr hpolicies hsame delegator scope
  · intro limit delegator delegate
    rw [o.checkChain_backend]
    exact checkChain_congr hsame limit

/-- Bob is lent something to read and looks up what he holds. -/
def lend (p : Proposal) : Course :=
  [((second 0,
      .policies (PolicyStore.empty.put "main" (.ofRules [.allow "alice" "*" "*"]) false)), {}),
    ((second 1, .grant ⟨1⟩ p), {}),
    ((second 2, .activeFor "bob"), {})]

/-- It is taken back while some calls of the cache fail. -/
def takeBack (o : Outage) : Course := [((second 3, .revoke ⟨1⟩), o)]

/-- It is taken back once more, and bob looks again, while the cache cannot be read. -/
def takeBackAgain : Course :=
  [((second 4, .revoke ⟨1⟩), {}), ((second 5, .activeFor "bob"), { get := some (.internal "down") })]

/-- Reading, lent until a leap second in the middle of a minute: its text is that of 11.6 s. -/
def lendUntilLeap : Proposal := { lendReading with expiresAt := some ⟨10, 1600000000, by decide⟩ }

/-- After all leap seconds of second 10, and before 11.6 s. -/
def pastLeap : Moment := ⟨⟨11, 200000000, by decide⟩, 11200000000⟩

/-- Whether a look-up lists a row that is over. -/
def ListsEnded (s : Service) (w : Memory) (now : Moment) (k : String) (id : Uuid) : Prop :=
  w.delegations.Ended now.time id ∧
    ∃ d, ((s.activeFor Memory.backend now k).run w).1 = .ok [d] ∧ d.id = id

/-- A look-up lists what the cached text of a row reads as, if that is active. -/
theorem listsEnded_of_cached (hcaching : s.caching = true) (hended : w.delegations.Ended now.time id)
    {row d : Delegation} (hget : (w.cache.get now.uptime (cacheKey k)).1 = some (writeList [row]))
    (hread : readList (writeList [row]) = some [d]) (hactive : d.isActiveAt now.time = true)
    (hid : d.id = id) : ListsEnded s w now k id := by
  obtain ⟨j, hj⟩ := activeFor_run s w now k
  refine ⟨hended, d, ?_, hid⟩
  rw [hj, held, cachedList, if_pos hcaching, hget, Option.bind_some, hread]
  simp [hactive]

end Service

end Clearance.Delegation
