import Clearance.Delegation.Store
import Clearance.Proofs.Stable
import Mathlib.Data.List.Nodup

/-!
# The index and the rows agree

Looking up what a delegate holds goes through the index and never through all rows. `Store.Indexed`
says why that finds everything: no id is on two rows, the ids listed for a delegate are those of the
delegate's rows in the order of the rows, and no list is empty. The empty store is so, and recording
a delegation, revoking one and cleaning up keep it so.

In such a store a look-up is what a search through all rows would be (`Indexed.activeFor_eq`).
-/

namespace Clearance.Delegation

open Time (Instant Span)

/-- What is active was active at any earlier time, as far as its row says. -/
theorem isActiveAt_of_le {d : Delegation} {t t' : Instant} (ht : t ≤ t')
    (h : d.isActiveAt t' = true) : d.isActiveAt t = true := by
  unfold Delegation.isActiveAt Delegation.isExpiredAt at h ⊢
  rw [Bool.and_eq_true] at h ⊢
  refine ⟨h.1, ?_⟩
  cases he : d.expiresAt with
  | none => rfl
  | some e =>
    have hlate : ¬ e ≤ t' := by simpa [he] using h.2
    have hearly : ¬ e ≤ t := fun hle => hlate (Int.le_trans hle ht)
    simpa using hearly

namespace Store

variable {s s' : Store} {d : Delegation} {now : Instant} {id : Uuid}

/-- The index lists each delegate's rows, and each row has an id of its own. -/
structure Indexed (s : Store) : Prop where
  distinct : (s.rows.map (·.id)).Nodup
  lists : ∀ k, s.idsOf k = (s.rows.filter (·.delegate == k)).map (·.id)
  kept : ∀ k, s.index.get? k ≠ some []

/-- A store begins with a right index. -/
theorem indexed_empty : Indexed empty :=
  ⟨List.nodup_nil, fun _ => rfl, fun _ => by simp [empty]⟩

namespace Indexed

/-- Rows of one id are one row. -/
theorem eq_of_id (h : Indexed s) {a b : Delegation} (ha : a ∈ s.rows) (hb : b ∈ s.rows)
    (hid : a.id = b.id) : a = b :=
  List.inj_on_of_nodup_map h.distinct ha hb hid

/-- A row is found by its id if it is on record. -/
theorem find_eq_some_iff (h : Indexed s) : s.find id = some d ↔ d ∈ s.rows ∧ d.id = id := by
  unfold find
  constructor
  · intro hf
    exact ⟨List.mem_of_find?_eq_some hf, by simpa using List.find?_some hf⟩
  · intro hfound
    obtain ⟨hd, rfl⟩ := hfound
    cases hf : s.rows.find? (·.id == d.id) with
    | none => exact absurd (List.find?_eq_none.1 hf d hd) (by simp)
    | some row =>
      have hid : row.id = d.id := by simpa using List.find?_some hf
      rw [h.eq_of_id (List.mem_of_find?_eq_some hf) hd hid]

/-- **A look-up misses nothing**: it gives the delegate's rows that are active. -/
theorem activeFor_eq (h : Indexed s) (now : Instant) (k : String) :
    s.activeFor now k =
      Stable.sort olderFirst (s.rows.filter fun d => d.isActiveAt now && d.delegate == k) := by
  have hrows : (s.idsOf k).filterMap s.find = s.rows.filter (·.delegate == k) := by
    rw [h.lists, List.filterMap_map]
    have hfind : ∀ d ∈ s.rows.filter (·.delegate == k), (s.find ∘ (·.id)) d = some d := by
      intro d hd
      exact h.find_eq_some_iff.2 ⟨(List.mem_filter.1 hd).1, rfl⟩
    rw [List.filterMap_congr hfind, List.filterMap_some]
  unfold activeFor
  rw [hrows, List.filter_filter]

/-- A look-up lists the delegate's active rows. -/
theorem mem_activeFor (h : Indexed s) {k : String} :
    d ∈ s.activeFor now k ↔ d ∈ s.rows ∧ d.isActiveAt now = true ∧ d.delegate = k := by
  rw [h.activeFor_eq, Stable.sort_eq, List.mem_insertionSort, List.mem_filter, Bool.and_eq_true, beq_iff_eq]

end Indexed

/-- What recording a delegation does to a store. -/
theorem create_cases (h : s.create d = .ok s') :
    (∀ row ∈ s.rows, row.id ≠ d.id) ∧
      s' = ⟨s.rows ++ [d], s.index.insert d.delegate (s.idsOf d.delegate ++ [d.id])⟩ := by
  unfold create at h
  split at h
  next => exact absurd h (by simp)
  next hfree =>
    refine ⟨fun row hrow hid => ?_, (Except.ok.inj h).symm⟩
    rw [Bool.not_eq_true, Option.isSome_eq_false_iff, Option.isNone_iff_eq_none] at hfree
    exact absurd (List.find?_eq_none.1 hfree row hrow) (by simp [hid])

/-- To create a row keeps the index right. -/
theorem Indexed.create (h : Indexed s) (hcreate : s.create d = .ok s') : Indexed s' := by
  obtain ⟨hfree, rfl⟩ := create_cases hcreate
  refine ⟨?_, fun k => ?_, fun k => ?_⟩
  · rw [List.map_append, List.nodup_append]
    refine ⟨h.distinct, List.nodup_singleton _, ?_⟩
    intro id hid _ hnew
    obtain ⟨row, hrow, rfl⟩ := List.mem_map.1 hid
    rw [List.mem_singleton.1 hnew]
    exact hfree row hrow
  · show ((s.index.insert _ _).get? k).getD [] = _
    rw [Register.get?_insert, List.filter_append, List.map_append, ← h.lists k]
    by_cases hk : k = d.delegate
    · simp [hk]
    · rw [if_neg hk, List.filter_cons_of_neg (by simpa using Ne.symm hk)]
      simp [idsOf]
  · rw [Register.get?_insert]
    split
    next => simp
    next => exact h.kept k

/-- What revoking does to a store. -/
theorem revoke_cases (h : s.revoke now id = .ok (d, s')) :
    ∃ row, s.find id = some row ∧ d = revokedRow row now ∧ s' = s.replace (revokedRow row now) := by
  unfold revoke at h
  split at h
  next => exact absurd h (by simp)
  next row hrow =>
    obtain ⟨rfl, rfl⟩ := Prod.mk.inj (Except.ok.inj h)
    exact ⟨row, hrow, rfl, rfl⟩

@[simp] theorem revokedRow_id (d : Delegation) (now : Instant) : (revokedRow d now).id = d.id := by
  unfold revokedRow
  split <;> rfl

@[simp] theorem revokedRow_delegate (d : Delegation) (now : Instant) :
    (revokedRow d now).delegate = d.delegate := by
  unfold revokedRow
  split <;> rfl

@[simp] theorem revokedRow_status (d : Delegation) (now : Instant) :
    (revokedRow d now).status = .revoked := by
  unfold revokedRow
  split
  next h => exact h
  next => rfl

/-- Where a row gives way to another of its id and delegate, the index need not change. -/
theorem Indexed.replace (h : Indexed s) {row : Delegation} (hrow : s.find d.id = some row)
    (hdelegate : d.delegate = row.delegate) : Indexed (s.replace d) := by
  have hid : ∀ r ∈ s.rows, ((·.id) ∘ fun r => if r.id = d.id then d else r) r = r.id := by
    intro r hr
    rw [Function.comp_apply]
    split
    next he => exact he.symm
    next => rfl
  have hsame : ∀ r ∈ s.rows, (if r.id = d.id then d else r).delegate = r.delegate := by
    intro r hr
    split
    next he =>
      obtain ⟨hmem, hrowid⟩ := h.find_eq_some_iff.1 hrow
      rw [hdelegate, h.eq_of_id hmem hr (hrowid.trans he.symm)]
    next => rfl
  refine ⟨?_, fun k => ?_, h.kept⟩
  · show ((s.rows.map _).map _).Nodup
    rw [List.map_map, List.map_congr_left hid]
    exact h.distinct
  · show s.idsOf k = ((s.rows.map _).filter _).map _
    rw [h.lists k, List.filter_map, List.map_map]
    have hfilter : s.rows.filter ((·.delegate == k) ∘ fun r => if r.id = d.id then d else r) =
        s.rows.filter (·.delegate == k) :=
      List.filter_congr fun r hr => by rw [Function.comp_apply, hsame r hr]
    rw [hfilter]
    exact (List.map_congr_left fun r hr => hid r (List.mem_filter.1 hr).1).symm

/-- To replace a row by its revoked self keeps the index right. -/
theorem Indexed.replace_revokedRow (h : Indexed s) (hrow : s.find id = some d) (now : Instant) :
    Indexed (s.replace (revokedRow d now)) := by
  refine h.replace ?_ (revokedRow_delegate d now)
  rw [revokedRow_id, (h.find_eq_some_iff.1 hrow).2]
  exact hrow

/-- To revoke keeps the index right. -/
theorem Indexed.revoke (h : Indexed s) (hrevoke : s.revoke now id = .ok (d, s')) : Indexed s' := by
  obtain ⟨row, hrow, -, rfl⟩ := revoke_cases hrevoke
  exact h.replace_revokedRow hrow now

section Unindex

variable {index : Register (List Uuid)}

/-- What is left of a delegate's list when a row's id is taken out of the index. -/
def shortened (d : Delegation) (k : String) (ids : Option (List Uuid)) : Option (List Uuid) :=
  if k = d.delegate then (ids.map (·.filter (· != d.id))).filter (!·.isEmpty) else ids

/-- To take a row off the index shortens one list, its delegate's. -/
theorem get?_unindex_eq_shortened (index : Register (List Uuid)) (d : Delegation) (k : String) :
    (unindex index d).get? k = shortened d k (index.get? k) := by
  unfold unindex shortened
  by_cases hk : k = d.delegate
  · subst hk
    rw [if_pos rfl]
    split
    next hnone => simp [hnone]
    next ids hids =>
      split
      next hleft =>
        rw [Register.get?_erase, if_pos rfl, hids, Option.map_some, hleft]
        rfl
      next hleft =>
        have hsome : (ids.filter (· != d.id)).isEmpty = false := List.isEmpty_eq_false_iff.2 hleft
        rw [Register.get?_insert, if_pos rfl, hids, Option.map_some, Option.filter_some, hsome]
        rfl
  · -- the lists of other delegates are not touched
    rw [if_neg hk]
    split
    next => rfl
    next =>
      split
      next => rw [Register.get?_erase, if_neg hk]
      next => rw [Register.get?_insert, if_neg hk]

/-- A list loses the id of its delegate's row, and other lists lose nothing. -/
theorem get?_unindex (d : Delegation) (k : String) :
    ((unindex index d).get? k).getD [] =
      if k = d.delegate then ((index.get? k).getD []).filter (· != d.id)
      else (index.get? k).getD [] := by
  rw [get?_unindex_eq_shortened, shortened]
  split
  next =>
    cases index.get? k with
    | none => rfl
    | some ids =>
      rw [Option.map_some, Option.filter_some, Option.getD_some]
      split
      next => rfl
      next hempty =>
        have hnil : ids.filter (· != d.id) = [] := by simpa using hempty
        exact hnil.symm
  next => rfl

/-- No list is kept empty when a row is taken off. -/
theorem unindex_kept (h : ∀ k, index.get? k ≠ some []) (d : Delegation) (k : String) :
    (unindex index d).get? k ≠ some [] := by
  rw [get?_unindex_eq_shortened, shortened]
  split
  next =>
    intro hnil
    obtain ⟨-, hleft⟩ := Option.filter_eq_some_iff.1 hnil
    exact Bool.noConfusion hleft
  next => exact h k

/-- Taking out several ids leaves, for each delegate, the ids that none of them is. -/
theorem get?_foldl_unindex (ds : List Delegation) (k : String) :
    ((ds.foldl unindex index).get? k).getD [] =
      ((index.get? k).getD []).filter fun id => !ds.any fun d => d.delegate == k && d.id == id := by
  induction ds generalizing index with
  | nil => exact (List.filter_true _).symm
  | cons d ds ih =>
    rw [List.foldl_cons, ih, get?_unindex]
    by_cases hk : k = d.delegate
    · rw [if_pos hk, List.filter_filter]
      refine List.filter_congr fun id _ => ?_
      simp [hk, Bool.and_comm, bne, BEq.comm]
    · rw [if_neg hk]
      refine List.filter_congr fun id _ => ?_
      have hne : (d.delegate == k) = false := by simpa using Ne.symm hk
      simp [hne]

/-- No list is kept empty however many rows are taken off. -/
theorem foldl_unindex_kept (h : ∀ k, index.get? k ≠ some []) (ds : List Delegation) (k : String) :
    (ds.foldl unindex index).get? k ≠ some [] := by
  induction ds generalizing index with
  | nil => exact h k
  | cons d ds ih => exact ih (unindex_kept h d)

end Unindex

/-- Whichever rows are removed, their ids go with them. -/
theorem Indexed.remove (h : Indexed s) (gone : Delegation → Bool) : Indexed (s.remove gone).2 := by
  refine ⟨?_, fun k => ?_, foldl_unindex_kept h.kept _⟩
  · exact h.distinct.sublist (List.filter_sublist.map _)
  · show ((List.foldl unindex s.index _).get? k).getD [] = _
    rw [get?_foldl_unindex]
    show (s.idsOf k).filter _ = ((s.rows.filter _).filter _).map _
    rw [h.lists k, List.filter_map, List.filter_filter, List.filter_filter]
    refine congrArg (List.map _) (List.filter_congr fun d hd => ?_)
    by_cases hk : d.delegate = k
    · -- a removed row of that id is this very row
      have hany : (s.rows.filter gone).any (fun r => r.delegate == k && r.id == d.id) = gone d := by
        rw [Bool.eq_iff_iff, List.any_eq_true]
        constructor
        · intro hfound
          obtain ⟨r, hr, hsame⟩ := hfound
          obtain ⟨hr, hgone⟩ := List.mem_filter.1 hr
          have hid : r.id = d.id := by simpa using (Bool.and_eq_true_iff.1 hsame).2
          rw [← h.eq_of_id hr hd hid]
          exact hgone
        · intro hgone
          exact ⟨d, List.mem_filter.2 ⟨hd, hgone⟩, by simp [hk]⟩
      rw [Function.comp_apply, hany, Bool.and_comm]
    · have hne : (d.delegate == k) = false := by simpa using hk
      rw [hne, Bool.and_false, Bool.false_and]

/-- A cleanup keeps the index right. -/
theorem Indexed.cleanup (h : Indexed s) (r : Span) (now : Instant) : Indexed (s.cleanup r now).2 :=
  h.remove _

/-- Where rows have ids of their own, revoking turns one row and leaves those around it. -/
theorem rows_replace_revokedRow (hi : s.Indexed) (hrow : s.find id = some d) (now : Instant) :
    ∃ front back, s.rows = front ++ d :: back ∧
      (s.replace (revokedRow d now)).rows = front ++ revokedRow d now :: back := by
  obtain ⟨hd, -⟩ := hi.find_eq_some_iff.1 hrow
  obtain ⟨front, back, hrows⟩ := List.append_of_mem hd
  refine ⟨front, back, hrows, ?_⟩
  have hids : ((front ++ d :: back).map (·.id)).Nodup := hrows ▸ hi.distinct
  rw [List.map_append, List.map_cons, List.nodup_middle, List.nodup_cons, ← List.map_append] at hids
  have hother : ∀ row ∈ front ++ back, row.id ≠ d.id :=
    fun row hrow hid => hids.1 (List.mem_map.2 ⟨row, hrow, hid⟩)
  have hkept : ∀ l : List Delegation, l ⊆ front ++ back →
      l.map (fun row => if row.id = (revokedRow d now).id then revokedRow d now else row) = l := by
    intro l hl
    refine (List.map_congr_left fun row hrow => ?_).trans (List.map_id l)
    rw [revokedRow_id]
    exact if_neg (hother row (hl hrow))
  show s.rows.map _ = _
  rw [hrows, List.map_append, List.map_cons, hkept front (List.subset_append_left ..),
    hkept back (List.subset_append_right ..), if_pos (revokedRow_id d now).symm]

/-- An id that is on a row is found. -/
theorem Indexed.isSome_find (hi : s.Indexed) (hid : id ∈ s.rows.map (·.id)) :
    (s.find id).isSome = true := by
  obtain ⟨row, hrow, hid⟩ := List.mem_map.1 hid
  rw [hi.find_eq_some_iff.2 ⟨hrow, hid⟩]
  rfl

/-- What is left after a cleanup is found by its id, and nothing that was removed is. -/
theorem isNone_find_cleanup (hi : s.Indexed) (r : Span) (now : Instant) (hd : d ∈ s.rows) :
    ((s.cleanup r now).2.find d.id).isNone = isOverdue r now d := by
  cases hover : isOverdue r now d with
  | false =>
    have hkept : d ∈ (s.cleanup r now).2.rows := List.mem_filter.2 ⟨hd, by simp [hover]⟩
    rw [(hi.cleanup r now).find_eq_some_iff.2 ⟨hkept, rfl⟩]
    rfl
  | true =>
    rw [Option.isNone_iff_eq_none, Option.eq_none_iff_forall_ne_some]
    intro row hrow
    obtain ⟨hmem, hid⟩ := (hi.cleanup r now).find_eq_some_iff.1 hrow
    obtain ⟨hold, hleft⟩ := List.mem_filter.1 hmem
    rw [hi.eq_of_id hold hd hid, hover] at hleft
    exact absurd hleft (by decide)

end Store

end Clearance.Delegation
