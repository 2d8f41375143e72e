import Clearance.Proofs.Cache
import Clearance.Proofs.Stable

/-!
# Making room in a full cache

A cache that holds as many values as it may drops what has expired, and only if that is not enough what
has been unused for longest. After that there is room for one more (`size_makeRoom_lt`), whatever the
limits are, as long as neither is zero: a batch that is larger than the cache empties it.

What has not expired stays unless the cache is `Crowded`, that is, full of values that have not expired.
-/

namespace Clearance.Cache

variable {α : Type} {c : Cache α} {now : Nat} {k : String}

/-- The slots that have not expired. -/
def unexpired (c : Cache α) (now : Nat) : Register (CacheSlot α) :=
  c.slots.filter fun _ slot => !slot.isExpired now

/-- Whether a cache holds as many values as it may that have not expired. -/
def Crowded (c : Cache α) (now : Nat) : Prop := c.limits.maxEntries ≤ (c.unexpired now).size

instance (c : Cache α) (now : Nat) : Decidable (c.Crowded now) := inferInstanceAs (Decidable (_ ≤ _))

/-- Whether a cache may hold something, and drops something when it has to make room. -/
structure Limited (c : Cache α) : Prop where
  maxEntries : 0 < c.limits.maxEntries
  evictionBatch : 0 < c.limits.evictionBatch

theorem limited_ofLimits (l : CacheLimits) : (ofLimits l : Cache α).Limited :=
  ⟨Nat.le_max_right .., Nat.le_max_right ..⟩

/-- To make room changes no limit. -/
theorem makeRoom_limits (c : Cache α) (now : Nat) : (c.makeRoom now).limits = c.limits := by
  unfold makeRoom
  split
  next => rfl
  next =>
    dsimp only
    split <;> rfl

/-- The slots in the order of their last use. -/
def inUseOrder (slots : Register (CacheSlot α)) : List (String × CacheSlot α) :=
  Stable.sort (fun a b => decide (a.2.lastUsed ≤ b.2.lastUsed)) slots.entries

/-- The order of use is the library's insertion sort by the time of the last use. -/
theorem inUseOrder_eq (slots : Register (CacheSlot α)) :
    inUseOrder slots = slots.entries.insertionSort fun a b => a.2.lastUsed ≤ b.2.lastUsed := by
  rw [inUseOrder, Stable.sort_eq]
  simp only [decide_eq_true_eq]

/-- What was used earlier comes earlier. -/
theorem inUseOrder_pairwise (slots : Register (CacheSlot α)) :
    (inUseOrder slots).Pairwise fun a b => a.2.lastUsed ≤ b.2.lastUsed := by
  have htrans : IsTrans (String × CacheSlot α) fun a b => a.2.lastUsed ≤ b.2.lastUsed :=
    ⟨fun _ _ _ => Nat.le_trans⟩
  have htotal : Std.Total fun a b : String × CacheSlot α => a.2.lastUsed ≤ b.2.lastUsed :=
    ⟨fun a b => Nat.le_total a.2.lastUsed b.2.lastUsed⟩
  rw [inUseOrder_eq]
  exact List.pairwise_insertionSort ..

/-- **What is dropped is what has been unused for longest**: the rest of the slots are those from
some place on in the order of last use. -/
theorem dropUnused_perm (slots : Register (CacheSlot α)) (count : Nat) :
    (dropUnused slots count).entries.Perm ((inUseOrder slots).drop count) := by
  have hperm : (inUseOrder slots).Perm slots.entries := by
    rw [inUseOrder_eq]
    exact List.perm_insertionSort ..
  have hnodup : ((inUseOrder slots).map (·.1)).Nodup :=
    (hperm.map _).nodup_iff.2 slots.nodup_keys
  rw [← List.take_append_drop count (inUseOrder slots), List.map_append, List.nodup_append] at hnodup
  obtain ⟨-, -, hapart⟩ := hnodup
  have hgone : (byLastUse slots).take count = ((inUseOrder slots).take count).map (·.1) :=
    List.map_take.symm
  have hkept : (inUseOrder slots).filter (fun e => !((byLastUse slots).take count).contains e.1) =
      (inUseOrder slots).drop count := by
    rw [hgone]
    conv => lhs; rw [← List.take_append_drop count (inUseOrder slots)]
    rw [List.filter_append, List.filter_eq_nil_iff.2, List.filter_eq_self.2, List.nil_append]
    · -- the names are distinct, so what comes later is not among those that go
      intro e he
      have hnot : e.1 ∉ ((inUseOrder slots).take count).map (·.1) := by
        intro hin
        exact hapart _ hin _ (List.mem_map_of_mem he) rfl
      simpa using hnot
    · intro e he
      have hin : e.1 ∈ ((inUseOrder slots).take count).map (·.1) := List.mem_map_of_mem he
      simpa using hin
  rw [← hkept]
  exact (hperm.filter _).symm

/-- As many slots go as are asked for, if there are as many. -/
theorem size_dropUnused (slots : Register (CacheSlot α)) (count : Nat) :
    (dropUnused slots count).size = slots.size - count := by
  unfold Register.size
  rw [(dropUnused_perm slots count).length_eq, List.length_drop]
  rw [inUseOrder_eq, List.length_insertionSort]

/-- There is room for one more value. -/
theorem size_makeRoom_lt (h : c.Limited) (now : Nat) :
    (c.makeRoom now).size < c.limits.maxEntries := by
  obtain ⟨hmax, hbatch⟩ := h
  unfold makeRoom
  by_cases hsmall : c.size < c.limits.maxEntries
  · rw [if_pos hsmall]
    exact hsmall
  · rw [if_neg hsmall]
    dsimp only
    by_cases hfew : (c.slots.filter fun _ slot => !slot.isExpired now).size < c.limits.maxEntries
    · rw [if_pos hfew]
      exact hfew
    · rw [if_neg hfew]
      unfold size
      dsimp only
      rw [size_dropUnused]
      omega

/-- Where not every value is fresh, what may be read is kept. -/
theorem filed?_makeRoom_of_not_crowded (hroom : ¬ c.Crowded now) {y : α × Option Nat}
    (hfiled : c.filed? k = some y) (hread : readable now y = true) :
    (c.makeRoom now).filed? k = some y := by
  unfold makeRoom
  by_cases hsmall : c.size < c.limits.maxEntries
  · rw [if_pos hsmall]
    exact hfiled
  · have hfew : (c.slots.filter fun _ slot => !slot.isExpired now).size < c.limits.maxEntries :=
      Nat.lt_of_not_le hroom
    rw [if_neg hsmall]
    dsimp only
    rw [if_pos hfew]
    unfold filed? at hfiled ⊢
    obtain ⟨slot, hslot, rfl⟩ := Option.map_eq_some_iff.1 hfiled
    rw [readable_slot] at hread
    rw [Register.get?_filter, hslot, Option.filter_some, if_pos hread, Option.map_some]

end Clearance.Cache
