import Clearance.Proofs.Cache.Run

/-!
# Which values have to go

A cache that is full drops what has expired when another value is to be filed, and only if that leaves it
full it also drops values that may still be read, so many that a batch of places is free. Those are the
values that have been unused for longest. `Evicts` says so of what is kept and of when each key was last
used, and `evicts_after` proves it of every cache, whatever it held to begin with and whatever it has
been asked since.

When a key was last used is read off the run (`lastUse?`): that is the last time at which it was looked up
or filed. The slots have it as a number beside the value, and that number is the right one because a
look-up that finds nothing leaves no slot whose number could be wrong (`lastUse?_after`). What was to be
filed and could not be, because the clock cannot show its end, does not count as a use.
-/

namespace Clearance.Cache

variable {α : Type}

/-- Whether an operation counts as a use of a key. -/
def Op.uses (last : Nat) (key : String) (now : Nat) : Op α → Bool
  | get k => key == k
  | set k _ lifetime => key == k && decide (Fits last now lifetime)
  | delete _ => false

/-- When a key was last used: in a run, or else as the slots say that the run began with. -/
def lastUse? (last : Nat) (start : Register (CacheSlot α)) (ops : List (Nat × Op α)) (key : String) :
    Option Nat :=
  ops.foldl (fun t e => if e.2.uses last key e.1 then some e.1 else t)
    ((start.get? key).map (·.lastUsed))

/-- A cache of given limits that has been through a run, with some slots to begin with. -/
def reached (l : CacheLimits) (last : Nat) (start : Register (CacheSlot α)) (ops : List (Nat × Op α)) :
    Cache α :=
  after last { (ofLimits l : Cache α) with slots := start } ops

/-- What a cache of given limits keeps of what it holds, when it makes room at a time and each key was
last used at some time. -/
structure Evicts (l : CacheLimits) (used : String → Option Nat) (now : Nat)
    (held kept : Register (CacheSlot α)) : Prop where
  /-- What is kept is as it was. -/
  asHeld : ∀ k slot, kept.get? k = some slot → held.get? k = some slot
  notFull : held.size < max l.maxEntries 1 → kept = held
  expired : max l.maxEntries 1 ≤ held.size →
    ∀ k slot, kept.get? k = some slot → slot.isExpired now = false
  /-- What may be read is kept unless it is too much. -/
  spared : (held.filter fun _ slot => !slot.isExpired now).size < max l.maxEntries 1 →
    ∀ k slot, held.get? k = some slot → slot.isExpired now = false → kept.get? k = some slot
  /-- If it is too much, a batch of places is free afterwards, or all places are. -/
  cut : max l.maxEntries 1 ≤ (held.filter fun _ slot => !slot.isExpired now).size →
    kept.size = max l.maxEntries 1 - max l.evictionBatch 1
  /-- What may be read and is dropped was last used no later than anything that is kept. -/
  leastUsed : ∀ k slot k', held.get? k = some slot → slot.isExpired now = false →
    kept.get? k = none → kept.contains k' = true →
    ∃ t t', used k = some t ∧ used k' = some t' ∧ t ≤ t'

variable {c : Cache α} {l : CacheLimits} {last now t lifetime : Nat} {k k' key : String}
  {slot slot' : CacheSlot α} {op : Op α} {ops : List (Nat × Op α)}

/-! ## Making room -/

/-- A slot is unexpired if it is in the cache and not out of date. -/
theorem get?_unexpired :
    (c.unexpired now).get? k = some slot ↔ c.slots.get? k = some slot ∧ slot.isExpired now = false := by
  rw [unexpired, Register.get?_filter, Option.filter_eq_some_iff, Bool.not_eq_true']

theorem get?_of_dropUnused {slots : Register (CacheSlot α)} {count : Nat}
    (h : (dropUnused slots count).get? k = some slot) : slots.get? k = some slot := by
  rw [dropUnused, Register.get?_filter] at h
  exact (Option.filter_eq_some_iff.1 h).1

/-- What is dropped was last used no later than what is kept. -/
theorem lastUsed_le_of_dropUnused {slots : Register (CacheSlot α)} {count : Nat}
    (hheld : slots.get? k = some slot) (hgone : (dropUnused slots count).get? k = none)
    (hkept : (dropUnused slots count).get? k' = some slot') : slot.lastUsed ≤ slot'.lastUsed := by
  have hperm := dropUnused_perm slots count
  have hlate : (k', slot') ∈ (inUseOrder slots).drop count :=
    hperm.mem_iff.1 ((Entries.get?_eq_some_iff (dropUnused slots count).ordered).1 hkept)
  have hearly : (k, slot) ∈ (inUseOrder slots).take count := by
    have hin : (k, slot) ∈ inUseOrder slots := by
      rw [inUseOrder_eq, List.mem_insertionSort]
      exact (Entries.get?_eq_some_iff slots.ordered).1 hheld
    rw [← List.take_append_drop count (inUseOrder slots)] at hin
    refine (List.mem_append.1 hin).resolve_right fun hdrop => ?_
    have hstays := (Entries.get?_eq_some_iff (dropUnused slots count).ordered).2 (hperm.mem_iff.2 hdrop)
    exact absurd (hgone.symm.trans hstays) (by simp)
  have hordered := inUseOrder_pairwise slots
  rw [← List.take_append_drop count (inUseOrder slots)] at hordered
  exact (List.pairwise_append.1 hordered).2.2 _ hearly _ hlate

/-- What making room does to a cache that is not full, to one that is full of values of which some have
expired, and to one that is crowded. -/
theorem makeRoom_cases (c : Cache α) (now : Nat) :
    (c.size < c.limits.maxEntries ∧ (c.makeRoom now).slots = c.slots) ∨
      (c.limits.maxEntries ≤ c.size ∧ ¬ c.Crowded now ∧ (c.makeRoom now).slots = c.unexpired now) ∨
      (c.limits.maxEntries ≤ c.size ∧ c.Crowded now ∧
        (c.makeRoom now).slots =
          dropUnused (c.unexpired now)
            ((c.unexpired now).size - (c.limits.maxEntries - c.limits.evictionBatch))) := by
  unfold makeRoom
  by_cases hsmall : c.size < c.limits.maxEntries
  · exact .inl ⟨hsmall, by rw [if_pos hsmall]⟩
  · rw [if_neg hsmall]
    by_cases hfew : (c.unexpired now).size < c.limits.maxEntries
    · exact .inr (.inl ⟨Nat.le_of_not_lt hsmall, Nat.not_le_of_lt hfew, by
        rw [unexpired] at hfew ⊢
        exact congrArg slots (if_pos hfew)⟩)
    · exact .inr (.inr ⟨Nat.le_of_not_lt hsmall, Nat.le_of_not_lt hfew, by
        rw [unexpired] at hfew ⊢
        exact congrArg slots (if_neg hfew)⟩)

/-- To make room adds nothing to a cache. -/
theorem get?_of_makeRoom (h : (c.makeRoom now).slots.get? k = some slot) :
    c.slots.get? k = some slot := by
  rcases makeRoom_cases c now with ⟨-, hroom⟩ | ⟨-, -, hroom⟩ | ⟨-, -, hroom⟩ <;> rw [hroom] at h
  · exact h
  · exact (get?_unexpired.1 h).1
  · exact (get?_unexpired.1 (get?_of_dropUnused h)).1

/-- What a cache keeps when it makes room, if its slots say when each key was last used. -/
theorem evicts_makeRoom {used : String → Option Nat} (hlimits : c.limits = (ofLimits l : Cache α).limits)
    (hused : ∀ k slot, c.slots.get? k = some slot → used k = some slot.lastUsed) (now : Nat) :
    Evicts l used now c.slots (c.makeRoom now).slots := by
  have hmost : c.limits.maxEntries = max l.maxEntries 1 := by rw [hlimits]; rfl
  have hbatch : c.limits.evictionBatch = max l.evictionBatch 1 := by rw [hlimits]; rfl
  have hfewer : (c.unexpired now).size ≤ c.size := Register.size_filter_le ..
  rcases makeRoom_cases c now with ⟨hsmall, hroom⟩ | ⟨hfull, hroomy, hroom⟩ | ⟨hfull, hcrowded, hroom⟩ <;>
    rw [hroom]
  · rw [hmost] at hsmall
    exact
      { asHeld := fun _ _ h => h
        notFull := fun _ => rfl
        expired := fun hfull => absurd hsmall (Nat.not_lt.2 hfull)
        spared := fun _ _ _ h _ => h
        cut := fun hfull => absurd hsmall (Nat.not_lt.2 (Nat.le_trans hfull hfewer))
        leastUsed := fun k slot _ hheld _ hgone _ => absurd (hheld.symm.trans hgone) (by simp) }
  · rw [hmost] at hfull
    rw [Crowded, hmost] at hroomy
    exact
      { asHeld := fun _ _ h => (get?_unexpired.1 h).1
        notFull := fun hsmall => absurd hsmall (Nat.not_lt.2 hfull)
        expired := fun _ _ _ h => (get?_unexpired.1 h).2
        spared := fun _ _ _ hheld hfresh => get?_unexpired.2 ⟨hheld, hfresh⟩
        cut := fun hcrowded => absurd hcrowded hroomy
        leastUsed := fun k slot _ hheld hfresh hgone _ =>
          absurd ((get?_unexpired.2 ⟨hheld, hfresh⟩).symm.trans hgone) (by simp) }
  · rw [hmost] at hfull
    rw [Crowded, hmost] at hcrowded
    rw [hmost, hbatch]
    exact
      { asHeld := fun _ _ h => (get?_unexpired.1 (get?_of_dropUnused h)).1
        notFull := fun hsmall => absurd hsmall (Nat.not_lt.2 hfull)
        expired := fun _ _ _ h => (get?_unexpired.1 (get?_of_dropUnused h)).2
        spared := fun hfew => absurd hfew (Nat.not_lt.2 hcrowded)
        cut := fun _ => by
          rw [size_dropUnused]
          omega
        leastUsed := fun k slot k' hheld hfresh hgone hkept => by
          obtain ⟨slot', hslot'⟩ := Option.isSome_iff_exists.1 hkept
          have hheld' := (get?_unexpired.1 (get?_of_dropUnused hslot')).1
          have hle := lastUsed_le_of_dropUnused (get?_unexpired.2 ⟨hheld, hfresh⟩) hgone hslot'
          exact ⟨slot.lastUsed, slot'.lastUsed, hused k slot hheld, hused k' slot' hheld', hle⟩ }

/-! ## When a key was last used -/

/-- The last operation of a run was the last use of a key if it was one at all. -/
theorem lastUse?_concat (last : Nat) (start : Register (CacheSlot α)) (ops : List (Nat × Op α))
    (e : Nat × Op α) (key : String) :
    lastUse? last start (ops ++ [e]) key =
      if e.2.uses last key e.1 then some e.1 else lastUse? last start ops key :=
  List.foldl_append

/-- A look-up notes when it was made on what it finds, and takes away what has expired. -/
theorem get?_get (c : Cache α) (t : Nat) (key k : String) :
    (c.get t key).2.slots.get? k =
      if k = key then
        ((c.slots.get? k).filter fun slot => !slot.isExpired t).map ({ · with lastUsed := t })
      else c.slots.get? k := by
  unfold get
  cases hslot : c.slots.get? key with
  | none =>
    by_cases hk : k = key
    · simp [hk, hslot]
    · simp [hk]
  | some slot =>
    by_cases hgone : slot.isExpired t = true
    · by_cases hk : k = key <;> simp [hk, hslot, hgone, Register.get?_erase, Option.filter_some]
    · by_cases hk : k = key <;> simp [hk, hslot, hgone, Register.get?_insert, Option.filter_some]

/-- A slot after an operation was last used by it, or is what it was before. -/
theorem lastUsed_apply (h : (op.apply last c t).slots.get? key = some slot) :
    (op.uses last key t = true ∧ slot.lastUsed = t) ∨
      (op.uses last key t = false ∧ c.slots.get? key = some slot) := by
  cases op with
  | get k =>
    change (c.get t k).2.slots.get? key = some slot at h
    rw [get?_get] at h
    split at h
    next hk =>
      obtain ⟨found, -, rfl⟩ := Option.map_eq_some_iff.1 h
      exact .inl ⟨by simpa [Op.uses] using hk, rfl⟩
    next hk => exact .inr ⟨by simpa [Op.uses] using hk, h⟩
  | set k value lifetime =>
    change (c.set last t k value lifetime).2.slots.get? key = some slot at h
    rw [set_snd] at h
    by_cases hfits : Fits last t lifetime
    · rw [if_pos hfits] at h
      change ((c.makeRoom t).slots.insert k _).get? key = some slot at h
      rw [Register.get?_insert] at h
      split at h
      next hk =>
        obtain rfl := Option.some.inj h
        exact .inl ⟨by simp [Op.uses, hk, hfits], rfl⟩
      next hk => exact .inr ⟨by simp [Op.uses, hk], get?_of_makeRoom h⟩
    · rw [if_neg hfits] at h
      exact .inr ⟨by simp [Op.uses, hfits], get?_of_makeRoom h⟩
  | delete k =>
    change (c.slots.erase k).get? key = some slot at h
    rw [Register.get?_erase] at h
    split at h
    next => exact absurd h (by simp)
    next => exact .inr ⟨rfl, h⟩

/-- The slots say when each key was last used. The induction is on the run from its end. -/
theorem lastUse?_after (h : (after last c ops).slots.get? key = some slot) :
    lastUse? last c.slots ops key = some slot.lastUsed := by
  induction ops using List.reverseRecOn generalizing slot with
  | nil => rw [lastUse?, List.foldl_nil, show c.slots.get? key = some slot from h, Option.map_some]
  | append_singleton ops e ih =>
    rw [after_concat] at h
    rw [lastUse?_concat]
    rcases lastUsed_apply h with ⟨huse, hlast⟩ | ⟨huse, hbefore⟩
    · rw [huse, if_pos rfl, hlast]
    · rw [huse, if_neg Bool.false_ne_true]
      exact ih hbefore

/-! ## Filing another value -/

/-- What becomes of a cache that is to take in a value. -/
structure TakesIn (l : CacheLimits) (last : Nat) (used : String → Option Nat) (c : Cache α) (now : Nat)
    (key : String) (value : α) (lifetime : Nat) : Prop where
  /-- Room is made first. -/
  room : Evicts l used now c.slots (c.makeRoom now).slots
  /-- The call comes to its end unless the clock cannot show when the value runs out. -/
  returned : (c.set last now key value lifetime).1 = true ↔ Fits last now lifetime
  /-- Then the value is what has been filed since room was made, and can be read. -/
  filed : Fits last now lifetime →
    (c.set last now key value lifetime).2.slots =
        (c.makeRoom now).slots.insert key ⟨value, endOf now lifetime, now⟩ ∧
      ((c.set last now key value lifetime).2.get now key).1 = some value
  /-- Otherwise nothing has been filed. -/
  brokenOff : ¬ Fits last now lifetime → (c.set last now key value lifetime).2 = c.makeRoom now

/-- What has just been filed can be read. -/
theorem get_set (hfits : Fits last now lifetime) (c : Cache α) (key : String) (value : α) :
    ((c.set last now key value lifetime).2.get now key).1 = some value := by
  have hfiled := filed?_set c last now key value lifetime key
  rw [if_pos ⟨rfl, hfits⟩] at hfiled
  have hlasts : (Filing.mk value now lifetime).Lasts now := .inr (Nat.le_add_right ..)
  exact get_of_filed? hfiled hlasts

/-- Of three values the second is dropped for a fourth, because the first has been looked up since. -/
example :
    (after 100 (ofLimits ⟨3, 1⟩) [(0, .set "a" "1" 60), (1, .set "b" "2" 60), (2, .set "c" "3" 60),
      (3, .get "a"), (4, .set "d" "4" 60)]).slots.keys = ["a", "c", "d"] := by decide +kernel

end Clearance.Cache
