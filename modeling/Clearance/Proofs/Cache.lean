import Clearance.Cache

/-!
# What a cache can answer

When a value runs out, when room is made and which values go first only ever takes values away. So what
is filed under a key after an operation was filed under it before, but for the one value that has
just been put there. That is all that an argument about a cached answer needs to know.

What an operation does to a cache is said of one key at a time, by `filed?`: the value under the key and
how long it may be read. When it was last used only matters to what goes first. Whether a value can be
put there at all is a matter of the clock alone (`Fits`, `set_fst`).
-/

namespace Clearance.Cache

variable {α : Type} {c : Cache α} {last now lifetime : Nat} {key k : String} {value x : α}

/-- What is filed under a key, and until when it may be read if there is an end to that. -/
def filed? (c : Cache α) (key : String) : Option (α × Option Nat) :=
  (c.slots.get? key).map fun slot => (slot.value, slot.expiresAt)

/-- Whether what is filed may be read at a time. -/
def readable (now : Nat) (x : α × Option Nat) : Bool := !x.2.any (· < now)

/-- A slot holds what may be read until the slot expires. -/
theorem readable_slot (now : Nat) (slot : CacheSlot α) :
    readable now (slot.value, slot.expiresAt) = !slot.isExpired now := rfl

/-- Whether a clock that goes no further than `last` can show the end of what is filed at a time for a
number of nanoseconds. What is filed for good has no end. -/
def Fits (last now lifetime : Nat) : Prop := lifetime = 0 ∨ now + lifetime ≤ last

instance (last now lifetime : Nat) : Decidable (Fits last now lifetime) :=
  inferInstanceAs (Decidable (_ ∨ _))

/-- What has an end that the clock can show fits, and so does what has none. -/
theorem all_endOf : (endOf now lifetime).all (· ≤ last) = decide (Fits last now lifetime) := by
  unfold endOf Fits
  by_cases hgood : lifetime = 0
  · simp [hgood]
  · simp [hgood]

/-- A look-up answers with what is filed, if it may be read. -/
theorem get_answer (c : Cache α) (now : Nat) (key : String) :
    (c.get now key).1 = ((c.filed? key).filter (readable now)).map (·.1) := by
  unfold get filed?
  cases c.slots.get? key with
  | none => rfl
  | some slot =>
    rw [Option.map_some, Option.filter_some, readable_slot]
    by_cases hgone : slot.isExpired now = true
    · simp [hgone]
    · simp [hgone]

/-- A look-up takes away what may not be read, and nothing else. -/
theorem filed?_get (c : Cache α) (now : Nat) (key k : String) :
    (c.get now key).2.filed? k =
      if k = key then (c.filed? k).filter (readable now) else c.filed? k := by
  unfold get filed?
  by_cases hk : k = key
  · subst hk
    rw [if_pos rfl]
    cases hslot : c.slots.get? k with
    | none => simp [hslot]
    | some slot =>
      rw [Option.map_some, Option.filter_some, readable_slot]
      by_cases hgone : slot.isExpired now = true
      · simp [hgone, Register.get?_erase]
      · simp [hgone, Register.get?_insert]
  · rw [if_neg hk]
    cases c.slots.get? key with
    | none => rfl
    | some slot =>
      dsimp only
      split
      next => rw [Register.get?_erase, if_neg hk]
      next => rw [Register.get?_insert, if_neg hk]

/-- To delete a key empties its slot and no other. -/
theorem filed?_delete (c : Cache α) (key k : String) :
    (c.delete key).filed? k = if k = key then none else c.filed? k := by
  unfold delete filed?
  rw [Register.get?_erase]
  split <;> rfl

/-- **Filing a value comes to its end just where the clock can show the end of the value.** -/
theorem set_fst (c : Cache α) (last now : Nat) (key : String) (value : α) (lifetime : Nat) :
    (c.set last now key value lifetime).1 = decide (Fits last now lifetime) :=
  all_endOf

/-- Filing a value leaves room for it, and the value if its end can be shown. -/
theorem set_snd (c : Cache α) (last now : Nat) (key : String) (value : α) (lifetime : Nat) :
    (c.set last now key value lifetime).2 =
      if Fits last now lifetime then
        { c.makeRoom now with
          slots := (c.makeRoom now).slots.insert key ⟨value, endOf now lifetime, now⟩ }
      else c.makeRoom now := by
  unfold set
  dsimp only
  rw [all_endOf]
  by_cases hfits : Fits last now lifetime
  · rw [if_pos (decide_eq_true hfits), if_pos hfits]
  · rw [if_neg (by simpa using hfits), if_neg hfits]

/-- A value that is put somewhere is filed there if its end can be shown; what is left elsewhere is what
room was left for. -/
theorem filed?_set (c : Cache α) (last now : Nat) (key : String) (value : α) (lifetime : Nat)
    (k : String) :
    (c.set last now key value lifetime).2.filed? k =
      if k = key ∧ Fits last now lifetime then some (value, endOf now lifetime)
      else (c.makeRoom now).filed? k := by
  rw [set_snd]
  by_cases hfits : Fits last now lifetime
  · rw [if_pos hfits]
    unfold filed?
    rw [Register.get?_insert]
    by_cases hk : k = key
    · rw [if_pos hk, if_pos ⟨hk, hfits⟩, Option.map_some]
    · rw [if_neg hk, if_neg fun h => hk h.1]
  · rw [if_neg hfits, if_neg fun h => hfits h.2]

/-- What is left of some slots was there before. -/
theorem filed?_filter {p : String → CacheSlot α → Bool} {y : α × Option Nat}
    (h : filed? { c with slots := c.slots.filter p } k = some y) : c.filed? k = some y := by
  unfold filed? at h ⊢
  rw [Register.get?_filter] at h
  obtain ⟨slot, hslot, rfl⟩ := Option.map_eq_some_iff.1 h
  rw [(Option.filter_eq_some_iff.1 hslot).1, Option.map_some]

/-- Making room files nothing. -/
theorem filed?_makeRoom {y : α × Option Nat} (h : (c.makeRoom now).filed? k = some y) :
    c.filed? k = some y := by
  unfold makeRoom at h
  split at h
  next => exact h
  next =>
    dsimp only at h
    split at h
    next => exact filed?_filter h
    next =>
      have hfresh : filed? { c with slots := c.slots.filter fun _ slot => !slot.isExpired now } k =
          some y := filed?_filter h
      exact filed?_filter hfresh

/-! ## The values alone -/

/-- The value filed under a key, whether or not it may still be read. -/
def value? (c : Cache α) (key : String) : Option α := (c.slots.get? key).map (·.value)

theorem value?_eq (c : Cache α) (key : String) : c.value? key = (c.filed? key).map (·.1) := by
  unfold value? filed?
  rw [Option.map_map]
  rfl

/-- A look-up answers with what is filed. -/
theorem value?_of_get (h : (c.get now key).1 = some x) : c.value? key = some x := by
  rw [get_answer] at h
  obtain ⟨y, hy, rfl⟩ := Option.map_eq_some_iff.1 h
  rw [value?_eq, (Option.filter_eq_some_iff.1 hy).1, Option.map_some]

/-- Looking up a key files nothing. -/
theorem value?_get (h : (c.get now key).2.value? k = some x) : c.value? k = some x := by
  rw [value?_eq] at h ⊢
  obtain ⟨y, hy, rfl⟩ := Option.map_eq_some_iff.1 h
  rw [filed?_get] at hy
  split at hy
  next => rw [(Option.filter_eq_some_iff.1 hy).1, Option.map_some]
  next => rw [hy, Option.map_some]

/-- After a value has been put under a key, what is filed there is that value or was there before, and
nothing else is new. -/
theorem value?_set (h : (c.set last now key value lifetime).2.value? k = some x) :
    (k = key ∧ x = value) ∨ c.value? k = some x := by
  rw [value?_eq] at h ⊢
  obtain ⟨y, hy, rfl⟩ := Option.map_eq_some_iff.1 h
  rw [filed?_set] at hy
  split at hy
  next hk =>
    obtain rfl := Option.some.inj hy
    exact .inl ⟨hk.1, rfl⟩
  next => exact .inr (by rw [filed?_makeRoom hy, Option.map_some])

/-- After a key has been deleted nothing is filed under it, and nothing else is new. -/
theorem value?_delete (h : (c.delete key).value? k = some x) : k ≠ key ∧ c.value? k = some x := by
  rw [value?_eq] at h ⊢
  rw [filed?_delete] at h
  split at h
  next => exact absurd h (by simp)
  next hk => exact ⟨hk, h⟩

end Clearance.Cache
