/-!
# What is read in parts

A list is read if each of its items is. So what has been written item by item is read back
(`mapM_map`), and whatever is found was read from an item (`exists_of_mapM`).
-/

namespace Clearance

variable {α β γ : Type} {read : β → Option γ}

/-- Reading each of what was written finds what was written. -/
theorem mapM_map {write : α → β} {what : α → γ} (xs : List α)
    (h : ∀ x ∈ xs, read (write x) = some (what x)) :
    (xs.map write).mapM read = some (xs.map what) := by
  induction xs with
  | nil => rfl
  | cons x xs ih =>
    obtain ⟨hx, hxs⟩ := List.forall_mem_cons.1 h
    rw [List.map_cons, List.mapM_cons, hx, ih hxs]
    rfl

/-- Each of what is found was read from an item. -/
theorem exists_of_mapM {items : List β} {found : List γ} (h : items.mapM read = some found) :
    ∀ y ∈ found, ∃ x ∈ items, read x = some y := by
  induction items generalizing found with
  | nil =>
    obtain rfl := Option.some.inj h
    simp
  | cons x items ih =>
    rw [List.mapM_cons] at h
    obtain ⟨y, hy, h⟩ := Option.bind_eq_some_iff.1 h
    obtain ⟨ys, hys, h⟩ := Option.bind_eq_some_iff.1 h
    obtain rfl := Option.some.inj h
    refine List.forall_mem_cons.2 ⟨⟨x, List.mem_cons_self .., hy⟩, fun z hz => ?_⟩
    obtain ⟨w, hw, hread⟩ := ih hys z hz
    exact ⟨w, List.mem_cons_of_mem x hw, hread⟩

theorem length_of_mapM {items : List β} {found : List γ} (h : items.mapM read = some found) :
    found.length = items.length := by
  induction items generalizing found with
  | nil =>
    obtain rfl := Option.some.inj h
    rfl
  | cons x items ih =>
    rw [List.mapM_cons] at h
    obtain ⟨y, -, h⟩ := Option.bind_eq_some_iff.1 h
    obtain ⟨ys, hys, h⟩ := Option.bind_eq_some_iff.1 h
    obtain rfl := Option.some.inj h
    rw [List.length_cons, List.length_cons, ih hys]

end Clearance
