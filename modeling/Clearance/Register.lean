/-!
# Registers: values filed under distinct names

Attributes of a subject, named policies and cached texts are all the same thing: values filed
under names, where a name occurs once and the entries are listed in the order of the names
(by code point). `Register` carries that as an invariant, so any listing of one is in name
order, and `get?_insert` says what filing one more value does.

`Entries.put` and `Entries.get?` are the two operations on bare entry lists. They are kept
apart because nested JSON objects use them without the bundled invariant.
-/

namespace Clearance

universe u
variable {α : Type u}

namespace Entries

/-- Entries in strictly ascending order of their names. -/
abbrev InNameOrder (l : List (String × α)) : Prop := l.Pairwise fun a b => a.1 < b.1

/-- The value of the first entry of that name. -/
def get? : List (String × α) → String → Option α
  | [], _ => none
  | e :: rest, k => if k = e.1 then some e.2 else get? rest k

/-- File `v` under `k`: in place of an entry of the same name, else where the name belongs. -/
def put (k : String) (v : α) : List (String × α) → List (String × α)
  | [] => [(k, v)]
  | e :: rest =>
    if k < e.1 then (k, v) :: e :: rest
    else if k = e.1 then (k, v) :: rest
    else e :: put k v rest

/-- To put a value under a name changes what is found there and nowhere else. -/
theorem get?_put (k k' : String) (v : α) (l : List (String × α)) :
    get? (put k v l) k' = if k' = k then some v else get? l k' := by
  induction l with
  | nil => rfl
  | cons e rest ih =>
    unfold put
    split
    · rfl
    · split
      · rename_i hk
        subst hk
        by_cases h : k' = e.1 <;> simp [get?, h]
      · rename_i hne
        by_cases h : k' = e.1
        · have : k' ≠ k := fun hk => hne (hk.symm.trans h)
          simp [get?, h, Ne.symm hne]
        · simp [get?, h, ih]

theorem mem_put {k : String} {v : α} {l : List (String × α)} {e : String × α}
    (h : e ∈ put k v l) : e = (k, v) ∨ e ∈ l := by
  induction l with
  | nil => simpa [put] using h
  | cons x rest ih =>
    unfold put at h
    split at h
    · simpa using h
    · split at h
      · exact (List.mem_cons.1 h).imp id (List.mem_cons_of_mem _)
      · rcases List.mem_cons.1 h with h | h
        · exact .inr (h ▸ List.mem_cons_self ..)
        · exact (ih h).imp id (List.mem_cons_of_mem _)

/-- To put a value in its place keeps names in order. -/
theorem inNameOrder_put {k : String} {v : α} {l : List (String × α)} (h : InNameOrder l) :
    InNameOrder (put k v l) := by
  induction l with
  | nil => simp [put]
  | cons x rest ih =>
    obtain ⟨hx, hrest⟩ := List.pairwise_cons.1 h
    unfold put
    split
    · rename_i hk
      refine List.pairwise_cons.2 ⟨fun e he => ?_, h⟩
      rcases List.mem_cons.1 he with rfl | he
      · exact hk
      · exact String.lt_trans hk (hx e he)
    · split
      · rename_i hk
        exact List.pairwise_cons.2 ⟨fun e he => hk ▸ hx e he, hrest⟩
      · rename_i hlt hne
        refine List.pairwise_cons.2 ⟨fun e he => ?_, ih hrest⟩
        rcases mem_put he with rfl | he
        · exact Decidable.byContradiction fun hn =>
            hne (String.le_antisymm (String.not_lt.1 hn) (String.not_lt.1 hlt))
        · exact hx e he

theorem mem_of_get? {k : String} {v : α} {l : List (String × α)} (h : get? l k = some v) :
    (k, v) ∈ l := by
  induction l with
  | nil => simp [get?] at h
  | cons e rest ih =>
    unfold get? at h
    split at h
    · rename_i hk
      obtain rfl := Option.some.inj h
      subst hk
      exact List.mem_cons_self ..
    · exact List.mem_cons_of_mem _ (ih h)

/-- Where names are distinct, every entry is found under its name. -/
theorem get?_eq_some_iff {k : String} {v : α} {l : List (String × α)} (h : InNameOrder l) :
    get? l k = some v ↔ (k, v) ∈ l := by
  refine ⟨mem_of_get?, fun hm => ?_⟩
  induction l with
  | nil => simp at hm
  | cons e rest ih =>
    obtain ⟨he, hrest⟩ := List.pairwise_cons.1 h
    unfold get?
    rcases List.mem_cons.1 hm with rfl | hm
    · simp
    · split
      · rename_i hk
        exact absurd (hk ▸ he _ hm) (String.lt_irrefl _)
      · exact ih hrest hm

/-- What is found under a name after filtering is what was found, if that passes. -/
theorem get?_filter {l : List (String × α)} (h : InNameOrder l) (p : String → α → Bool)
    (k : String) : get? (l.filter fun e => p e.1 e.2) k = (get? l k).filter (p k) := by
  ext v
  rw [get?_eq_some_iff (h.filter _), List.mem_filter, Option.filter_eq_some_iff,
    get?_eq_some_iff h]

theorem get?_map {β : Type u} (l : List (String × α)) (f : String → α → β) (k : String) :
    get? (l.map fun e => (e.1, f e.1 e.2)) k = (get? l k).map (f k) := by
  induction l with
  | nil => rfl
  | cons e rest ih =>
    simp only [List.map_cons, get?]
    split
    · rename_i hk
      subst hk
      rfl
    · exact ih

/-- Filing a value adds an entry unless its name is taken. -/
theorem length_put {l : List (String × α)} (h : InNameOrder l) (k : String) (v : α) :
    (put k v l).length = if (get? l k).isSome then l.length else l.length + 1 := by
  induction l with
  | nil => rfl
  | cons e rest ih =>
    obtain ⟨he, hrest⟩ := List.pairwise_cons.1 h
    unfold put get?
    by_cases hlt : k < e.1
    · -- a name before the first is none of the others
      have hne : k ≠ e.1 := fun hk => String.lt_irrefl _ (hk ▸ hlt)
      have hnone : get? rest k = none := by
        cases hget : get? rest k with
        | none => rfl
        | some v' =>
          have hafter : e.1 < k := he _ (mem_of_get? hget)
          exact absurd (String.lt_trans hafter hlt) (String.lt_irrefl _)
      rw [if_pos hlt, if_neg hne, hnone]
      rfl
    · rw [if_neg hlt]
      by_cases hk : k = e.1
      · rw [if_pos hk, if_pos hk]
        rfl
      · rw [if_neg hk, if_neg hk, List.length_cons, ih hrest, List.length_cons]
        split <;> rfl

/-- Entries in name order are told apart by what is found in them. -/
theorem eq_of_get? {l l' : List (String × α)} (h : InNameOrder l) (h' : InNameOrder l')
    (hg : ∀ k, get? l k = get? l' k) : l = l' := by
  have hm : ∀ e, e ∈ l ↔ e ∈ l' := fun (k, v) => by
    rw [← get?_eq_some_iff h, ← get?_eq_some_iff h', hg]
  refine List.Perm.eq_of_pairwise (fun a b _ _ hab hba => ?_) h h' ?_
  · exact absurd (String.lt_trans hab hba) (String.lt_irrefl _)
  · have nodup : ∀ {l : List (String × α)}, InNameOrder l → l.Nodup := fun h =>
      List.Pairwise.imp (fun hab he => by subst he; exact String.lt_irrefl _ hab) h
    exact (List.perm_ext_iff_of_nodup (nodup h) (nodup h')).2 hm

end Entries

/-- Values filed under distinct names, listed in name order. -/
structure Register (α : Type u) where
  entries : List (String × α)
  ordered : Entries.InNameOrder entries
  deriving DecidableEq

namespace Register

/-- The register that files nothing. -/
def empty : Register α := ⟨[], .nil⟩

instance : Inhabited (Register α) := ⟨empty⟩

/-- What is filed under a name. -/
def get? (r : Register α) (k : String) : Option α := Entries.get? r.entries k

def contains (r : Register α) (k : String) : Bool := (r.get? k).isSome

def size (r : Register α) : Nat := r.entries.length

def isEmpty (r : Register α) : Bool := r.entries.isEmpty

/-- The names, ascending. -/
def keys (r : Register α) : List String := r.entries.map (·.1)

def insert (r : Register α) (k : String) (v : α) : Register α :=
  ⟨Entries.put k v r.entries, Entries.inNameOrder_put r.ordered⟩

/-- Keep the entries that pass a test. -/
def filter (r : Register α) (p : String → α → Bool) : Register α :=
  ⟨r.entries.filter fun e => p e.1 e.2, r.ordered.filter _⟩

def erase (r : Register α) (k : String) : Register α := r.filter fun k' _ => k' != k

/-- Change every value and no name. -/
def map {β : Type u} (r : Register α) (f : String → α → β) : Register β :=
  ⟨r.entries.map fun e => (e.1, f e.1 e.2), List.pairwise_map.2 r.ordered⟩

/-- File a list of entries one after another; the last value given for a name stays. -/
def insertAll (r : Register α) (l : List (String × α)) : Register α :=
  l.foldl (fun r e => r.insert e.1 e.2) r

def ofList (l : List (String × α)) : Register α := empty.insertAll l

@[simp] theorem get?_empty (k : String) : (empty : Register α).get? k = none := rfl

theorem get?_insert (r : Register α) (k k' : String) (v : α) :
    (r.insert k v).get? k' = if k' = k then some v else r.get? k' :=
  Entries.get?_put k k' v r.entries

theorem get?_filter (r : Register α) (p : String → α → Bool) (k : String) :
    (r.filter p).get? k = (r.get? k).filter (p k) :=
  Entries.get?_filter r.ordered p k

theorem get?_erase (r : Register α) (k k' : String) :
    (r.erase k).get? k' = if k' = k then none else r.get? k' := by
  rw [erase, get?_filter]
  by_cases h : k' = k
  · simp [h]
  · cases r.get? k' <;> simp [h]

theorem get?_map {β : Type u} (r : Register α) (f : String → α → β) (k : String) :
    (r.map f).get? k = (r.get? k).map (f k) :=
  Entries.get?_map r.entries f k

/-- A register grows by one, or not at all if it has the name. -/
theorem size_insert (r : Register α) (k : String) (v : α) :
    (r.insert k v).size = if r.contains k then r.size else r.size + 1 :=
  Entries.length_put r.ordered k v

theorem size_filter_le (r : Register α) (p : String → α → Bool) : (r.filter p).size ≤ r.size :=
  List.length_filter_le ..

/-- No name is used twice. -/
theorem nodup_keys (r : Register α) : r.keys.Nodup := by
  unfold keys
  refine (List.pairwise_map.2 r.ordered).imp fun hlt he => ?_
  exact String.lt_irrefl _ (he ▸ hlt)

/-- A register is what can be found in it. -/
theorem ext_get? {r s : Register α} (h : ∀ k, r.get? k = s.get? k) : r = s := by
  obtain ⟨l, hl⟩ := r
  obtain ⟨l', hl'⟩ := s
  obtain rfl := Entries.eq_of_get? hl hl' h
  rfl

end Register

end Clearance
