import Clearance.Analysis.Changes

/-!
# What has changed between two policies

The changes are found in two ways: the rules of the new policy are divided by whether the old one knows
their signatures, and those of the old policy are sifted by whether the new one does.
`Changes.AreExact` says what they should be rule by rule. Each rule of the new policy is dealt to what is
added or to what is unchanged, in its turn, by nothing but its signature, and each rule of the old one is
removed or not in the same way. There is one way to deal out a list by a test (`Dealt.eq_filter`), so
exactly one set of changes is exact (`areExact_iff`). That looking back from the new policy to the old one
shows the same changes the other way round, and that no changes mean the same signatures, is read off it.
-/

namespace Clearance

section Dealing

variable {α : Type}

/-- Whether a list is dealt out to two others: each of its elements goes to one of them, in its turn. -/
inductive Dealt : List α → List α → List α → Prop
  | nil : Dealt [] [] []
  | left {x : α} {whole l r : List α} : Dealt whole l r → Dealt (x :: whole) (x :: l) r
  | right {x : α} {whole l r : List α} : Dealt whole l r → Dealt (x :: whole) l (x :: r)

/-- What passes a test and what does not are dealt from the whole. -/
theorem dealt_filter (p : α → Bool) (whole : List α) :
    Dealt whole (whole.filter p) (whole.filter (!p ·)) := by
  induction whole with
  | nil => exact .nil
  | cons x whole ih =>
    cases hp : p x with
    | true =>
      rw [List.filter_cons_of_pos hp, List.filter_cons_of_neg (by simp [hp])]
      exact .left ih
    | false =>
      rw [List.filter_cons_of_neg (by simp [hp]), List.filter_cons_of_pos (by simp [hp])]
      exact .right ih

/-- A list that is dealt out by a test is dealt out in one way only. -/
theorem Dealt.eq_filter {whole l r : List α} (h : Dealt whole l r) {p : α → Bool}
    (hl : ∀ x ∈ l, p x = true) (hr : ∀ x ∈ r, p x = false) :
    l = whole.filter p ∧ r = whole.filter (!p ·) := by
  induction h with
  | nil => exact ⟨rfl, rfl⟩
  | left _ ih =>
    obtain ⟨hx, hl⟩ := List.forall_mem_cons.1 hl
    obtain ⟨ihl, ihr⟩ := ih hl hr
    rw [List.filter_cons_of_pos hx, List.filter_cons_of_neg (by simp [hx]), ← ihl, ← ihr]
    exact ⟨rfl, rfl⟩
  | right _ ih =>
    obtain ⟨hx, hr⟩ := List.forall_mem_cons.1 hr
    obtain ⟨ihl, ihr⟩ := ih hl hr
    rw [List.filter_cons_of_neg (by simp [hx]), List.filter_cons_of_pos (by simp [hx]), ← ihl, ← ihr]
    exact ⟨rfl, rfl⟩

end Dealing

/-- Whether a policy has a rule of a signature, whatever that rule says. -/
def Policy.Knows (p : Policy) (s : Signature) : Prop := ∃ r ∈ p.rules, r.signature = s

/-- Whether changes are those from one policy to another: all of them, nothing else, and each rule as
often and in the order as it stands in its policy. -/
structure Changes.AreExact (c : Changes) (old new : Policy) : Prop where
  dealt : Dealt new.rules c.added c.unchanged
  added : ∀ r ∈ c.added, ¬ old.Knows r.signature
  unchanged : ∀ r ∈ c.unchanged, old.Knows r.signature
  removed : ∃ kept, Dealt old.rules c.removed kept ∧
    (∀ r ∈ c.removed, ¬ new.Knows r.signature) ∧ ∀ r ∈ kept, new.Knows r.signature

namespace Policy

variable {p old new : Policy}

/-- A policy has a signature if some rule of it does. -/
theorem hasSignature_iff {s : Signature} : p.hasSignature s = true ↔ p.Knows s := by
  simp [hasSignature, Knows]

theorem hasSignature_eq_false_iff {s : Signature} : p.hasSignature s = false ↔ ¬ p.Knows s := by
  rw [← hasSignature_iff, Bool.not_eq_true]

/-- The changes that are found are those from one policy to the other. -/
theorem areExact_changesFrom (old new : Policy) : (new.changesFrom old).AreExact old new where
  dealt := by
    have h := dealt_filter (fun r : Rule => !old.hasSignature r.signature) new.rules
    simpa only [Bool.not_not, changesFrom] using h
  added r hr := hasSignature_eq_false_iff.1 (by simpa using (List.mem_filter.1 hr).2)
  unchanged r hr := hasSignature_iff.1 (List.mem_filter.1 hr).2
  removed := by
    refine ⟨_, dealt_filter (fun r : Rule => !new.hasSignature r.signature) old.rules, ?_, ?_⟩
    · intro r hr
      exact hasSignature_eq_false_iff.1 (by simpa using (List.mem_filter.1 hr).2)
    · intro r hr
      exact hasSignature_iff.1 (by simpa using (List.mem_filter.1 hr).2)

/-- Only the changes that are found are exact. -/
theorem areExact_iff {c : Changes} : c.AreExact old new ↔ c = new.changesFrom old := by
  constructor
  · intro h
    obtain ⟨added, removed, unchanged⟩ := c
    obtain ⟨kept, hdealt, hremoved, hkept⟩ := h.removed
    have hnew := h.dealt.eq_filter (p := fun r : Rule => !old.hasSignature r.signature)
      (fun r hr => by simpa using hasSignature_eq_false_iff.2 (h.added r hr))
      (fun r hr => by simpa using hasSignature_iff.2 (h.unchanged r hr))
    have hold := hdealt.eq_filter (p := fun r : Rule => !new.hasSignature r.signature)
      (fun r hr => by simpa using hasSignature_eq_false_iff.2 (hremoved r hr))
      (fun r hr => by simpa using hasSignature_iff.2 (hkept r hr))
    simp only [Bool.not_not] at hnew hold
    rw [changesFrom, Changes.mk.injEq]
    exact ⟨hnew.1, hold.1, hnew.2⟩
  · rintro rfl
    exact areExact_changesFrom old new

/-- Nothing is added if the old policy knows all that the new one does. -/
theorem added_eq_nil_iff :
    (new.changesFrom old).added = [] ↔ ∀ s, new.Knows s → old.Knows s := by
  rw [changesFrom, List.filter_eq_nil_iff]
  constructor
  · rintro h s ⟨r, hr, rfl⟩
    exact hasSignature_iff.1 (by simpa using h r hr)
  · intro h r hr
    simpa using hasSignature_iff.2 (h r.signature ⟨r, hr, rfl⟩)

/-- **Changes divide two policies exactly, and alike from both sides.** Whatever the policies are, one set
of changes is exact, and it is the one that is found. What is added in one direction is removed in the
other. And there is nothing added and nothing removed if the two know the same signatures. -/
theorem changes_exact (old new : Policy) :
    (∀ c : Changes, c.AreExact old new ↔ c = new.changesFrom old) ∧
      (new.changesFrom old).added = (old.changesFrom new).removed ∧
      (new.changesFrom old).removed = (old.changesFrom new).added ∧
      ((new.changesFrom old).isEmpty = true ↔ ∀ s, old.Knows s ↔ new.Knows s) := by
  refine ⟨fun c => areExact_iff, rfl, rfl, ?_⟩
  have hremoved : (new.changesFrom old).removed = (old.changesFrom new).added := rfl
  rw [Changes.isEmpty, Bool.and_eq_true, List.isEmpty_iff, List.isEmpty_iff, hremoved,
    added_eq_nil_iff, added_eq_nil_iff, and_comm, ← forall_and]
  exact forall_congr' fun s => iff_def.symm

end Policy

end Clearance
