import Clearance.Proofs.Glob.Widened
import Clearance.Scope

/-!
# What coverage by representatives is worth

One scope covers another if it takes in each pair of patterns of the other, read as plain text. That
is meant to say that nothing lies in the other that does not lie in it (`Scope.Within`), and for
most scopes it does. But a `?` accepts the text `*` and then covers a pattern that describes more
than one character.

How much more can be had in this way is known exactly: what lies in some scope that a scope covers
is what lies in that scope with every `?` read as `*` (`exists_covered_iff`). So covering is sound
for a scope if and only if that reading adds nothing to it (`coverage_sound_iff`).
-/

namespace Clearance.Scope

variable {s other : Scope} {x a : String}

/-- A scope takes in what some pair of its patterns accepts. -/
theorem includes_iff {s : Scope} {x a : String} :
    s.includes x a = true ↔
      ∃ pair ∈ s.pairs, Glob.accepts pair.1 x = true ∧ Glob.accepts pair.2 a = true := by
  simp only [Scope.includes, Scope.pairs, Bool.and_eq_true, List.any_eq_true, List.mem_flatMap,
    List.mem_map]
  constructor
  · intro h
    obtain ⟨⟨r, hr, hx⟩, b, hb, ha⟩ := h
    exact ⟨(r, b), ⟨r, hr, b, hb, rfl⟩, hx, ha⟩
  · intro h
    obtain ⟨_, ⟨r, hr, b, hb, rfl⟩, hx, ha⟩ := h
    exact ⟨⟨r, hr, hx⟩, b, hb, ha⟩

/-- A scope covers another if it includes each pair of that, patterns taken as texts. -/
theorem covers_iff :
    s.covers other = true ↔ ∀ pair ∈ other.pairs, s.includes pair.1 pair.2 = true :=
  List.all_eq_true

/-- Whether whatever lies in one scope lies in another. -/
def Within (s other : Scope) : Prop :=
  ∀ x a, s.includes x a = true → other.includes x a = true

/-- A scope with every `?` read as `*`. -/
def widened (s : Scope) : Scope :=
  { s with resources := s.resources.map Glob.widened, actions := s.actions.map Glob.widened }

/-- The pairs of a widened scope are its pairs, widened. -/
theorem pairs_widened (s : Scope) :
    s.widened.pairs = s.pairs.map fun pair => (Glob.widened pair.1, Glob.widened pair.2) := by
  simp [pairs, widened, List.flatMap_map, List.map_flatMap, Function.comp_def]

/-- What lies in a covered scope lies in the covering one, widened. -/
theorem within_widened_of_covers (h : s.covers other = true) : other.Within s.widened := by
  intro x a hin
  obtain ⟨pair, hpair, hx, ha⟩ := includes_iff.1 hin
  obtain ⟨holder, hholder, hr, hb⟩ := includes_iff.1 (covers_iff.1 h pair hpair)
  rw [includes_iff, pairs_widened]
  exact ⟨_, List.mem_map_of_mem hholder, Glob.accepts_widened_of_accepts hr hx,
    Glob.accepts_widened_of_accepts hb ha⟩

/-- A scope covers itself widened. -/
theorem covers_widened (s : Scope) : s.covers s.widened = true := by
  rw [covers_iff, pairs_widened]
  intro pair hpair
  obtain ⟨holder, hholder, rfl⟩ := List.mem_map.1 hpair
  exact includes_iff.2 ⟨holder, hholder, Glob.accepts_widened holder.1, Glob.accepts_widened holder.2⟩

/-- **How far covering reaches**: what lies in some scope that a scope covers is what lies in that
scope widened. -/
theorem exists_covered_iff :
    (∃ other, s.covers other = true ∧ other.includes x a = true) ↔ s.widened.includes x a = true := by
  constructor
  · intro h
    obtain ⟨other, hcovers, hin⟩ := h
    exact within_widened_of_covers hcovers x a hin
  · intro hin
    exact ⟨s.widened, covers_widened s, hin⟩

/-- Scopes without `*` are covered only by scopes that they lie within. -/
theorem within_of_covers_of_no_star (h : s.covers other = true)
    (hr : ∀ r ∈ other.resources, '*' ∉ r.toList) (ha : ∀ b ∈ other.actions, '*' ∉ b.toList) :
    other.Within s := by
  intro x a hin
  obtain ⟨pair, hpair, hx, hact⟩ := includes_iff.1 hin
  obtain ⟨holder, hholder, hx', hact'⟩ := includes_iff.1 (covers_iff.1 h pair hpair)
  obtain ⟨r, hrmem, b, hbmem, rfl⟩ : ∃ r ∈ other.resources, ∃ b ∈ other.actions, (r, b) = pair := by
    simpa [pairs] using hpair
  exact includes_iff.2 ⟨holder, hholder, Glob.accepts_trans hx' (hr r hrmem) hx,
    Glob.accepts_trans hact' (ha b hbmem) hact⟩

/-- A scope without a question mark is as wide as it gets. -/
theorem widened_eq_self (hr : ∀ r ∈ s.resources, '?' ∉ r.toList)
    (ha : ∀ b ∈ s.actions, '?' ∉ b.toList) : s.widened = s := by
  have hresources : s.resources.map Glob.widened = s.resources :=
    (List.map_congr_left fun r hmem => Glob.widened_eq_self (hr r hmem)).trans (List.map_id' _)
  have hactions : s.actions.map Glob.widened = s.actions :=
    (List.map_congr_left fun b hmem => Glob.widened_eq_self (ha b hmem)).trans (List.map_id' _)
  rw [widened, hresources, hactions]

/-- Scopes without `?` cover only what lies within them. -/
theorem within_of_covers_of_no_question (h : s.covers other = true)
    (hr : ∀ r ∈ s.resources, '?' ∉ r.toList) (ha : ∀ b ∈ s.actions, '?' ∉ b.toList) :
    other.Within s :=
  widened_eq_self hr ha ▸ within_widened_of_covers h

/-- **When covering is sound**: a scope covers only what lies within it if and only if reading every
`?` of it as `*` adds nothing to it. -/
theorem coverage_sound_iff (s : Scope) :
    (∀ other, s.covers other = true → other.Within s) ↔ s.widened.Within s := by
  constructor
  · intro h x a hin
    obtain ⟨other, hcovers, hother⟩ := exists_covered_iff.2 hin
    exact h other hcovers x a hother
  · intro h other hcovers x a hother
    exact h x a (exists_covered_iff.1 ⟨other, hcovers, hother⟩)

/-- Who holds resources of one character can hand on all of them. -/
theorem question_covers_star :
    covers ⟨["?"], ["read"], none⟩ ⟨["*"], ["read"], none⟩ = true ∧
      includes ⟨["*"], ["read"], none⟩ "document:1" "read" = true ∧
      includes ⟨["?"], ["read"], none⟩ "document:1" "read" = false := by
  decide

end Clearance.Scope
