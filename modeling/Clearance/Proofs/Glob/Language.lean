import Clearance.Glob
import Mathlib.Data.List.Forall2

/-!
# The language of a glob pattern

A pattern describes the values that come from it by putting some run of characters for each `*`
and exactly one character for each `?`, all other characters standing for themselves. `Describes`
says so directly: the value falls into as many pieces as the pattern has characters, and each
piece may stand for its character.

Nothing here looks at how a pattern is matched. The lemmas take the first character off a pattern
(`describes_star_cons`, `describes_cons_cons`) or a whole stretch without `*` off its front
(`Describes.drop_stretch`), which is all that an account of a matcher needs.
-/

namespace Clearance.Glob

/-- What may stand in a value for one character of a pattern. -/
def StandsFor (c : Char) (piece : List Char) : Prop :=
  if c = '*' then True else if c = '?' then piece.length = 1 else piece = [c]

/-- A value that a pattern describes: its pieces, one for each character of the pattern, may stand
for those characters. -/
def Describes (pattern value : List Char) : Prop :=
  ∃ pieces, List.Forall₂ StandsFor pattern pieces ∧ pieces.flatten = value

/-- A character of a pattern other than `*` takes this one character. -/
def Takes (c x : Char) : Prop := c = '?' ∨ c = x

@[simp] theorem standsFor_star (piece : List Char) : StandsFor '*' piece := by
  simp [StandsFor]

/-- What stands for a character other than `*` is one character that it takes. -/
theorem standsFor_iff_of_ne_star {c : Char} (h : c ≠ '*') {piece : List Char} :
    StandsFor c piece ↔ ∃ x, piece = [x] ∧ Takes c x := by
  unfold StandsFor Takes
  rw [if_neg h]
  by_cases hq : c = '?'
  · simp [hq, List.length_eq_one_iff]
  · simp only [hq, if_false, false_or]
    exact ⟨fun hp => ⟨c, hp, rfl⟩, fun ⟨x, hp, hx⟩ => hx ▸ hp⟩

/-! ## Taking a pattern apart -/

/-- The empty pattern describes the empty text alone. -/
theorem describes_nil {v : List Char} : Describes [] v ↔ v = [] := by
  constructor
  · intro h
    obtain ⟨pieces, hp, rfl⟩ := h
    cases hp
    rfl
  · intro h
    subst h
    exact ⟨[], .nil, rfl⟩

/-- The first piece stands for the first character, the rest is described by the rest. -/
theorem describes_cons {c : Char} {p v : List Char} :
    Describes (c :: p) v ↔
      ∃ piece rest, StandsFor c piece ∧ Describes p rest ∧ piece ++ rest = v := by
  constructor
  · intro h
    obtain ⟨pieces, hp, rfl⟩ := h
    cases hp with
    | cons hc hp => exact ⟨_, _, hc, ⟨_, hp, rfl⟩, rfl⟩
  · intro h
    obtain ⟨piece, rest, hc, ⟨pieces, hp, rfl⟩, rfl⟩ := h
    exact ⟨piece :: pieces, hp.cons hc, rfl⟩

/-- A leading `*` takes some of the characters in front. -/
theorem describes_star_iff_drop {p v : List Char} :
    Describes ('*' :: p) v ↔ ∃ k, k ≤ v.length ∧ Describes p (v.drop k) := by
  rw [describes_cons]
  constructor
  · intro h
    obtain ⟨piece, rest, -, hp, rfl⟩ := h
    exact ⟨piece.length, by simp, by simpa using hp⟩
  · intro h
    obtain ⟨k, -, hp⟩ := h
    exact ⟨v.take k, v.drop k, standsFor_star _, hp, List.take_append_drop k v⟩

/-- A leading `*` takes nothing, or one character and then still stands in front. -/
theorem describes_star_cons {p v : List Char} {x : Char} :
    Describes ('*' :: p) (x :: v) ↔ Describes p (x :: v) ∨ Describes ('*' :: p) v := by
  rw [describes_star_iff_drop, describes_star_iff_drop]
  constructor
  · intro h
    obtain ⟨k, hk, hp⟩ := h
    cases k with
    | zero => exact .inl hp
    | succ k => exact .inr ⟨k, by simpa using hk, hp⟩
  · intro h
    rcases h with hp | ⟨k, hk, hp⟩
    · exact ⟨0, Nat.zero_le _, hp⟩
    · exact ⟨k + 1, by simpa using hk, hp⟩

/-- A star can stand for nothing. -/
theorem describes_star_nil {p : List Char} : Describes ('*' :: p) [] ↔ Describes p [] := by
  rw [describes_star_iff_drop]
  simp

/-- What a pattern in two parts describes falls into two parts. -/
theorem describes_append {p q v : List Char} :
    Describes (p ++ q) v ↔ ∃ v₁ v₂, Describes p v₁ ∧ Describes q v₂ ∧ v₁ ++ v₂ = v := by
  induction p generalizing v with
  | nil => simp [describes_nil]
  | cons c p ih =>
    rw [List.cons_append, describes_cons]
    constructor
    · intro h
      obtain ⟨piece, rest, hc, hrest, rfl⟩ := h
      obtain ⟨v₁, v₂, hp, hq, rfl⟩ := ih.1 hrest
      exact ⟨piece ++ v₁, v₂, describes_cons.2 ⟨piece, v₁, hc, hp, rfl⟩, hq, List.append_assoc ..⟩
    · intro h
      obtain ⟨v₁, v₂, hcp, hq, rfl⟩ := h
      obtain ⟨piece, rest, hc, hp, rfl⟩ := describes_cons.1 hcp
      exact ⟨piece, rest ++ v₂, hc, ih.2 ⟨rest, v₂, hp, hq, rfl⟩, (List.append_assoc ..).symm⟩

/-- Any other leading character takes one character. -/
theorem describes_cons_of_ne_star {c : Char} (h : c ≠ '*') {p v : List Char} :
    Describes (c :: p) v ↔ ∃ x rest, v = x :: rest ∧ Takes c x ∧ Describes p rest := by
  rw [describes_cons]
  constructor
  · intro hdesc
    obtain ⟨piece, rest, hc, hp, rfl⟩ := hdesc
    obtain ⟨x, rfl, hx⟩ := (standsFor_iff_of_ne_star h).1 hc
    exact ⟨x, rest, rfl, hx, hp⟩
  · intro hdesc
    obtain ⟨x, rest, rfl, hx, hp⟩ := hdesc
    exact ⟨[x], rest, (standsFor_iff_of_ne_star h).2 ⟨x, rfl, hx⟩, hp, rfl⟩

/-- A pattern that begins with no star takes one character with its first. -/
theorem describes_cons_cons {c : Char} (h : c ≠ '*') {p v : List Char} {x : Char} :
    Describes (c :: p) (x :: v) ↔ Takes c x ∧ Describes p v := by
  rw [describes_cons_of_ne_star h]
  constructor
  · intro hdesc
    obtain ⟨y, rest, hv, hy, hp⟩ := hdesc
    obtain ⟨rfl, rfl⟩ := List.cons.inj hv
    exact ⟨hy, hp⟩
  · intro hdesc
    obtain ⟨hx, hp⟩ := hdesc
    exact ⟨x, v, rfl, hx, hp⟩

/-- What a lone character other than `*` describes stands for that character. -/
theorem describes_singleton {c : Char} (h : c ≠ '*') {v : List Char} :
    Describes [c] v ↔ StandsFor c v := by
  rw [describes_cons_of_ne_star h, standsFor_iff_of_ne_star h]
  constructor
  · intro hv
    obtain ⟨x, rest, rfl, hx, hrest⟩ := hv
    rw [describes_nil.1 hrest]
    exact ⟨x, rfl, hx⟩
  · intro hv
    obtain ⟨x, rfl, hx⟩ := hv
    exact ⟨x, [], rfl, hx, describes_nil.2 rfl⟩

/-- Only stars describe nothing. -/
theorem not_describes_cons_nil {c : Char} (h : c ≠ '*') {p : List Char} :
    ¬ Describes (c :: p) [] := by
  rw [describes_cons_of_ne_star h]
  intro hdesc
  obtain ⟨x, rest, hv, -⟩ := hdesc
  exact absurd hv (List.cons_ne_nil x rest).symm

/-- The empty value is described by stars alone. -/
theorem describes_nil_right {p : List Char} : Describes p [] ↔ ∀ c ∈ p, c = '*' := by
  induction p with
  | nil => simp [describes_nil]
  | cons c p ih =>
    by_cases h : c = '*'
    · subst h
      rw [describes_star_nil, ih]
      simp
    · simp [not_describes_cons_nil h, h]

/-- A stretch without `*` takes as many characters as it has, and the rest of the pattern
describes what is left. -/
theorem Describes.drop_stretch {w p v : List Char} (hw : '*' ∉ w) (h : Describes (w ++ p) v) :
    w.length ≤ v.length ∧ Describes p (v.drop w.length) := by
  induction w generalizing v with
  | nil => exact ⟨Nat.zero_le _, h⟩
  | cons c w ih =>
    have hc : c ≠ '*' := fun he => hw (he ▸ List.mem_cons_self ..)
    obtain ⟨x, rest, rfl, -, hrest⟩ := (describes_cons_of_ne_star hc).1 h
    obtain ⟨hlen, hp⟩ := ih (fun hm => hw (List.mem_cons_of_mem _ hm)) hrest
    exact ⟨Nat.succ_le_succ hlen, hp⟩

/-! ## Patterns with few metacharacters -/

/-- A word stands in front of what it is followed by, and takes nothing but itself. -/
theorem describes_append_of_plain {w p v : List Char} (hw : w.any isMeta = false) :
    Describes (w ++ p) v ↔ ∃ rest, v = w ++ rest ∧ Describes p rest := by
  induction w generalizing v with
  | nil => simp
  | cons c w ih =>
    simp only [List.any_cons, Bool.or_eq_false_iff, isMeta, beq_eq_false_iff_ne] at hw
    obtain ⟨⟨hstar, hquestion⟩, hw⟩ := hw
    rw [List.cons_append, describes_cons_of_ne_star hstar]
    constructor
    · intro hdesc
      obtain ⟨x, rest, rfl, hx, h⟩ := hdesc
      obtain rfl : c = x := hx.resolve_left hquestion
      obtain ⟨rest', rfl, hp⟩ := (ih hw).1 h
      exact ⟨rest', rfl, hp⟩
    · intro hdesc
      obtain ⟨rest, rfl, hp⟩ := hdesc
      exact ⟨c, w ++ rest, rfl, .inr rfl, (ih hw).2 ⟨rest, rfl, hp⟩⟩

/-- A pattern without metacharacters describes itself and nothing else. -/
theorem describes_of_plain {p v : List Char} (hp : p.any isMeta = false) :
    Describes p v ↔ p = v := by
  have h := describes_append_of_plain (p := []) (v := v) hp
  rw [List.append_nil] at h
  rw [h]
  simp [describes_nil, eq_comm]

/-- A lone `*` describes everything. -/
theorem describes_star (v : List Char) : Describes ['*'] v :=
  describes_star_iff_drop.2 ⟨v.length, Nat.le_refl _, by simp [describes_nil]⟩

/-- A word and a `*` describe what begins with the word. -/
theorem describes_stem {w v : List Char} (hw : w.any isMeta = false) :
    Describes (w ++ ['*']) v ↔ w <+: v := by
  rw [describes_append_of_plain hw]
  constructor
  · intro h
    obtain ⟨rest, rfl, -⟩ := h
    exact List.prefix_append w rest
  · intro h
    obtain ⟨rest, rfl⟩ := h
    exact ⟨rest, rfl, describes_star rest⟩

/-- Every pattern describes itself read as plain text. -/
theorem describes_self (p : List Char) : Describes p p := by
  refine ⟨p.map ([·]), ?_, by simp [← List.flatMap_def]⟩
  rw [List.forall₂_map_right_iff, List.forall₂_same]
  intro c _
  unfold StandsFor
  split
  · trivial
  · split <;> rfl

end Clearance.Glob
