import Clearance.Proofs.Glob.Scan
import Mathlib.Data.List.Infix

/-!
# Patterns that overlap

Two patterns overlap if some value is described by both. Neither of them need accept the other for
that: `document:*` and `*:secret` share `document:secret`. `meets` decides it by recursion on the
patterns, and `meets_iff` proves that it does.

A leading `*` of one pattern may stand for whatever a beginning of the other describes, so what
follows it has to meet some end of the other (`Describes.exists_suffix`). Any other leading
character takes one character, which comes from the next character of the other pattern that is no
`*`, or from one of the stars before it.
-/

namespace Clearance.Glob

/-- Whether two characters of patterns, neither a `*`, take a common character. -/
def agree (c d : Char) : Bool := c == '?' || d == '?' || c == d

/-- Whether a character `c` that is no `*`, and then a pattern of which `meetsRest` tells what it
overlaps with, overlaps with a pattern. -/
def meetsAfter (c : Char) (meetsRest : List Char → Bool) : List Char → Bool
  | [] => false
  | d :: q =>
    if d = '*' then meetsRest (d :: q) || meetsAfter c meetsRest q
    else agree c d && meetsRest q

/-- Whether two patterns overlap. -/
def meets : List Char → List Char → Bool
  | [], q => q.all (· == '*')
  | c :: p, q => if c = '*' then q.tails.any (meets p) else meetsAfter c (meets p) q

/-- Whether two patterns given as texts overlap. -/
def overlaps (p q : String) : Bool := meets p.toList q.toList

/-- Two characters of patterns agree if some character is taken by both. -/
theorem agree_iff {c d : Char} : agree c d = true ↔ ∃ x, Takes c x ∧ Takes d x := by
  unfold agree Takes
  simp only [Bool.or_eq_true, beq_iff_eq]
  constructor
  · intro h
    rcases h with (rfl | rfl) | rfl
    · exact ⟨d, .inl rfl, .inr rfl⟩
    · exact ⟨c, .inr rfl, .inl rfl⟩
    · exact ⟨c, .inr rfl, .inr rfl⟩
  · intro h
    obtain ⟨x, hc | rfl, hd | rfl⟩ := h
    · exact .inl (.inl hc)
    · exact .inl (.inl hc)
    · exact .inl (.inr hd)
    · exact .inr rfl

/-- The value without its first character is described by an end of the pattern. -/
theorem Describes.exists_suffix_cons {q v : List Char} {x : Char} (h : Describes q (x :: v)) :
    ∃ t, t <:+ q ∧ Describes t v := by
  induction q with
  | nil => exact absurd (describes_nil.1 h) (List.cons_ne_nil x v)
  | cons c q ih =>
    by_cases hc : c = '*'
    · subst hc
      rcases describes_star_cons.1 h with h | h
      · obtain ⟨t, ht, hv⟩ := ih h
        exact ⟨t, ht.trans (List.suffix_cons '*' q), hv⟩
      · exact ⟨_, List.suffix_refl _, h⟩
    · exact ⟨q, List.suffix_cons c q, ((describes_cons_cons hc).1 h).2⟩

/-- An end of the value is described by an end of the pattern. -/
theorem Describes.exists_suffix {u q v : List Char} (h : Describes q (u ++ v)) :
    ∃ t, t <:+ q ∧ Describes t v := by
  induction u generalizing q with
  | nil => exact ⟨q, List.suffix_refl q, h⟩
  | cons x u ih =>
    obtain ⟨t, ht, hv⟩ := h.exists_suffix_cons
    obtain ⟨t', ht', hv'⟩ := ih hv
    exact ⟨t', ht'.trans ht, hv'⟩

/-- A leading `*` meets a pattern if what follows it meets an end of the pattern. -/
theorem exists_describes_star_iff {p q : List Char} :
    (∃ v, Describes ('*' :: p) v ∧ Describes q v) ↔
      ∃ t, t <:+ q ∧ ∃ v, Describes p v ∧ Describes t v := by
  constructor
  · intro h
    obtain ⟨v, hp, hq⟩ := h
    obtain ⟨k, -, hk⟩ := describes_star_iff_drop.1 hp
    rw [← List.take_append_drop k v] at hq
    obtain ⟨t, ht, hv⟩ := hq.exists_suffix
    exact ⟨t, ht, v.drop k, hk, hv⟩
  · intro h
    obtain ⟨t, ⟨s, rfl⟩, v, hp, ht⟩ := h
    have hq : Describes (s ++ t) (s ++ v) := describes_append.2 ⟨s, v, describes_self s, ht, rfl⟩
    refine ⟨s ++ v, describes_star_iff_drop.2 ⟨s.length, ?_, ?_⟩, hq⟩
    · simp
    · rwa [List.drop_left]

/-- `meetsAfter` is right about a leading character if `meetsRest` is right about the rest. -/
theorem meetsAfter_iff {c : Char} (hc : c ≠ '*') {p : List Char} {meetsRest : List Char → Bool}
    (hrest : ∀ q, meetsRest q = true ↔ ∃ v, Describes p v ∧ Describes q v) (q : List Char) :
    meetsAfter c meetsRest q = true ↔ ∃ v, Describes (c :: p) v ∧ Describes q v := by
  induction q with
  | nil =>
    refine iff_of_false (by simp [meetsAfter]) ?_
    intro h
    obtain ⟨v, hp, hq⟩ := h
    rw [describes_nil.1 hq] at hp
    exact not_describes_cons_nil hc hp
  | cons d q ih =>
    unfold meetsAfter
    split
    next hd =>
      -- the star on the other side takes the character and stays, or takes nothing and goes
      subst hd
      rw [Bool.or_eq_true, hrest, ih]
      constructor
      · intro h
        rcases h with ⟨v, hp, hq⟩ | ⟨v, hp, hq⟩
        · exact ⟨c :: v, (describes_cons_cons hc).2 ⟨.inr rfl, hp⟩, describes_star_cons.2 (.inr hq)⟩
        · exact ⟨v, hp, describes_star_iff_drop.2 ⟨0, Nat.zero_le _, hq⟩⟩
      · intro h
        obtain ⟨v, hp, hq⟩ := h
        obtain ⟨x, rest, rfl, -, hrest'⟩ := (describes_cons_of_ne_star hc).1 hp
        rcases describes_star_cons.1 hq with hq | hq
        · exact .inr ⟨_, hp, hq⟩
        · exact .inl ⟨rest, hrest', hq⟩
    next hd =>
      rw [Bool.and_eq_true, agree_iff, hrest]
      constructor
      · intro h
        obtain ⟨⟨x, hcx, hdx⟩, v, hp, hq⟩ := h
        exact ⟨x :: v, (describes_cons_cons hc).2 ⟨hcx, hp⟩, (describes_cons_cons hd).2 ⟨hdx, hq⟩⟩
      · intro h
        obtain ⟨v, hp, hq⟩ := h
        obtain ⟨x, rest, rfl, hcx, hp⟩ := (describes_cons_of_ne_star hc).1 hp
        obtain ⟨hdx, hq⟩ := (describes_cons_cons hd).1 hq
        exact ⟨⟨x, hcx, hdx⟩, rest, hp, hq⟩

/-- `meets` decides whether some value is described by both patterns. -/
theorem meets_iff (p q : List Char) : meets p q = true ↔ ∃ v, Describes p v ∧ Describes q v := by
  induction p generalizing q with
  | nil =>
    unfold meets
    simp only [describes_nil, exists_eq_left, describes_nil_right, List.all_eq_true, beq_iff_eq]
  | cons c p ih =>
    unfold meets
    split
    next hc =>
      subst hc
      rw [exists_describes_star_iff]
      simp only [List.any_eq_true, List.mem_tails, ih]
    next hc => exact meetsAfter_iff hc ih q

/-- Two patterns overlap if and only if some value is accepted by both. -/
theorem overlaps_iff (p q : String) :
    overlaps p q = true ↔ ∃ v, accepts p v = true ∧ accepts q v = true := by
  unfold overlaps
  rw [meets_iff]
  simp only [accepts_iff_describes]
  constructor
  · intro h
    obtain ⟨v, hp, hq⟩ := h
    exact ⟨String.ofList v, by simpa using hp, by simpa using hq⟩
  · intro h
    obtain ⟨v, hp, hq⟩ := h
    exact ⟨v.toList, hp, hq⟩

example : overlaps "document:*" "*:secret" = true := by decide

end Clearance.Glob
