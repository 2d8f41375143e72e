import Clearance.Proofs.Glob.Scan

/-!
# Patterns that accept patterns

A pattern that accepts another one read as plain text need not accept what that one describes: `?`
accepts the text `*`. How far off this can be is the subject here. `widened` reads every `?` of a
pattern as `*`. Whatever is described by a pattern that is accepted as text is accepted by the
widened pattern (`accepts_widened_of_accepts`), and nothing less will do, because the widened pattern
is itself accepted as text (`accepts_widened`).

A pattern without `*` is safe: each of its characters stands for just one (`accepts_trans`).
-/

namespace Clearance.Glob

/-- A character of a pattern, with `*` for `?`. -/
def widenedChar (c : Char) : Char := if c = '?' then '*' else c

/-- A pattern with every `?` read as `*`. -/
def widened (pattern : String) : String := pattern.map widenedChar

/-- A pattern without a question mark is as wide as it gets. -/
theorem widened_eq_self {pattern : String} (h : '?' ∉ pattern.toList) :
    widened pattern = pattern := by
  have hchar : ∀ c ∈ pattern.toList, widenedChar c = c := by
    intro c hc
    have hne : c ≠ '?' := fun he => h (he ▸ hc)
    exact if_neg hne
  rw [← String.toList_inj, widened, String.toList_map, List.map_congr_left hchar, List.map_id']

/-- If a piece of a pattern may stand for a character, what the piece describes may stand for the
widened character. -/
theorem StandsFor.widened {c : Char} {piece v : List Char} (hc : StandsFor c piece)
    (hv : Describes piece v) : StandsFor (widenedChar c) v := by
  by_cases hstar : c = '*'
  · subst hstar
    exact standsFor_star v
  · by_cases hquestion : c = '?'
    · subst hquestion
      exact standsFor_star v
    · have hpiece : piece = [c] := by simpa [StandsFor, hstar, hquestion] using hc
      rw [hpiece, describes_singleton hstar] at hv
      rw [widenedChar, if_neg hquestion]
      exact hv

/-- If no character of the piece is a `*`, it may stand for the character itself. -/
theorem StandsFor.trans {c : Char} {piece v : List Char} (hc : StandsFor c piece)
    (hpiece : '*' ∉ piece) (hv : Describes piece v) : StandsFor c v := by
  by_cases hstar : c = '*'
  · subst hstar
    exact standsFor_star v
  · obtain ⟨x, rfl, hx⟩ := (standsFor_iff_of_ne_star hstar).1 hc
    have hxstar : x ≠ '*' := fun he => hpiece (he ▸ List.mem_singleton.2 rfl)
    obtain ⟨y, rfl, hy⟩ := (standsFor_iff_of_ne_star hxstar).1 ((describes_singleton hxstar).1 hv)
    rw [standsFor_iff_of_ne_star hstar]
    refine ⟨y, rfl, ?_⟩
    rcases hx with hquestion | rfl
    · exact .inl hquestion
    · exact hy

/-- What a pattern describes that another one describes as text, that other one describes with its
characters changed, if the change suits every piece. -/
theorem Describes.through {f : Char → Char} {p q v : List Char} (hq : Describes p q)
    (hv : Describes q v)
    (hpiece : ∀ {c piece v}, piece ⊆ q → StandsFor c piece → Describes piece v →
      StandsFor (f c) v) : Describes (p.map f) v := by
  -- the first character takes a piece off `q`, and that piece a piece off the value
  induction p generalizing q v with
  | nil =>
    rw [describes_nil.1 hq] at hv
    exact hv
  | cons c p ih =>
    obtain ⟨piece, rest, hc, hrest, rfl⟩ := describes_cons.1 hq
    obtain ⟨v₁, v₂, hv₁, hv₂, rfl⟩ := describes_append.1 hv
    have hfirst : StandsFor (f c) v₁ := hpiece (List.subset_append_left ..) hc hv₁
    have hlater : Describes (p.map f) v₂ :=
      ih hrest hv₂ fun hsub => hpiece (List.Subset.trans hsub (List.subset_append_right ..))
    exact describes_cons.2 ⟨v₁, v₂, hfirst, hlater, rfl⟩

/-- A pattern describes itself widened, taken as a text. -/
theorem describes_map_widenedChar (p : List Char) : Describes p (p.map widenedChar) := by
  induction p with
  | nil => exact describes_nil.2 rfl
  | cons c p ih =>
    refine describes_cons.2 ⟨[widenedChar c], p.map widenedChar, ?_, ih, rfl⟩
    by_cases hquestion : c = '?'
    · subst hquestion
      rfl
    · rw [widenedChar, if_neg hquestion]
      by_cases hstar : c = '*'
      · subst hstar
        exact standsFor_star _
      · exact (standsFor_iff_of_ne_star hstar).2 ⟨c, rfl, .inr rfl⟩

variable {p q v : String}

/-- What is described by a pattern that is accepted as text is accepted by the widened pattern. -/
theorem accepts_widened_of_accepts (hq : accepts p q = true) (hv : accepts q v = true) :
    accepts (widened p) v = true := by
  rw [accepts_iff_describes] at *
  rw [widened, String.toList_map]
  exact hq.through hv fun _ hc hv => hc.widened hv

/-- A widened pattern is accepted as text by the pattern. -/
theorem accepts_widened (p : String) : accepts p (widened p) = true := by
  rw [accepts_iff_describes, widened, String.toList_map]
  exact describes_map_widenedChar p.toList

/-- Through a pattern without `*`, acceptance carries over. -/
theorem accepts_trans (hq : accepts p q = true) (hplain : '*' ∉ q.toList)
    (hv : accepts q v = true) : accepts p v = true := by
  rw [accepts_iff_describes] at *
  rw [← List.map_id p.toList]
  exact hq.through hv fun hsub hc hv => hc.trans (fun hmem => hplain (hsub hmem)) hv

end Clearance.Glob
