import Clearance.Text.Split

/-!
# What a text is split into

Splitting at a character is undone by joining the pieces with it, and the pieces are the only ones of
which this is so and in which the character does not occur (`splitAt_eq_iff`). So what is made of the
pieces can be said without splitting anything.
-/

namespace Clearance.Text

variable {sep : Char} {cs piece : List Char} {pieces : List (List Char)}

theorem splitAt_cons (sep c : Char) (cs : List Char) :
    splitAt sep (c :: cs) =
      if c = sep then [] :: splitAt sep cs else (splitAt sep cs).modifyHead (c :: ·) := by
  obtain ⟨piece, pieces, hsplit⟩ := List.exists_cons_of_ne_nil (splitAt_ne_nil sep cs)
  rw [splitAt, hsplit]
  rfl

theorem splitAt_eq_splitOn (sep : Char) (cs : List Char) : splitAt sep cs = cs.splitOn sep := by
  induction cs with
  | nil => rfl
  | cons c cs ih =>
    rw [splitAt_cons, ih, List.splitOn_eq_splitOnP, List.splitOn_eq_splitOnP,
      List.splitOnP_cons_eq_if_modifyHead]
    simp only [beq_iff_eq]

/-- A separator is in no piece. -/
theorem not_mem_of_mem_splitAt (h : piece ∈ splitAt sep cs) : sep ∉ piece := by
  induction cs generalizing piece with
  | nil =>
    rw [List.mem_singleton.1 h]
    exact List.not_mem_nil
  | cons c cs ih =>
    obtain ⟨first, others, hsplit⟩ := List.exists_cons_of_ne_nil (splitAt_ne_nil sep cs)
    rw [splitAt_cons] at h
    split at h
    next =>
      rcases List.mem_cons.1 h with rfl | hrest
      · exact List.not_mem_nil
      · exact ih hrest
    next hc =>
      rw [hsplit] at h ih
      rcases List.mem_cons.1 h with rfl | hrest
      · exact List.not_mem_cons_of_ne_of_not_mem (Ne.symm hc) (ih (List.mem_cons_self ..))
      · exact ih (List.mem_cons_of_mem _ hrest)

/-- **Splitting is the one way to undo joining** by a character that is in no piece. -/
theorem splitAt_eq_iff :
    splitAt sep cs = pieces ↔
      pieces ≠ [] ∧ (∀ piece ∈ pieces, sep ∉ piece) ∧ [sep].intercalate pieces = cs := by
  rw [splitAt_eq_splitOn]
  constructor
  · rintro rfl
    rw [← splitAt_eq_splitOn]
    refine ⟨splitAt_ne_nil sep cs, fun _ => not_mem_of_mem_splitAt, ?_⟩
    rw [splitAt_eq_splitOn]
    exact List.intercalate_splitOn sep
  · rintro ⟨hsome, hclear, rfl⟩
    exact List.splitOn_intercalate sep hclear hsome

/-- Joining puts a separator behind every piece but the last. -/
theorem intercalate_concat (sep : Char) (pieces : List (List Char)) (last : List Char) :
    [sep].intercalate (pieces ++ [last]) = pieces.flatMap (· ++ [sep]) ++ last := by
  induction pieces with
  | nil => exact List.intercalate_singleton
  | cons piece pieces ih =>
    rw [List.cons_append, List.intercalate_cons_of_ne_nil (by simp), ih, List.flatMap_cons,
      List.append_assoc (piece ++ [sep])]

end Clearance.Text
