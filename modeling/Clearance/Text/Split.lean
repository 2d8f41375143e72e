/-!
# Splitting at a character

`splitAt sep` cuts a text at every occurrence of a separator. There is always at least one
piece, and a separator at an end, or two in a row, leave an empty piece.
-/

namespace Clearance.Text

/-- The pieces between the occurrences of a separator. -/
def splitAt (sep : Char) : List Char → List (List Char)
  | [] => [[]]
  | c :: rest =>
    match splitAt sep rest with
    | [] => [[c]]
    | piece :: pieces => if c = sep then [] :: piece :: pieces else (c :: piece) :: pieces

/-- The part before the first occurrence of a character; all of it if there is none. -/
def before (sep : Char) (cs : List Char) : List Char := cs.takeWhile (· != sep)

theorem splitAt_ne_nil (sep : Char) (cs : List Char) : splitAt sep cs ≠ [] := by
  cases cs with
  | nil => simp [splitAt]
  | cons c rest =>
    unfold splitAt
    split
    · simp
    · split <;> simp

end Clearance.Text
