import Clearance.Json.Reader
import Clearance.Json.Writer

/-!
# A written text reads as itself

Whatever characters a text holds, the reader finds them all again and stops at the quote that closes
it, so nothing inside a text can end it early or be taken for another character. The argument is by
the character: `readUnits_writeChar` says of each of the three ways in which one is written what the
reader makes of it.
-/

namespace Clearance.Json

theorem hexValue?_digitChar : ∀ n < 16, hexValue? (Nat.digitChar n) = some n := by decide

theorem hexValue?_hexDigit (n : Nat) : hexValue? (hexDigit n) = some (n % 16) :=
  hexValue?_digitChar (n % 16) (Nat.mod_lt n (by decide))

/-- A control character is written by its number. -/
theorem readUnits_escape {n : Nat} (h : n < 0x20) (rest : List Char) :
    readUnits ('\\' :: 'u' :: '0' :: '0' :: hexDigit (n / 16) :: hexDigit n :: rest) =
      (readUnits rest).map fun r => (n :: r.1, r.2) := by
  have hvalue : 4096 * 0 + 256 * 0 + 16 * (n / 16 % 16) + n % 16 = n := by omega
  have hzero : hexValue? '0' = some 0 := by decide
  rw [readUnits]
  simp only [hzero, hexValue?_hexDigit, Option.bind_eq_bind, Option.bind_some, hvalue]
  cases readUnits rest <;> rfl

/-- A plain character is written as it is. -/
theorem readUnits_plain {c : Char} (hquote : c ≠ '"') (hslash : c ≠ '\\') (hplain : ¬ c.toNat < 0x20)
    (rest : List Char) :
    readUnits (c :: rest) = (readUnits rest).map fun r => (c.toNat :: r.1, r.2) := by
  rw [readUnits]
  · rw [if_neg (by simp [hplain, hslash])]
    cases readUnits rest <;> rfl
  · simpa using hquote
  · simp [hslash]
  · simp [hslash]

/-- Each character gives one unit. -/
theorem readUnits_writeChar (c : Char) (rest : List Char) :
    readUnits (writeChar c ++ rest) = (readUnits rest).map fun r => (c.toNat :: r.1, r.2) := by
  unfold writeChar
  split
  case h_8 hquote hslash _ _ _ _ _ =>
    split
    next h => exact readUnits_escape h rest
    next h => exact readUnits_plain hquote hslash h rest
  all_goals cases hrest : readUnits rest <;> simp [readUnits, escaped?, hrest]

/-- A text is read up to its closing quote as the characters that it was written for. -/
theorem readUnits_flatMap (cs rest : List Char) :
    readUnits (cs.flatMap writeChar ++ '"' :: rest) = some (cs.map Char.toNat, rest) := by
  induction cs with
  | nil => rw [List.flatMap_nil, List.nil_append, readUnits, List.map_nil]
  | cons c cs ih =>
    rw [List.flatMap_cons, List.append_assoc, readUnits_writeChar, ih]
    rfl

/-- No character is half of a pair. -/
theorem joinUnits?_toNat (cs : List Char) : joinUnits? (cs.map Char.toNat) = some cs := by
  induction cs with
  | nil => rfl
  | cons c cs ih =>
    have hvalid : c.toNat < 0xD800 ∨ 0xDFFF < c.toNat ∧ c.toNat < 0x110000 := c.valid
    rw [List.map_cons, joinUnits?.eq_def]
    dsimp only
    rw [if_neg (by omega), if_neg (by omega), ih, Option.map_some, Char.ofNat_toNat]

/-- **A text is read up to the quote that closes it**, whatever it holds. -/
theorem readText_flatMap (s : String) (rest : List Char) :
    readText (s.toList.flatMap writeChar ++ '"' :: rest) = some (some s, rest) := by
  unfold readText
  rw [readUnits_flatMap, Option.map_some]
  dsimp only
  rw [joinUnits?_toNat, Option.map_some, String.ofList_toList]

end Clearance.Json
