import Clearance.Proofs.Json.Text
import Clearance.Proofs.Source.Token
import Clearance.Text.Quoted

/-!
# A quoted text is one literal

Whatever a text holds, its quoted form is read as a single literal that stands for that text again,
so nothing in it can end the literal early and be taken for source. The argument is by the
character (`reads_quoteChar`), and holds for any set of characters that are shown as they are: the ones
that could do harm are escaped before that question comes up.
-/

namespace Clearance.Source

open Text

variable {c : Char} {s : List Char} (shown : Char → Bool)

/-- Reading the digits of a number from the left builds it up. There is room for six. -/
theorem reads_toDigits (s : List Char) (room n : Nat) (hroom : room < 6)
    (hn : n < Nat.pow 16 (room + 1)) :
    ∃ count, 0 < count ∧ count ≤ room + 1 ∧
      Reads (.digits s 0 0) (Nat.toDigits 16 n) (.digits s n count) [] := by
  have hdigit : ∀ m d count, d < 16 → count < 6 →
      step (.digits s m count) (Nat.digitChar d) = (.digits s (16 * m + d) (count + 1), []) := by
    intro m d count hd hcount
    have hclose : Nat.digitChar d ≠ '\x7d' := by
      revert d
      decide
    have hunder : Nat.digitChar d ≠ '_' := by
      revert d
      decide
    show (digitsStep s m count (Nat.digitChar d), ([] : List Token)) = _
    unfold digitsStep
    rw [if_neg hclose, if_neg (fun h => hunder h.1), Json.hexValue?_digitChar d hd]
    dsimp only
    rw [if_pos hcount]
  have hsingle : ∀ d < 16, Reads (.digits s 0 0) (Nat.toDigits 16 d) (.digits s d 1) [] := by
    intro d hd
    have h := hdigit 0 d 0 hd (by decide)
    rw [Nat.mul_zero, Nat.zero_add] at h
    rw [Nat.toDigits_of_lt_base hd]
    exact .cons_quiet h (.nil _)
  induction room generalizing n with
  | zero => exact ⟨1, Nat.one_pos, Nat.le_refl 1, hsingle n hn⟩
  | succ room ih =>
    have hpow : Nat.pow 16 (room + 1 + 1) = Nat.pow 16 (room + 1) * 16 := rfl
    by_cases hlt : n < 16
    · exact ⟨1, Nat.one_pos, by omega, hsingle n hlt⟩
    · obtain ⟨count, hpos, hle, hfront⟩ := ih (n / 16) (by omega) (by omega)
      refine ⟨count + 1, Nat.succ_pos _, by omega, ?_⟩
      rw [Nat.toDigits_of_base_le (by decide) (Nat.le_of_not_lt hlt)]
      have h := hdigit (n / 16) (n % 16) count (Nat.mod_lt n (by decide)) (by omega)
      rw [Nat.div_add_mod] at h
      exact hfront.append_quiet (.cons_quiet h (.nil _))

/-- A character written by its number is read as that character. -/
theorem reads_numberEscape (s : List Char) (c : Char) :
    Reads (.literal s) (numberEscape c) (.literal (s ++ [c])) [] := by
  have hbound : c.toNat < Nat.pow 16 (5 + 1) := by
    have hvalid : c.toNat < 0xD800 ∨ 0xDFFF < c.toNat ∧ c.toNat < 0x110000 := c.valid
    show c.toNat < 16777216
    omega
  obtain ⟨count, hpos, -, hdigits⟩ := reads_toDigits s 5 c.toNat (by decide) hbound
  have hclose : step (.digits s c.toNat count) '\x7d' = (.literal (s ++ [c]), []) := by
    show (digitsStep s c.toNat count '\x7d', ([] : List Token)) = _
    unfold digitsStep
    rw [if_pos rfl, if_pos ⟨hpos, c.valid⟩, Char.ofNat_toNat]
  have hopen : Reads (.literal s) ['\\', 'u', '\x7b'] (.digits s 0 0) [] := rfl
  exact hopen.append_quiet (hdigits.append_quiet (.cons_quiet hclose (.nil _)))

/-- A character inside a literal is read as itself, however it is written. -/
theorem reads_quoteChar (s : List Char) (c : Char) :
    Reads (.literal s) (quoteChar c shown) (.literal (s ++ [c])) [] := by
  unfold quoteChar
  split
  case h_7 _ _ _ hreturn hquote hslash =>
    split
    next =>
      have hstep : step (.literal s) c = (.literal (s ++ [c]), []) := by
        show literalStep s c = _
        unfold literalStep
        rw [if_neg hquote, if_neg hslash, if_neg hreturn]
      exact .cons_quiet hstep (.nil _)
    next => exact reads_numberEscape s c
  all_goals rfl

/-- **A quoted text is one literal, and stands for that text.** -/
theorem reads_quote (text : String) :
    Reads .between (quote text shown).toList .between [.literal text] := by
  have hinside : Reads (.literal []) (text.toList.flatMap (quoteChar · shown)) (.literal text.toList)
      [] := .gather [] fun w c _ => reads_quoteChar shown w c
  have hclose : Reads (.literal text.toList) ['"'] .between [.literal text] := by
    show (Mode.between, [Token.literal (String.ofList text.toList)]) = _
    rw [String.ofList_toList]
  unfold quote
  rw [String.toList_ofList]
  exact .cons_quiet rfl (hinside.append_quiet hclose)

end Clearance.Source
