import Clearance.Proofs.Json.Echo
import Clearance.Proofs.Json.Kept

/-!
# A written value reads as itself

Fractions apart, the text of a value is read as that value (`read_write`): whole numbers that fit 64
bits keep their digits, and no value runs into the comma or bracket behind it. `Echoes.of_read` says what
can come of a value if it is read; here it is that the reader gets through, so the count that bounds its
nesting is looked after as well. Two for each character are enough (`readValue_chars_of_exact`).

In the other direction, no whole number is read that does not fit (`sized_of_read`).
-/

namespace Clearance.Json

variable {c : Char} {cs ds rest : List Char} {fuel n : Nat} {j : Json}

/-! ## Whole numbers -/

theorem digitValue?_of_isDigit (h : c.isDigit = true) :
    digitValue? c = some (c.toNat - '0'.toNat) := by
  unfold digitValue?
  rw [if_pos]
  simpa [Char.isDigit, Char.le_def] using h

theorem splitDigits_of_bounded (h : Bounded rest) : splitDigits rest = ([], rest) := by
  cases rest with
  | nil => rfl
  | cons c rest =>
    rw [splitDigits]
    split
    next d hd => exact absurd (isNumeralChar_of_digitValue? hd) (by simp [h c rfl])
    next => rfl

/-- Digits are split off up to where no numeral goes on. -/
theorem splitDigits_append (hds : ∀ c ∈ ds, c.isDigit = true) (hrest : Bounded rest) :
    splitDigits (ds ++ rest) = (ds.map fun c => c.toNat - '0'.toNat, rest) := by
  induction ds with
  | nil => exact splitDigits_of_bounded hrest
  | cons c ds ih =>
    obtain ⟨hc, hds⟩ := List.forall_mem_cons.1 hds
    rw [List.cons_append, splitDigits, digitValue?_of_isDigit hc]
    dsimp only
    rw [ih hds]
    rfl

/-- Digits are read as the number that they were written for. -/
theorem ofDigits_toDigits (n : Nat) :
    Numeral.ofDigits ((Nat.toDigits 10 n).map fun c => c.toNat - '0'.toNat) = n := by
  have hvalue : Nat.ofDigitChars 10 (Nat.toDigits 10 n) 0 = n :=
    Nat.ofDigitChars_toDigits (by decide) (by decide)
  rw [Numeral.ofDigits, List.foldl_map]
  exact hvalue

/-- A number that is not zero has no zero in front. -/
theorem head?_toDigits_ne (hn : 0 < n) : (Nat.toDigits 10 n).head? ≠ some '0' := by
  induction n using Nat.strongRecOn with
  | ind n ih =>
    by_cases hsmall : n < 10
    · have hdigit : ∀ d < 10, 0 < d → [Nat.digitChar d].head? ≠ some '0' := by decide
      rw [Nat.toDigits_of_lt_base hsmall]
      exact hdigit n hsmall hn
    · have hfront := ih (n / 10) (by omega) (by omega)
      rw [Nat.toDigits_of_base_le (by decide) (Nat.not_lt.1 hsmall), List.head?_append]
      cases hdigits : Nat.toDigits 10 (n / 10) with
      | nil => exact absurd hdigits Nat.toDigits_ne_nil
      | cons c cs =>
        rw [hdigits] at hfront
        exact hfront

/-- The digits of a number begin with the only one or with one that is not zero. -/
theorem toDigits_cases (n : Nat) :
    ∃ d ds, (Nat.toDigits 10 n).map (fun c => c.toNat - '0'.toNat) = d :: ds ∧ (d = 0 → ds = []) := by
  rcases Nat.eq_zero_or_pos n with rfl | hn
  · exact ⟨0, [], rfl, fun _ => rfl⟩
  · have hhead := head?_toDigits_ne hn
    cases hdigits : Nat.toDigits 10 n with
    | nil => exact absurd hdigits Nat.toDigits_ne_nil
    | cons c cs =>
      have hdigit : c.isDigit = true :=
        Nat.isDigit_of_mem_toDigits (by decide) (by decide) (hdigits ▸ List.mem_cons_self ..)
      have hrange : 48 ≤ c.toNat := by
        have hboth : 48 ≤ c.toNat ∧ c.toNat ≤ 57 := by
          simpa [Char.isDigit, UInt32.le_iff_toNat_le] using hdigit
        exact hboth.1
      refine ⟨c.toNat - 48, cs.map _, rfl, fun hzero => ?_⟩
      have hc : c = '0' := Char.toNat_inj.1 (show c.toNat = 48 by omega)
      rw [hdigits, hc] at hhead
      exact absurd rfl hhead

/-- Where no numeral goes on there is neither a fraction nor an exponent. -/
theorem readFraction_of_bounded (h : Bounded rest) : readFraction rest = some (none, rest) := by
  unfold readFraction
  split
  next => exact absurd (h '.' rfl) (by decide)
  next => rfl

theorem readExponent_of_bounded (h : Bounded rest) : readExponent rest = some (none, rest) := by
  unfold readExponent
  split
  next c cs =>
    split
    next hmark =>
      have hc := h c rfl
      rcases hmark with rfl | rfl <;> exact absurd hc (by decide)
    next => rfl
  next => rfl

/-- What is read of the digits of a number, with a hyphen in front or without. -/
def decimal (negative : Bool) (n : Nat) : Numeral :=
  ⟨negative, (Nat.toDigits 10 n).map fun c => c.toNat - '0'.toNat, none, none⟩

/-- Digits are a numeral up to where no numeral goes on, with a hyphen in front or without. -/
theorem readNumeral_decimal (negative : Bool) (n : Nat) (hrest : Bounded rest) :
    readNumeral ((if negative then ['-'] else []) ++ (Nat.toDigits 10 n ++ rest)) =
      some (decimal negative n, rest) := by
  have hdigits : ∀ c ∈ Nat.toDigits 10 n, c.isDigit = true := fun c hc =>
    Nat.isDigit_of_mem_toDigits (by decide) (by decide) hc
  have hsplit := splitDigits_append hdigits hrest
  obtain ⟨d, ds, hwhole, hzero⟩ := toDigits_cases n
  unfold readNumeral decimal
  split
  next signed unsigned hsign =>
    obtain ⟨rfl, rfl⟩ : signed = negative ∧ unsigned = Nat.toDigits 10 n ++ rest := by
      cases negative with
      | true => exact Prod.mk.inj hsign.symm
      | false =>
        split at hsign
        next left hhead =>
          -- a digit is no hyphen
          obtain ⟨c, cs, hcons⟩ := List.exists_cons_of_ne_nil (Nat.toDigits_ne_nil (b := 10) (n := n))
          have hc := hdigits c (hcons ▸ List.mem_cons_self ..)
          rw [hcons] at hhead
          rw [(List.cons.inj hhead).1] at hc
          exact absurd hc (by decide)
        next => exact Prod.mk.inj hsign.symm
    rw [hwhole] at hsplit ⊢
    simp only [hsplit, Option.bind_eq_bind]
    split
    next heq => exact absurd heq (List.cons_ne_nil d ds)
    next heq =>
      obtain ⟨hd, hds⟩ := List.cons.inj heq
      rw [hzero hd] at hds
      exact absurd hds.symm (List.cons_ne_nil _ _)
    next =>
      simp only [Option.bind_some, readFraction_of_bounded hrest, readExponent_of_bounded hrest]

/-- A numeral of up to 64 bits stands for a whole number. -/
theorem value_decimal_false (h : n < Nat.pow 2 64) : (decimal false n).value = .int n := by
  have hwhole : Numeral.ofDigits (decimal false n).whole = n := ofDigits_toDigits n
  unfold Numeral.value
  rw [hwhole]
  exact if_pos ⟨rfl, rfl, rfl, h⟩

/-- A numeral with a sign stands for a whole number, if that has 64 bits with its sign. -/
theorem value_decimal_true (hpos : 0 < n) (h : n ≤ Nat.pow 2 63) :
    (decimal true n).value = .int (-n) := by
  have hwhole : Numeral.ofDigits (decimal true n).whole = n := ofDigits_toDigits n
  unfold Numeral.value
  rw [hwhole]
  dsimp only
  rw [if_neg (fun hsigned => Bool.false_ne_true hsigned.2.2.1), if_pos ⟨rfl, rfl, rfl, hpos, h⟩]

/-- **A whole number that fits is read back**, up to where no numeral goes on. -/
theorem readValue_writeInt {n : Int} (hn : fits n = true) (hrest : Bounded rest) :
    readValue (fuel + 1) (writeInt n ++ rest) = some (.int n, rest) := by
  unfold fits at hn
  rw [Bool.and_eq_true, decide_eq_true_iff, decide_eq_true_iff] at hn
  rw [readValue_of_numeric (numeric_writeInt n)]
  cases n with
  | ofNat n =>
    have hread : readNumeral (Nat.toDigits 10 n ++ rest) = some (decimal false n, rest) :=
      readNumeral_decimal false n hrest
    have hvalue := value_decimal_false (Int.ofNat_lt.1 hn.2)
    rw [writeInt, hread, Option.map_some, hvalue]
    rfl
  | negSucc n =>
    have hread : readNumeral ('-' :: Nat.toDigits 10 (n + 1) ++ rest) =
        some (decimal true (n + 1), rest) := readNumeral_decimal true (n + 1) hrest
    have hvalue := value_decimal_true (Nat.succ_pos n) (by omega)
    rw [writeInt, hread, Option.map_some, hvalue]
    rfl

/-! ## Values -/

/-- Whether a number is a whole one that fits. What stands for no value does not pass either. -/
def isExact : Json → Bool
  | .int n => fits n
  | .float _ => false
  | .unreadable => false
  | _ => true

/-- No value is written as nothing. -/
theorem length_chars_pos (j : Json) : 0 < j.chars.length := by
  obtain ⟨c, cs, hchars, -⟩ := chars_eq_cons j
  rw [hchars]
  exact Nat.succ_pos _

mutual
/-- A value is read where it has been written, if two calls are left for each of its characters. -/
theorem readValue_chars_of_exact (j : Json) {fuel : Nat} {rest : List Char}
    (hexact : j.all isExact = true) (hrest : Bounded rest) (hfuel : 2 * j.chars.length ≤ fuel) :
    readValue fuel (j.chars ++ rest) = some (j, rest) := by
  obtain ⟨fuel, rfl⟩ : ∃ f, fuel = f + 1 := ⟨fuel - 1, by have := length_chars_pos j; omega⟩
  cases j with
  | null => exact readWord_append ..
  | bool b => cases b <;> exact readWord_append ..
  | int n => exact readValue_writeInt hexact hrest
  | float x => exact absurd hexact Bool.false_ne_true
  | unreadable => exact absurd hexact Bool.false_ne_true
  | str s =>
    have htext : readValue (fuel + 1) ((Json.str s).chars ++ rest) =
        (readText (s.toList.flatMap writeChar ++ '"' :: rest)).map
          fun r => (r.1.elim .unreadable .str, r.2) := by
      rw [chars, writeText, List.cons_append, List.append_assoc]
      rfl
    rw [htext, readText_flatMap]
    rfl
  | arr items =>
    rcases items with _ | ⟨item, items⟩
    · rfl
    · rw [chars, List.length_cons, List.length_append] at hfuel
      have hitems : readItems fuel ((charsItems (item :: items)).tail ++ rest) =
          some (item :: items, rest) := by
        refine readItems_chars_of_exact (item :: items) (List.cons_ne_nil _ _)
          ((all_arr_iff rfl).1 hexact) ?_
        rw [charsItems, List.tail_cons, List.length_append]
        omega
      rw [charsItems, List.tail_cons, List.append_assoc] at hitems
      rw [chars, List.cons_append, List.append_assoc, readValue_items, hitems]
      rfl
  | obj members =>
    rcases members with _ | ⟨⟨k, v⟩, members⟩
    · rfl
    · rw [chars, List.length_cons] at hfuel
      have hmembers : readMembers fuel ((charsMembers ((k, v) :: members)).tail ++ rest) =
          some (((k, v) :: members).map fun m => (some m.1, m.2), rest) := by
        refine readMembers_chars_of_exact ((k, v) :: members) (List.cons_ne_nil _ _)
          (all_obj_iff.1 hexact).2 ?_
        rw [charsMembers, List.tail_cons]
        omega
      rw [charsMembers, List.tail_cons, List.append_assoc] at hmembers
      rw [chars, List.cons_append, List.append_assoc, readValue_members, hmembers, Option.map_some,
        closeObject_map]

/-- Items are read from what was written for them. -/
theorem readItems_chars_of_exact (items : List Json) (hitems : items ≠ []) {fuel : Nat}
    {rest : List Char} (hexact : ∀ j ∈ items, j.all isExact = true)
    (hfuel : 2 * (charsItems items).tail.length < fuel) :
    readItems fuel ((charsItems items).tail ++ rest) = some (items, rest) := by
  obtain ⟨fuel, rfl⟩ : ∃ f, fuel = f + 1 := ⟨fuel - 1, by omega⟩
  match items with
  | [] => exact absurd rfl hitems
  | item :: more =>
    obtain ⟨hitem, hmore⟩ := List.forall_mem_cons.1 hexact
    rw [charsItems, List.tail_cons, List.length_append] at hfuel
    rw [charsItems, List.tail_cons, List.append_assoc, readItems_succ,
      readValue_chars_of_exact item hitem (bounded_charsItems more rest) (by omega)]
    match more with
    | [] => rfl
    | second :: more =>
      have hread : readItems fuel ((charsItems (second :: more)).tail ++ rest) =
          some (second :: more, rest) := by
        refine readItems_chars_of_exact (second :: more) (List.cons_ne_nil _ _) hmore ?_
        rw [List.length_tail]
        have hpos := length_chars_pos item
        omega
      show (readItems fuel ((charsItems (second :: more)).tail ++ rest)).map
        (fun r => (item :: r.1, r.2)) = _
      rw [hread]
      rfl

/-- Members are read from what was written for them. -/
theorem readMembers_chars_of_exact (members : List (String × Json)) (hmembers : members ≠ [])
    {fuel : Nat} {rest : List Char} (hexact : ∀ m ∈ members, m.2.all isExact = true)
    (hfuel : 2 * (charsMembers members).tail.length < fuel) :
    readMembers fuel ((charsMembers members).tail ++ rest) =
      some (members.map fun m => (some m.1, m.2), rest) := by
  obtain ⟨fuel, rfl⟩ : ∃ f, fuel = f + 1 := ⟨fuel - 1, by omega⟩
  match members with
  | [] => exact absurd rfl hmembers
  | (k, v) :: more =>
    obtain ⟨hv, hmore⟩ := List.forall_mem_cons.1 hexact
    rw [charsMembers, List.tail_cons, List.length_append, List.length_cons, List.length_append]
      at hfuel
    rw [charsMembers, List.tail_cons, List.append_assoc, List.cons_append, List.append_assoc,
      readMembers_writeText,
      readValue_chars_of_exact v hv (bounded_charsMembers more rest) (by omega)]
    match more with
    | [] => rfl
    | second :: more =>
      have hread : readMembers fuel ((charsMembers (second :: more)).tail ++ rest) =
          some ((second :: more).map fun m => (some m.1, m.2), rest) := by
        refine readMembers_chars_of_exact (second :: more) (List.cons_ne_nil _ _) hmore ?_
        rw [List.length_tail]
        omega
      show (readMembers fuel ((charsMembers (second :: more)).tail ++ rest)).map
        (fun r => ((some k, v) :: r.1, r.2)) = _
      rw [hread]
      rfl
end

/-- **The text of a value without fractions is read as the value.** -/
theorem read_write (h : j.all isExact = true) : read j.write = some j := by
  have hchars : j.write.toList = j.chars ++ [] := by
    rw [List.append_nil]
    exact String.toList_ofList
  have hread : readValue (2 * (j.chars ++ []).length + 2) (j.chars ++ []) = some (j, []) := by
    refine readValue_chars_of_exact j h (fun c hc => absurd hc (by simp)) ?_
    rw [List.append_nil]
    exact Nat.le_add_right ..
  unfold read
  rw [hchars]
  dsimp only
  rw [hread]
  rfl

/-! ## What is read -/

/-- The whole numbers that numerals stand for fit. -/
theorem Numeral.sized_value (n : Numeral) : n.value.all isSized = true := by
  unfold Numeral.value
  dsimp only
  split
  next h =>
    have hlt := Int.ofNat_lt.2 h.2.2.2
    have hle : -(Nat.pow 2 63 : Int) ≤ 0 := by decide
    simp only [all, isSized, fits, Bool.and_eq_true, decide_eq_true_eq]
    omega
  next =>
    split
    next h =>
      have hle := Int.ofNat_le.2 h.2.2.2.2
      have hlt : (0 : Int) < (Nat.pow 2 64 : Nat) := by decide
      simp only [all, isSized, fits, Bool.and_eq_true, decide_eq_true_eq]
      omega
    next => split <;> rfl

/-- The numbers in an object fit if those of its members do. -/
theorem sized_closeObject {members : List (Option String × Json)}
    (h : ∀ m ∈ members, m.2.all isSized = true) : (closeObject members).all isSized = true := by
  unfold closeObject
  split
  next named hnamed =>
    refine all_obj_iff.2 ⟨rfl, fun m hm => ?_⟩
    obtain ⟨given, hgiven, hread⟩ := exists_of_mapM hnamed m hm
    obtain ⟨k, -, rfl⟩ := Option.map_eq_some_iff.1 hread
    exact h given hgiven
  next => rfl

theorem sized_of_readWord {word cs rest : List Char} {value j : Json}
    (hvalue : value.all isSized = true) (h : readWord word value cs = some (j, rest)) :
    j.all isSized = true := by
  unfold readWord at h
  split at h
  next =>
    rw [← (Prod.mk.inj (Option.some.inj h)).1]
    exact hvalue
  next => exact absurd h (by simp)

mutual
/-- Whatever the text, whole numbers that are read from it fit. -/
theorem sized_of_readValue {fuel : Nat} {cs rest : List Char} {j : Json}
    (h : readValue fuel cs = some (j, rest)) : j.all isSized = true := by
  match fuel with
  | 0 => exact absurd h (by simp [readValue])
  | fuel + 1 =>
    rw [readValue] at h
    split at h
    next =>
      obtain ⟨⟨s, left⟩, -, heq⟩ := Option.map_eq_some_iff.1 h
      rw [← (Prod.mk.inj heq).1]
      cases s <;> rfl
    next =>
      split at h
      next =>
        rw [← (Prod.mk.inj (Option.some.inj h)).1]
        rfl
      next =>
        obtain ⟨⟨items, left⟩, hitems, heq⟩ := Option.map_eq_some_iff.1 h
        rw [← (Prod.mk.inj heq).1]
        exact (all_arr_iff rfl).2 (sized_of_readItems hitems)
    next =>
      split at h
      next =>
        rw [← (Prod.mk.inj (Option.some.inj h)).1]
        rfl
      next =>
        obtain ⟨⟨members, left⟩, hmembers, heq⟩ := Option.map_eq_some_iff.1 h
        rw [← (Prod.mk.inj heq).1]
        exact sized_closeObject (sized_of_readMembers hmembers)
    next => exact sized_of_readWord rfl h
    next => exact sized_of_readWord rfl h
    next => exact sized_of_readWord rfl h
    next =>
      obtain ⟨⟨n, left⟩, -, heq⟩ := Option.map_eq_some_iff.1 h
      rw [← (Prod.mk.inj heq).1]
      exact n.sized_value

theorem sized_of_readItems {fuel : Nat} {cs rest : List Char} {items : List Json}
    (h : readItems fuel cs = some (items, rest)) : ∀ j ∈ items, j.all isSized = true := by
  match fuel with
  | 0 => exact absurd h (by simp [readItems])
  | fuel + 1 =>
    rw [readItems] at h
    split at h
    next => exact absurd h (by simp)
    next item left hvalue =>
      have hitem := sized_of_readValue hvalue
      split at h
      next =>
        obtain ⟨⟨more, left⟩, hmore, heq⟩ := Option.map_eq_some_iff.1 h
        rw [← (Prod.mk.inj heq).1]
        exact List.forall_mem_cons.2 ⟨hitem, sized_of_readItems hmore⟩
      next =>
        rw [← (Prod.mk.inj (Option.some.inj h)).1]
        exact List.forall_mem_singleton.2 hitem
      next => exact absurd h (by simp)

theorem sized_of_readMembers {fuel : Nat} {cs rest : List Char}
    {members : List (Option String × Json)} (h : readMembers fuel cs = some (members, rest)) :
    ∀ m ∈ members, m.2.all isSized = true := by
  match fuel with
  | 0 => exact absurd h (by simp [readMembers])
  | fuel + 1 =>
    rw [readMembers] at h
    split at h
    next =>
      split at h
      next => exact absurd h (by simp)
      next =>
        split at h
        next =>
          split at h
          next => exact absurd h (by simp)
          next value left hvalue =>
            have hsized := sized_of_readValue hvalue
            split at h
            next =>
              obtain ⟨⟨more, left⟩, hmore, heq⟩ := Option.map_eq_some_iff.1 h
              rw [← (Prod.mk.inj heq).1]
              exact List.forall_mem_cons.2 ⟨hsized, sized_of_readMembers hmore⟩
            next =>
              rw [← (Prod.mk.inj (Option.some.inj h)).1]
              exact List.forall_mem_singleton.2 hsized
            next => exact absurd h (by simp)
        next => exact absurd h (by simp)
    next => exact absurd h (by simp)
end

/-- **Every number that is read fits**, if it is a whole one. -/
theorem sized_of_read {text : String} (h : read text = some j) : j.all isSized = true := by
  unfold read at h
  dsimp only at h
  split at h
  next value rest hvalue =>
    split at h
    next =>
      rw [← Option.some.inj h]
      exact sized_of_readValue hvalue
    next => exact absurd h (by simp)
  next => exact absurd h (by simp)

end Clearance.Json
