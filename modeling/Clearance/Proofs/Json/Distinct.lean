import Clearance.Proofs.Json.RoundTrip

/-!
# Distinct values have distinct texts

The text of a value without fractions determines the value, and where the text ends
(`chars_append_inj`). Nothing is assumed of the size of numbers or of the order of members, so this
says more than that such a text is read back: what the reader would round is still told apart.

The first character gives the kind of a value away (`kind_eq_of_append_eq`). From there on the two
values are taken apart together: the texts in them by what the reader makes of each
(`writeText_append_inj`), the whole numbers by their digits (`writeInt_append_inj`), everything else part
by part.
-/

namespace Clearance.Json

variable {c : Char} {cs rest rest' : List Char} {j j' : Json}

/-! ## Texts and whole numbers -/

/-- Two texts that are written alike are alike, and so is what follows them. -/
theorem writeText_append_inj {s s' : String} (h : writeText s ++ rest = writeText s' ++ rest') :
    s = s' ∧ rest = rest' := by
  simp only [writeText, List.cons_append, List.append_assoc, List.nil_append] at h
  -- the reader undoes every escape and stops at the closing quote, whatever stands behind it
  have hread := congrArg readText (List.cons.inj h).2
  rw [readText_flatMap, readText_flatMap] at hread
  obtain ⟨hs, hrest⟩ := Prod.mk.inj (Option.some.inj hread)
  exact ⟨Option.some.inj hs, hrest⟩

theorem readNumeral_writeInt (n : Int) (hrest : Bounded rest) :
    readNumeral (writeInt n ++ rest) = some (decimal (decide (n < 0)) n.natAbs, rest) := by
  cases n with
  | ofNat n => exact readNumeral_decimal false n hrest
  | negSucc n =>
    have hread : readNumeral ('-' :: Nat.toDigits 10 (n + 1) ++ rest) =
        some (decimal true (n + 1), rest) := readNumeral_decimal true (n + 1) hrest
    rw [writeInt, hread, decide_eq_true (Int.negSucc_lt_zero n)]
    rfl

/-- Digits and sign tell a whole number, however long it is. -/
theorem writeInt_append_inj {n n' : Int} (hrest : Bounded rest) (hrest' : Bounded rest')
    (h : writeInt n ++ rest = writeInt n' ++ rest') : n = n' ∧ rest = rest' := by
  have hread := congrArg readNumeral h
  rw [readNumeral_writeInt n hrest, readNumeral_writeInt n' hrest'] at hread
  obtain ⟨hdecimal, hrests⟩ := Prod.mk.inj (Option.some.inj hread)
  have hsign : decide (n < 0) = decide (n' < 0) := congrArg Numeral.negative hdecimal
  have hsize : n.natAbs = n'.natAbs := by
    have hwhole := congrArg (fun d => Numeral.ofDigits d.whole) hdecimal
    simpa only [decimal, ofDigits_toDigits] using hwhole
  rw [decide_eq_decide] at hsign
  exact ⟨by omega, hrests⟩

/-! ## Kinds of values -/

/-- What the first character of a value tells. -/
inductive Kind where
  | null
  | truth
  | number
  | text
  | list
  | object

/-- The kind of value that begins with a character. -/
def Kind.ofChar (c : Char) : Kind :=
  if isNumeralChar c then number
  else if c = '"' then text
  else if c = '[' then list
  else if c = '\x7b' then object
  else if c = 'n' then null
  else truth

def kind : Json → Kind
  | .null => .null
  | .bool _ => .truth
  | .int _ => .number
  | .float _ => .number
  | .str _ => .text
  | .arr _ => .list
  | .obj _ => .object
  | .unreadable => .null

/-- The first character of a written value tells its kind. -/
theorem exists_kind (j : Json) : ∃ c cs, j.chars = c :: cs ∧ Kind.ofChar c = j.kind := by
  have hnumeric : ∀ {w : List Char}, Numeric w →
      ∃ c cs, w = c :: cs ∧ Kind.ofChar c = .number := by
    intro w hw
    obtain ⟨c, cs, rfl⟩ := List.exists_cons_of_ne_nil hw.1
    exact ⟨c, cs, rfl, if_pos (hw.2 c List.mem_cons_self)⟩
  cases j with
  | null => exact ⟨_, _, by rw [chars], rfl⟩
  | bool b => cases b <;> exact ⟨_, _, by rw [chars], rfl⟩
  | int n =>
    rw [chars]
    exact hnumeric (numeric_writeInt n)
  | float x =>
    rw [chars]
    exact hnumeric (Binary64.numeric_text x)
  | str s => exact ⟨_, _, by rw [chars, writeText], rfl⟩
  | arr items => cases items <;> exact ⟨_, _, by rw [chars], rfl⟩
  | obj members => rcases members with _ | ⟨⟨k, v⟩, members⟩ <;> exact ⟨_, _, by rw [chars], rfl⟩
  | unreadable => exact ⟨_, _, by rw [chars], rfl⟩

/-- Values that begin alike are of one kind. -/
theorem kind_eq_of_append_eq (h : j.chars ++ rest = j'.chars ++ rest') : j.kind = j'.kind := by
  obtain ⟨c, cs, hchars, hkind⟩ := exists_kind j
  obtain ⟨c', cs', hchars', hkind'⟩ := exists_kind j'
  rw [hchars, hchars'] at h
  rw [← hkind, ← hkind', (List.cons.inj h).1]

/-- The end of a list is no beginning of an item. -/
theorem close_ne_chars_append (j : Json) (cs cs' : List Char) : ']' :: cs ≠ j.chars ++ cs' := by
  intro h
  obtain ⟨c, _, hchars, -, hc⟩ := chars_eq_cons j
  rw [hchars] at h
  exact hc (List.cons.inj h).1.symm

/-- Behind the bracket, a list is written like the rest of one, but for a comma. -/
theorem charsItems_append_eq_of_arr {items items' : List Json}
    (h : (arr items).chars ++ rest = (arr items').chars ++ rest') :
    charsItems items ++ rest = charsItems items' ++ rest' := by
  rcases items with _ | ⟨item, items⟩ <;> rcases items' with _ | ⟨item', items'⟩
  · exact (List.cons.inj h).2
  · simp only [chars, List.cons_append, List.append_assoc] at h
    exact absurd (List.cons.inj h).2 (close_ne_chars_append item' _ _)
  · simp only [chars, List.cons_append, List.append_assoc] at h
    exact absurd (List.cons.inj h).2.symm (close_ne_chars_append item _ _)
  · rw [chars, chars] at h
    rw [charsItems, charsItems]
    exact congrArg (',' :: ·) (List.cons.inj h).2

/-- So are members: an object ends in a brace where a name would begin with a quote. -/
theorem charsMembers_append_eq_of_obj {members members' : List (String × Json)}
    (h : (obj members).chars ++ rest = (obj members').chars ++ rest') :
    charsMembers members ++ rest = charsMembers members' ++ rest' := by
  rcases members with _ | ⟨⟨k, v⟩, members⟩ <;> rcases members' with _ | ⟨⟨k', v'⟩, members'⟩
  · exact (List.cons.inj h).2
  · rw [chars, chars] at h
    exact absurd (List.cons.inj (List.cons.inj h).2).1 (by decide)
  · rw [chars, chars] at h
    exact absurd (List.cons.inj (List.cons.inj h).2).1 (by decide)
  · rw [chars, chars] at h
    rw [charsMembers, charsMembers]
    exact congrArg (',' :: ·) (List.cons.inj h).2

/-! ## Values -/

/-- Whether a value is no fraction. What stands for no value does not pass either. -/
def isFractionless : Json → Bool
  | .float _ => false
  | .unreadable => false
  | _ => true

mutual
/-- **A text is that of one value only**, which ends at one place only. -/
theorem chars_append_inj (j j' : Json) {rest rest' : List Char} (hj : j.all isFractionless = true)
    (hj' : j'.all isFractionless = true) (hrest : Bounded rest) (hrest' : Bounded rest')
    (h : j.chars ++ rest = j'.chars ++ rest') : j = j' ∧ rest = rest' := by
  -- by induction on the first value; its kind leaves the second only its own constructor, a fraction
  -- beside a whole number, or what stands for no value beside a null
  have hkind := kind_eq_of_append_eq h
  cases j with
  | null =>
    cases j' with
    | null => exact ⟨rfl, List.append_cancel_left h⟩
    | unreadable => exact absurd hj' Bool.false_ne_true
    | _ => exact Kind.noConfusion hkind
  | bool b =>
    cases j' with
    | bool b' =>
      rcases b with _ | _ <;> rcases b' with _ | _
      · exact ⟨rfl, List.append_cancel_left h⟩
      · exact absurd (List.cons.inj h).1 (by decide)
      · exact absurd (List.cons.inj h).1 (by decide)
      · exact ⟨rfl, List.append_cancel_left h⟩
    | _ => exact Kind.noConfusion hkind
  | int n =>
    cases j' with
    | int n' =>
      rw [chars, chars] at h
      obtain ⟨rfl, hrests⟩ := writeInt_append_inj hrest hrest' h
      exact ⟨rfl, hrests⟩
    | float x => exact absurd hj' Bool.false_ne_true
    | _ => exact Kind.noConfusion hkind
  | float x => exact absurd hj Bool.false_ne_true
  | str s =>
    cases j' with
    | str s' =>
      rw [chars, chars] at h
      obtain ⟨rfl, hrests⟩ := writeText_append_inj h
      exact ⟨rfl, hrests⟩
    | _ => exact Kind.noConfusion hkind
  | arr items =>
    cases j' with
    | arr items' =>
      obtain ⟨hitems, hend⟩ := charsItems_append_inj items items' ((all_arr_iff rfl).1 hj)
        ((all_arr_iff rfl).1 hj') (charsItems_append_eq_of_arr h)
      exact ⟨congrArg arr hitems, hend⟩
    | _ => exact Kind.noConfusion hkind
  | obj members =>
    cases j' with
    | obj members' =>
      obtain ⟨hmembers, hend⟩ := charsMembers_append_inj members members' (all_obj_iff.1 hj).2
        (all_obj_iff.1 hj').2 (charsMembers_append_eq_of_obj h)
      exact ⟨congrArg obj hmembers, hend⟩
    | _ => exact Kind.noConfusion hkind
  | unreadable => exact absurd hj Bool.false_ne_true

/-- Items that are written alike are alike, and so is what follows them. -/
theorem charsItems_append_inj (items items' : List Json) {rest rest' : List Char}
    (hitems : ∀ j ∈ items, j.all isFractionless = true)
    (hitems' : ∀ j ∈ items', j.all isFractionless = true)
    (h : charsItems items ++ rest = charsItems items' ++ rest') : items = items' ∧ rest = rest' := by
  match items, items' with
  | [], [] => exact ⟨rfl, (List.cons.inj h).2⟩
  | [], item' :: more' => exact absurd (List.cons.inj h).1 (by decide)
  | item :: more, [] => exact absurd (List.cons.inj h).1 (by decide)
  | item :: more, item' :: more' =>
    obtain ⟨hitem, hmore⟩ := List.forall_mem_cons.1 hitems
    obtain ⟨hitem', hmore'⟩ := List.forall_mem_cons.1 hitems'
    rw [charsItems, charsItems, List.cons_append, List.cons_append, List.append_assoc,
      List.append_assoc] at h
    -- no numeral runs on into the comma or bracket behind it, so both first items end at one place
    obtain ⟨hfirst, hrest⟩ := chars_append_inj item item' hitem hitem' (bounded_charsItems more rest)
      (bounded_charsItems more' rest') (List.cons.inj h).2
    obtain ⟨hrest, hend⟩ := charsItems_append_inj more more' hmore hmore' hrest
    exact ⟨hfirst ▸ hrest ▸ rfl, hend⟩

/-- Members that are written alike are alike, and so is what follows them. -/
theorem charsMembers_append_inj (members members' : List (String × Json)) {rest rest' : List Char}
    (hmembers : ∀ m ∈ members, m.2.all isFractionless = true)
    (hmembers' : ∀ m ∈ members', m.2.all isFractionless = true)
    (h : charsMembers members ++ rest = charsMembers members' ++ rest') :
    members = members' ∧ rest = rest' := by
  match members, members' with
  | [], [] => exact ⟨rfl, (List.cons.inj h).2⟩
  | [], m' :: more' => exact absurd (List.cons.inj h).1 (by decide)
  | m :: more, [] => exact absurd (List.cons.inj h).1 (by decide)
  | (k, v) :: more, (k', v') :: more' =>
    obtain ⟨hv, hmore⟩ := List.forall_mem_cons.1 hmembers
    obtain ⟨hv', hmore'⟩ := List.forall_mem_cons.1 hmembers'
    simp only [charsMembers, List.cons_append, List.append_assoc] at h
    obtain ⟨hname, h⟩ := writeText_append_inj (List.cons.inj h).2
    obtain ⟨hvalue, h⟩ := chars_append_inj v v' hv hv' (bounded_charsMembers more rest)
      (bounded_charsMembers more' rest') (List.cons.inj h).2
    obtain ⟨hrest, hend⟩ := charsMembers_append_inj more more' hmore hmore' h
    exact ⟨hname ▸ hvalue ▸ hrest ▸ rfl, hend⟩
end

/-- Without fractions, values are written alike only if they are one. -/
theorem write_inj (hj : j.all isFractionless = true) (hj' : j'.all isFractionless = true) :
    j.write = j'.write ↔ j = j' := by
  refine ⟨fun h => ?_, congrArg write⟩
  have hchars : j.chars ++ [] = j'.chars ++ [] := congrArg (· ++ []) (String.ofList_injective h)
  have hend : Bounded [] := fun c hc => absurd hc (by simp)
  exact (chars_append_inj j j' hj hj' hend hend hchars).1

end Clearance.Json
