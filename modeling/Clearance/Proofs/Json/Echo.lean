import Clearance.Proofs.Json.Numeral
import Clearance.Proofs.Reading

/-!
# What a written value reads as

`Echoes` relates a value to what its text may be read as: everything is as it was, in its place and
under its name, but for the numbers, of which nothing is said. It says enough for whoever looks for
texts in the document, whatever numbers stand next to them.

`Echoes.of_read` is proved along the value, with a statement for lists of items and one for lists of
members. A number leaves it open whether the reader stops where the number ends; that it does is
settled one level up, where only a comma or a bracket can follow.
-/

namespace Clearance.Json

mutual
/-- Whether a text written for one value may be read as the other. -/
inductive Echoes : Json → Json → Prop
  | null : Echoes .null .null
  | bool (b : Bool) : Echoes (.bool b) (.bool b)
  | int (n : Int) (j : Json) : Echoes (.int n) j
  | float (x : Binary64) (j : Json) : Echoes (.float x) j
  | str (s : String) : Echoes (.str s) (.str s)
  | arr {items items' : List Json} (h : EchoesItems items items') : Echoes (.arr items) (.arr items')
  | obj {members members' : List (String × Json)} (h : EchoesMembers members members') :
      Echoes (.obj members) (.obj members')
  | unreadable (j : Json) : Echoes .unreadable j

inductive EchoesItems : List Json → List Json → Prop
  | nil : EchoesItems [] []
  | cons {j j' : Json} {items items' : List Json} (h : Echoes j j')
      (hrest : EchoesItems items items') : EchoesItems (j :: items) (j' :: items')

inductive EchoesMembers : List (String × Json) → List (String × Json) → Prop
  | nil : EchoesMembers [] []
  | cons {k : String} {j j' : Json} {members members' : List (String × Json)} (h : Echoes j j')
      (hrest : EchoesMembers members members') :
      EchoesMembers ((k, j) :: members) ((k, j') :: members')
end

variable {c : Char} {cs rest rest' w : List Char} {fuel : Nat} {j : Json}

theorem skipBlanks_cons (h : isBlank c = false) : skipBlanks (c :: cs) = c :: cs := by
  unfold skipBlanks
  rw [List.dropWhile_cons_of_neg (by simp [h])]

/-- A word is read where it is written. -/
theorem readWord_append (word : List Char) (value : Json) (rest : List Char) :
    readWord word value (word ++ rest) = some (value, rest) := by
  unfold readWord
  rw [if_pos (List.isPrefixOf_iff_prefix.2 (List.prefix_append word rest)), List.drop_left]

theorem ne_of_isNumeralChar {x : Char} (h : isNumeralChar c = true) (hx : isNumeralChar x = false) :
    c ≠ x := by
  rintro rfl
  rw [h] at hx
  exact absurd hx (by decide)

/-- No character of a numeral is blank. -/
theorem isBlank_of_isNumeralChar (h : isNumeralChar c = true) : isBlank c = false := by
  have hspace := ne_of_isNumeralChar h (x := ' ') (by decide)
  have htab := ne_of_isNumeralChar h (x := '\t') (by decide)
  have hline := ne_of_isNumeralChar h (x := '\n') (by decide)
  have hreturn := ne_of_isNumeralChar h (x := '\r') (by decide)
  simp [isBlank, hspace, htab, hline, hreturn]

/-- After a character of a numeral nothing that may follow a value is found. -/
theorem Stray.skipBlanks (h : Stray rest) :
    ∃ c cs, Json.skipBlanks rest = c :: cs ∧ isNumeralChar c = true := by
  obtain ⟨c, hhead, hc⟩ := h
  obtain ⟨cs, rfl⟩ : ∃ cs, rest = c :: cs := by
    cases rest with
    | nil => exact absurd hhead (by simp)
    | cons x cs => exact ⟨cs, by rw [Option.mem_some_iff.1 hhead]⟩
  exact ⟨c, cs, skipBlanks_cons (isBlank_of_isNumeralChar hc), hc⟩

/-- What might be a numeral is left to the reader of numerals. -/
theorem readValue_of_numeric (hw : Numeric w) :
    readValue (fuel + 1) (w ++ rest) =
      (readNumeral (w ++ rest)).map fun r => (r.1.value, r.2) := by
  obtain ⟨hne, hchars⟩ := hw
  obtain ⟨c, w, rfl⟩ := List.exists_cons_of_ne_nil hne
  have hc := hchars c (List.mem_cons_self ..)
  rw [readValue, List.cons_append, skipBlanks_cons (isBlank_of_isNumeralChar hc)]
  split
  case h_7 => rfl
  all_goals
    rename_i heq
    rw [(List.cons.inj heq).1] at hc
    exact absurd hc (by decide)

/-- What reads a value from a numeral passes over characters of numerals only. -/
theorem passes_readValue (hw : Numeric w) (h : readValue (fuel + 1) (w ++ rest) = some (j, rest')) :
    Passes (w ++ rest) rest' := by
  rw [readValue_of_numeric hw] at h
  obtain ⟨⟨n, left⟩, hnumeral, heq⟩ := Option.map_eq_some_iff.1 h
  rw [← (Prod.mk.inj heq).2]
  exact passes_readNumeral hnumeral

/-- A number is read, or some of its characters are left over. -/
theorem eq_or_stray_of_readValue (hw : Numeric w) (hrest : Bounded rest)
    (h : readValue fuel (w ++ rest) = some (j, rest')) : rest' = rest ∨ Stray rest' := by
  cases fuel with
  | zero => exact absurd h (by simp [readValue])
  | succ fuel => exact (passes_readValue hw h).eq_or_stray hw.2 hrest

/-- Every value begins with a character that tells it from blanks and from the end of a list. -/
theorem chars_eq_cons (j : Json) : ∃ c cs, j.chars = c :: cs ∧ isBlank c = false ∧ c ≠ ']' := by
  have hnumeric : ∀ {w : List Char}, Numeric w →
      ∃ c cs, w = c :: cs ∧ isBlank c = false ∧ c ≠ ']' := by
    intro w hw
    obtain ⟨c, cs, rfl⟩ := List.exists_cons_of_ne_nil hw.1
    have hc := hw.2 c (List.mem_cons_self ..)
    exact ⟨c, cs, rfl, isBlank_of_isNumeralChar hc, ne_of_isNumeralChar hc (by decide)⟩
  cases j with
  | null => exact ⟨_, _, by rw [chars], by decide, by decide⟩
  | bool b => cases b <;> exact ⟨_, _, by rw [chars], by decide, by decide⟩
  | int n =>
    rw [chars]
    exact hnumeric (numeric_writeInt n)
  | float x =>
    rw [chars]
    exact hnumeric (Binary64.numeric_text x)
  | str s => exact ⟨_, _, by rw [chars, writeText], by decide, by decide⟩
  | arr items => cases items <;> exact ⟨_, _, by rw [chars], by decide, by decide⟩
  | obj members =>
    rcases members with _ | ⟨⟨k, v⟩, members⟩ <;> exact ⟨_, _, by rw [chars], by decide, by decide⟩
  | unreadable => exact ⟨_, _, by rw [chars], by decide, by decide⟩

/-- A list with something in it is read item by item. -/
theorem readValue_items (j : Json) (rest : List Char) :
    readValue (fuel + 1) ('[' :: (j.chars ++ rest)) =
      (readItems fuel (j.chars ++ rest)).map fun r => (.arr r.1, r.2) := by
  obtain ⟨c, cs, hchars, hblank, hend⟩ := chars_eq_cons j
  have hskip : skipBlanks (j.chars ++ rest) = c :: (cs ++ rest) := by
    rw [hchars]
    exact skipBlanks_cons hblank
  rw [readValue, skipBlanks_cons (by decide)]
  simp only [hskip]
  split
  next heq => exact absurd (List.cons.inj heq).1 hend
  next =>
    rw [hchars]
    rfl

/-- An object with something in it is read member by member. -/
theorem readValue_members (k : String) (rest : List Char) :
    readValue (fuel + 1) ('\x7b' :: (writeText k ++ rest)) =
      (readMembers fuel (writeText k ++ rest)).map fun r => (closeObject r.1, r.2) := by
  rw [readValue, skipBlanks_cons (by decide)]
  simp only
  rw [writeText, List.cons_append, skipBlanks_cons (by decide)]
  rfl

theorem closeObject_map (members : List (String × Json)) :
    closeObject (members.map fun m => (some m.1, m.2)) = .obj members := by
  have hread : (members.map fun m => (some m.1, m.2)).mapM
      (fun (m : Option String × Json) => m.1.map fun k => (k, m.2)) = some (members.map id) :=
    mapM_map members fun m _ => rfl
  rw [List.map_id] at hread
  unfold closeObject
  rw [hread]

/-- No numeral runs on into the items behind it. -/
theorem bounded_charsItems (items : List Json) (rest : List Char) :
    Bounded (charsItems items ++ rest) := by
  intro c hc
  cases items with
  | nil =>
    rw [charsItems] at hc
    obtain rfl := Option.mem_some_iff.1 hc
    decide
  | cons item items =>
    rw [charsItems] at hc
    obtain rfl := Option.mem_some_iff.1 hc
    decide

/-- No numeral runs on into the members behind it. -/
theorem bounded_charsMembers (members : List (String × Json)) (rest : List Char) :
    Bounded (charsMembers members ++ rest) := by
  intro c hc
  rcases members with _ | ⟨⟨k, v⟩, members⟩
  all_goals
    rw [charsMembers] at hc
    obtain rfl := Option.mem_some_iff.1 hc
    decide

/-- How the reader of items goes on after it has tried to read one. -/
def itemsAfter (fuel : Nat) : Option (Json × List Char) → Option (List Json × List Char)
  | none => none
  | some (item, rest) =>
    match skipBlanks rest with
    | ',' :: rest => (readItems fuel rest).map fun (items, rest) => (item :: items, rest)
    | ']' :: rest => some ([item], rest)
    | _ => none

theorem readItems_succ (cs : List Char) :
    readItems (fuel + 1) cs = itemsAfter fuel (readValue fuel cs) := by
  rw [readItems]
  cases readValue fuel cs <;> rfl

/-- Items do not go on behind what neither ends nor separates them. -/
theorem itemsAfter_of_stray (h : Stray rest) : itemsAfter fuel (some (j, rest)) = none := by
  obtain ⟨c, left, hskip, hc⟩ := h.skipBlanks
  unfold itemsAfter
  dsimp only
  rw [hskip]
  split
  next heq => exact absurd (List.cons.inj heq).1 (ne_of_isNumeralChar hc (by decide))
  next heq => exact absurd (List.cons.inj heq).1 (ne_of_isNumeralChar hc (by decide))
  next => rfl

/-- How the reader of members goes on after it has tried to read the value of one. -/
def membersAfter (fuel : Nat) (k : Option String) :
    Option (Json × List Char) → Option (List (Option String × Json) × List Char)
  | none => none
  | some (value, rest) =>
    match skipBlanks rest with
    | ',' :: rest => (readMembers fuel rest).map fun (members, rest) => ((k, value) :: members, rest)
    | '\x7d' :: rest => some ([(k, value)], rest)
    | _ => none

/-- A written name and its colon are passed over. -/
theorem readMembers_writeText (k : String) (cs : List Char) :
    readMembers (fuel + 1) (writeText k ++ ':' :: cs) =
      membersAfter fuel (some k) (readValue fuel cs) := by
  have htext : writeText k ++ ':' :: cs =
      '"' :: (k.toList.flatMap writeChar ++ '"' :: ':' :: cs) := by
    rw [writeText, List.cons_append, List.append_assoc]
    rfl
  rw [htext, readMembers, skipBlanks_cons (by decide)]
  simp only [readText_flatMap]
  rw [skipBlanks_cons (by decide)]
  simp only
  cases readValue fuel cs with
  | none => rfl
  | some r => rfl

/-- Members do not go on behind what neither ends nor separates them. -/
theorem membersAfter_of_stray {k : Option String} (h : Stray rest) :
    membersAfter fuel k (some (j, rest)) = none := by
  obtain ⟨c, left, hskip, hc⟩ := h.skipBlanks
  unfold membersAfter
  dsimp only
  rw [hskip]
  split
  next heq => exact absurd (List.cons.inj heq).1 (ne_of_isNumeralChar hc (by decide))
  next heq => exact absurd (List.cons.inj heq).1 (ne_of_isNumeralChar hc (by decide))
  next => rfl

mutual
/-- What stands where a value has been written reads as an echo of it. -/
theorem readValue_chars (j : Json) {fuel : Nat} {rest rest' : List Char} {j' : Json}
    (hrest : Bounded rest) (h : readValue fuel (j.chars ++ rest) = some (j', rest')) :
    Echoes j j' ∧ (rest' = rest ∨ Stray rest') := by
  obtain ⟨fuel, rfl⟩ : ∃ f, fuel = f + 1 := by
    cases fuel with
    | zero => exact absurd h (by simp [readValue])
    | succ f => exact ⟨f, rfl⟩
  cases j with
  | null =>
    obtain ⟨rfl, rfl⟩ := Prod.mk.inj (Option.some.inj ((readWord_append _ _ _).symm.trans h))
    exact ⟨.null, .inl rfl⟩
  | bool b =>
    cases b
    all_goals
      obtain ⟨rfl, rfl⟩ := Prod.mk.inj (Option.some.inj ((readWord_append _ _ _).symm.trans h))
      exact ⟨.bool _, .inl rfl⟩
  | int n =>
    rw [chars] at h
    exact ⟨.int n j', eq_or_stray_of_readValue (numeric_writeInt n) hrest h⟩
  | float x =>
    rw [chars] at h
    exact ⟨.float x j', eq_or_stray_of_readValue (Binary64.numeric_text x) hrest h⟩
  | str s =>
    have htext : (readText (s.toList.flatMap writeChar ++ '"' :: rest)).map
        (fun r => (r.1.elim .unreadable .str, r.2)) = some (j', rest') := by
      rw [← h, chars, writeText, List.cons_append, List.append_assoc]
      rfl
    rw [readText_flatMap] at htext
    obtain ⟨rfl, rfl⟩ := Prod.mk.inj (Option.some.inj htext)
    exact ⟨.str s, .inl rfl⟩
  | unreadable =>
    obtain ⟨rfl, rfl⟩ := Prod.mk.inj (Option.some.inj ((readWord_append _ _ _).symm.trans h))
    exact ⟨.unreadable _, .inl rfl⟩
  | arr items =>
    rcases items with _ | ⟨item, items⟩
    · obtain ⟨rfl, rfl⟩ := Prod.mk.inj (Option.some.inj ((show some _ = _ from rfl).trans h))
      exact ⟨.arr .nil, .inl rfl⟩
    · rw [chars, List.cons_append, List.append_assoc, readValue_items] at h
      obtain ⟨⟨items', left⟩, hread, heq⟩ := Option.map_eq_some_iff.1 h
      obtain ⟨rfl, rfl⟩ := Prod.mk.inj heq
      rw [← List.append_assoc] at hread
      obtain ⟨hitems, rfl⟩ := readItems_chars (item :: items) (by simp) hread
      exact ⟨.arr hitems, .inl rfl⟩
  | obj members =>
    rcases members with _ | ⟨⟨k, v⟩, members⟩
    · obtain ⟨rfl, rfl⟩ := Prod.mk.inj (Option.some.inj ((show some _ = _ from rfl).trans h))
      exact ⟨.obj .nil, .inl rfl⟩
    · rw [chars, List.cons_append, List.append_assoc, readValue_members] at h
      obtain ⟨⟨read, left⟩, hread, heq⟩ := Option.map_eq_some_iff.1 h
      rw [← List.append_assoc] at hread
      obtain ⟨members', rfl, hmembers, rfl⟩ := readMembers_chars ((k, v) :: members) (by simp) hread
      rw [closeObject_map] at heq
      obtain ⟨rfl, rfl⟩ := Prod.mk.inj heq
      exact ⟨.obj hmembers, .inl rfl⟩

/-- What stands where the items of a list have been written reads as echoes of them. -/
theorem readItems_chars (items : List Json) (hitems : items ≠ []) {fuel : Nat}
    {rest rest' : List Char} {items' : List Json}
    (h : readItems fuel ((charsItems items).tail ++ rest) = some (items', rest')) :
    EchoesItems items items' ∧ rest' = rest := by
  obtain ⟨fuel, rfl⟩ : ∃ f, fuel = f + 1 := by
    cases fuel with
    | zero => exact absurd h (by simp [readItems])
    | succ f => exact ⟨f, rfl⟩
  match items with
  | [] => exact absurd rfl hitems
  | item :: more =>
    rw [charsItems, List.tail_cons, List.append_assoc, readItems_succ] at h
    cases hvalue : readValue fuel (item.chars ++ (charsItems more ++ rest)) with
    | none =>
      rw [hvalue] at h
      exact absurd h (by simp [itemsAfter])
    | some r =>
      obtain ⟨item', left⟩ := r
      rw [hvalue] at h
      obtain ⟨hitem, rfl | hstray⟩ := readValue_chars item (bounded_charsItems more rest) hvalue
      · match more with
        | [] =>
          have hlast : some ([item'], rest) = some (items', rest') := h
          obtain ⟨rfl, rfl⟩ := Prod.mk.inj (Option.some.inj hlast)
          exact ⟨.cons hitem .nil, rfl⟩
        | second :: more =>
          have hmore : (readItems fuel ((charsItems (second :: more)).tail ++ rest)).map
              (fun r => (item' :: r.1, r.2)) = some (items', rest') := h
          obtain ⟨⟨items'', left⟩, hread, heq⟩ := Option.map_eq_some_iff.1 hmore
          obtain ⟨rfl, rfl⟩ := Prod.mk.inj heq
          obtain ⟨hrest, hleft⟩ := readItems_chars (second :: more) (by simp) hread
          exact ⟨.cons hitem hrest, hleft⟩
      · rw [itemsAfter_of_stray hstray] at h
        exact absurd h (by simp)

/-- What stands where the members of an object have been written reads as echoes of them. -/
theorem readMembers_chars (members : List (String × Json)) (hmembers : members ≠ []) {fuel : Nat}
    {rest rest' : List Char} {read : List (Option String × Json)}
    (h : readMembers fuel ((charsMembers members).tail ++ rest) = some (read, rest')) :
    ∃ members', read = members'.map (fun m => (some m.1, m.2)) ∧ EchoesMembers members members' ∧
      rest' = rest := by
  obtain ⟨fuel, rfl⟩ : ∃ f, fuel = f + 1 := by
    cases fuel with
    | zero => exact absurd h (by simp [readMembers])
    | succ f => exact ⟨f, rfl⟩
  match members with
  | [] => exact absurd rfl hmembers
  | (k, v) :: more =>
    rw [charsMembers, List.tail_cons, List.append_assoc, List.cons_append, List.append_assoc,
      readMembers_writeText] at h
    cases hvalue : readValue fuel (v.chars ++ (charsMembers more ++ rest)) with
    | none =>
      rw [hvalue] at h
      exact absurd h (by simp [membersAfter])
    | some r =>
      obtain ⟨v', left⟩ := r
      rw [hvalue] at h
      obtain ⟨hv, rfl | hstray⟩ := readValue_chars v (bounded_charsMembers more rest) hvalue
      · match more with
        | [] =>
          have hlast : some ([(some k, v')], rest) = some (read, rest') := h
          obtain ⟨rfl, rfl⟩ := Prod.mk.inj (Option.some.inj hlast)
          exact ⟨[(k, v')], rfl, .cons hv .nil, rfl⟩
        | second :: more =>
          have hmore : (readMembers fuel ((charsMembers (second :: more)).tail ++ rest)).map
              (fun r => ((some k, v') :: r.1, r.2)) = some (read, rest') := h
          obtain ⟨⟨read', left⟩, hread, heq⟩ := Option.map_eq_some_iff.1 hmore
          obtain ⟨rfl, rfl⟩ := Prod.mk.inj heq
          obtain ⟨members', rfl, hrest, hleft⟩ := readMembers_chars (second :: more) (by simp) hread
          exact ⟨(k, v') :: members', rfl, .cons hv hrest, hleft⟩
      · rw [membersAfter_of_stray hstray] at h
        exact absurd h (by simp)
end

/-- **What a written value reads as echoes it.** -/
theorem Echoes.of_read {j j' : Json} (h : read j.write = some j') : Echoes j j' := by
  have hchars : j.write.toList = j.chars ++ [] := by
    rw [List.append_nil]
    exact String.toList_ofList
  unfold read at h
  rw [hchars] at h
  dsimp only at h
  split at h
  next value rest hvalue =>
    have hecho := (readValue_chars j (fun c hc => absurd hc (by simp)) hvalue).1
    split at h
    next =>
      rw [← Option.some.inj h]
      exact hecho
    next => exact absurd h (by simp)
  next => exact absurd h (by simp)

end Clearance.Json
