import Clearance.Settings.Placeholder

/-!
# The placeholders of a line

Which placeholders count is said here by where they stand in a line: those that are found from the left,
each the first that begins where the one before is over (`Leftmost`), as far as they begin before the
line's first `#` (`heeded`). Nothing of this reads a line character by character. `reads_pieces` proves
that the reading of a line comes to the same: it has the names of those placeholders, and around them
everything else (`filled`).

The proof goes along the line by positions. Where no placeholder begins, the same ones are found from the
next position on (`leftmost_succ_iff`), and where one does, it is the first that is found
(`Leftmost.eq_cons`). Once a `#` has been passed nothing that is still found is heeded (`heeded_eq_nil`).
-/

namespace Clearance.Placeholder

/-! ## The placeholders of a line -/

/-- A placeholder as it is written. -/
def written (name : List Char) : List Char := '$' :: '\x7b' :: (name ++ ['\x7d'])

/-- Where a placeholder begins, and the name in it. -/
structure Place where
  start : Nat
  name : List Char

/-- Where it is over. -/
def Place.stop (p : Place) : Nat := p.start + (written p.name).length

/-- Whether a placeholder stands at a place in a line. -/
structure Place.IsIn (p : Place) (line : List Char) : Prop where
  named : p.name ≠ []
  closed : '\x7d' ∉ p.name
  stands : written p.name <+: line.drop p.start

/-- The placeholders that are found in a line from a position on: each is the first that begins where the
one before is over, or later. -/
inductive Leftmost (line : List Char) : Nat → List Place → Prop
  | none {pos : Nat} (h : ∀ p : Place, p.IsIn line → ¬ pos ≤ p.start) : Leftmost line pos []
  | next {pos : Nat} {p : Place} {places : List Place} (hin : p.IsIn line) (hpos : pos ≤ p.start)
      (hfirst : ∀ p' : Place, p'.IsIn line → pos ≤ p'.start → p.start ≤ p'.start)
      (hrest : Leftmost line p.stop places) : Leftmost line pos (p :: places)

/-- The places that begin before the first `#` of a line. -/
def heeded (line : List Char) (places : List Place) : List Place :=
  places.filter fun p => decide ('#' ∉ line.take p.start)

/-- A line from a position on, with a text in the place of each placeholder. -/
def filled (value : List Char → List Char) (line : List Char) : Nat → List Place → List Char
  | pos, [] => line.drop pos
  | pos, p :: places =>
    (line.take p.start).drop pos ++ value p.name ++ filled value line p.stop places

variable {line cs name after : List Char} {pos : Nat} {p : Place} {places : List Place}

/-! ## Single placeholders -/

/-- What is recognized at the front of a text is a placeholder as it is written. -/
theorem placeholder?_eq_some_iff :
    placeholder? cs = some (name, after) ↔
      name ≠ [] ∧ '\x7d' ∉ name ∧ cs = written name ++ after := by
  constructor
  · intro h
    unfold placeholder? at h
    split at h
    next rest =>
      have hrest := List.takeWhile_append_dropWhile (p := (· != '\x7d')) (l := rest)
      dsimp only at h
      split at h
      next => exact absurd h (by simp)
      next c tail hdrop =>
        have hc : c = '\x7d' := by
          have hhead := List.head?_dropWhile_not (· != '\x7d') rest
          simpa [hdrop] using hhead
        split at h
        next => exact absurd h (by simp)
        next hname =>
          obtain ⟨rfl, rfl⟩ := Prod.mk.inj (Option.some.inj h)
          have hall := List.all_takeWhile (p := (· != '\x7d')) (l := rest)
          refine ⟨by simpa using hname, fun hin => ?_, ?_⟩
          · simpa using List.all_eq_true.1 hall _ hin
          · rw [hdrop, hc] at hrest
            simp only [written, List.cons_append, List.append_assoc, List.nil_append]
            rw [hrest]
    next => exact absurd h (by simp)
  · rintro ⟨hname, hclosed, rfl⟩
    have hall : ∀ c ∈ name, (c != '\x7d') = true := fun c hc => by
      simpa using fun he : c = '\x7d' => hclosed (he ▸ hc)
    have htake : (name ++ '\x7d' :: after).takeWhile (· != '\x7d') = name := by
      rw [List.takeWhile_append_of_pos hall]
      simp
    have hdrop : (name ++ '\x7d' :: after).dropWhile (· != '\x7d') = '\x7d' :: after := by
      rw [List.dropWhile_append_of_pos hall]
      simp
    simp [written, placeholder?, htake, hdrop, hname]

/-- A placeholder is in a line at a place if one is read there. -/
theorem isIn_iff : p.IsIn line ↔ ∃ after, placeholder? (line.drop p.start) = some (p.name, after) := by
  simp only [placeholder?_eq_some_iff]
  constructor
  · rintro ⟨hnamed, hclosed, after, hafter⟩
    exact ⟨after, hnamed, hclosed, hafter.symm⟩
  · rintro ⟨after, hnamed, hclosed, hafter⟩
    exact ⟨hnamed, hclosed, after, hafter.symm⟩

theorem Place.start_lt_stop (p : Place) : p.start < p.stop := by
  unfold stop written
  simp

/-- What follows a placeholder begins where it is over. -/
theorem drop_stop (h : placeholder? (line.drop p.start) = some (p.name, after)) :
    line.drop p.stop = after := by
  obtain ⟨-, -, hafter⟩ := placeholder?_eq_some_iff.1 h
  rw [Place.stop, ← List.drop_drop, hafter, List.drop_left]

/-- Up to the end of a placeholder there is what stands before it, and the placeholder. -/
theorem take_stop (h : placeholder? (line.drop p.start) = some (p.name, after)) :
    line.take p.stop = line.take p.start ++ written p.name := by
  obtain ⟨-, -, hafter⟩ := placeholder?_eq_some_iff.1 h
  rw [Place.stop, List.take_add, hafter, List.take_left]

/-- No placeholder begins where a line is over. -/
theorem Place.IsIn.start_lt (h : p.IsIn line) : p.start < line.length := by
  have hlength := h.stands.length_le
  unfold written at hlength
  simp only [List.length_cons, List.length_drop] at hlength
  omega

/-! ## Finding them in turn -/

namespace Leftmost

/-- The places that are found lie ahead, and there are placeholders there. -/
theorem mem (h : Leftmost line pos places) (hp : p ∈ places) : pos ≤ p.start ∧ p.IsIn line := by
  induction h with
  | none => exact absurd hp List.not_mem_nil
  | @next pos first places hin hpos _ _ ih =>
    rcases List.mem_cons.1 hp with rfl | hp
    · exact ⟨hpos, hin⟩
    · have hstop := first.start_lt_stop
      exact ⟨by have := (ih hp).1; omega, (ih hp).2⟩

/-- Where a line is over nothing is found. -/
theorem eq_nil (h : Leftmost line pos places) (hpos : line.length ≤ pos) : places = [] := by
  refine List.eq_nil_iff_forall_not_mem.2 fun p hp => ?_
  have hstart := (h.mem hp).2.start_lt
  have hle := (h.mem hp).1
  omega

/-- A placeholder that begins right here is found first. -/
theorem eq_cons (h : Leftmost line pos places)
    (hhere : placeholder? (line.drop pos) = some (name, after)) :
    ∃ rest, places = ⟨pos, name⟩ :: rest ∧ Leftmost line (Place.stop ⟨pos, name⟩) rest := by
  have hin : Place.IsIn ⟨pos, name⟩ line := isIn_iff.2 ⟨after, hhere⟩
  cases h with
  | none hnone => exact absurd (Nat.le_refl pos) (hnone _ hin)
  | @next _ first rest hfirst hpos hleast hrest =>
    have hstart : first.start = pos := Nat.le_antisymm (hleast _ hin (Nat.le_refl pos)) hpos
    obtain ⟨after', hfirst⟩ := isIn_iff.1 hfirst
    rw [hstart, hhere] at hfirst
    obtain ⟨rfl, -⟩ := Prod.mk.inj (Option.some.inj hfirst)
    obtain ⟨start, name⟩ := first
    obtain rfl : start = pos := hstart
    exact ⟨rest, rfl, hrest⟩

end Leftmost

/-- Where no placeholder begins, the same ones are found from the next position on. -/
theorem leftmost_succ_iff (hhere : placeholder? (line.drop pos) = none) :
    Leftmost line pos places ↔ Leftmost line (pos + 1) places := by
  have hlater : ∀ p : Place, p.IsIn line → (pos ≤ p.start ↔ pos + 1 ≤ p.start) := by
    intro p hp
    have hne : p.start ≠ pos := by
      rintro rfl
      obtain ⟨after, hafter⟩ := isIn_iff.1 hp
      exact absurd (hhere.symm.trans hafter) (by simp)
    omega
  constructor
  · intro h
    cases h with
    | none hnone => exact .none fun p hp => mt (hlater p hp).2 (hnone p hp)
    | next hin hpos hfirst hrest =>
      exact .next hin ((hlater _ hin).1 hpos) (fun p hp hle => hfirst p hp ((hlater p hp).2 hle)) hrest
  · intro h
    cases h with
    | none hnone => exact .none fun p hp => mt (hlater p hp).1 (hnone p hp)
    | next hin hpos hfirst hrest =>
      exact .next hin ((hlater _ hin).2 hpos) (fun p hp hle => hfirst p hp ((hlater p hp).1 hle)) hrest

/-- In every line there are placeholders to be found, or none. The induction is on how much of the line
is left. -/
theorem exists_leftmost (line : List Char) (pos : Nat) : ∃ places, Leftmost line pos places := by
  by_cases hover : line.length ≤ pos
  · refine ⟨[], .none fun p hp hle => ?_⟩
    have hstart := hp.start_lt
    omega
  · cases hhere : placeholder? (line.drop pos) with
    | none =>
      obtain ⟨places, hplaces⟩ := exists_leftmost line (pos + 1)
      exact ⟨places, (leftmost_succ_iff hhere).2 hplaces⟩
    | some found =>
      obtain ⟨name, after⟩ := found
      have hlt := Place.start_lt_stop ⟨pos, name⟩
      obtain ⟨places, hplaces⟩ := exists_leftmost line (Place.stop ⟨pos, name⟩)
      have hin : Place.IsIn ⟨pos, name⟩ line := isIn_iff.2 ⟨after, hhere⟩
      exact ⟨_, .next hin (Nat.le_refl pos) (fun _ _ hle => hle) hplaces⟩
termination_by line.length - pos
decreasing_by
  · omega
  · simp only at hlt
    omega

/-- Past a `#` nothing is heeded. -/
theorem heeded_eq_nil (h : Leftmost line pos places) (hcomment : '#' ∈ line.take pos) :
    heeded line places = [] := by
  refine List.filter_eq_nil_iff.2 fun p hp => ?_
  have hin : '#' ∈ line.take p.start := (List.take_prefix_take_left (h.mem hp).1).subset hcomment
  simpa using hin

/-! ## Reading a line -/

def Piece.names : Piece → List (List Char)
  | .plain _ => []
  | .variable name => [name]

/-- The text that a piece comes to, whether or not its variable is defined. -/
def Piece.filled (value : List Char → List Char) : Piece → List Char
  | .plain c => [c]
  | .variable name => value name

/-- What a line is read as has the placeholders that are heeded, in their order, and between them
everything else. -/
structure Reads (line : List Char) (pos : Nat) (places : List Place) (ps : List Piece) : Prop where
  names : ps.flatMap Piece.names = places.map (·.name)
  filled : ∀ value, ps.flatMap (Piece.filled value) = filled value line pos places

theorem drop_succ_of_cons {c : Char} {rest : List Char} (h : line.drop pos = c :: rest) :
    line.drop (pos + 1) = rest := by
  rw [← List.drop_drop, h]
  rfl

theorem reads_plain (line : List Char) (pos : Nat) :
    Reads line pos [] ((line.drop pos).map .plain) where
  names := by
    rw [List.map_nil, List.flatMap_map]
    exact List.flatMap_eq_nil_iff.2 fun _ _ => rfl
  filled value := by
    rw [List.flatMap_map]
    exact List.flatMap_singleton' _

namespace Reads

variable {ps : List Piece} {c : Char} {rest : List Char}

/-- A character in front of all places is kept. -/
theorem cons_plain (h : Reads line (pos + 1) places ps) (hdrop : line.drop pos = c :: rest)
    (hlater : ∀ p ∈ places, pos < p.start) : Reads line pos places (.plain c :: ps) where
  names := h.names
  filled value := by
    rw [List.flatMap_cons, h.filled value]
    have htail := drop_succ_of_cons hdrop
    cases places with
    | nil =>
      show c :: line.drop (pos + 1) = line.drop pos
      rw [htail, hdrop]
    | cons p places =>
      have hstart := hlater p (List.mem_cons_self ..)
      obtain ⟨n, hn⟩ := Nat.exists_eq_add_of_lt hstart
      have hkept : (line.take p.start).drop pos = c :: (line.take p.start).drop (pos + 1) := by
        rw [List.drop_take, List.drop_take, hdrop, htail,
          show p.start - pos = n + 1 by omega, show p.start - (pos + 1) = n by omega, List.take_succ_cons]
      show c :: ((line.take p.start).drop (pos + 1) ++ value p.name ++ _) =
        (line.take p.start).drop pos ++ value p.name ++ _
      rw [hkept]
      rfl

/-- A placeholder gives way to its value. -/
theorem cons_variable (h : Reads line p.stop places ps) :
    Reads line p.start (p :: places) (.variable p.name :: ps) where
  names := congrArg (p.name :: ·) h.names
  filled value := by
    have hnone : (line.take p.start).drop p.start = [] :=
      List.drop_eq_nil_of_le (List.length_take_le ..)
    rw [List.flatMap_cons, h.filled value]
    show value p.name ++ _ = (line.take p.start).drop p.start ++ value p.name ++ _
    rw [hnone]
    rfl

end Reads

/-- **A line is read as it stands**: what is found in it from the left and heeded is what is read as a
variable. The induction is on the count, which bounds what is left of the line. -/
theorem reads_pieces {fuel : Nat} (hfuel : line.length ≤ pos + fuel) (hclear : '#' ∉ line.take pos)
    (h : Leftmost line pos places) :
    Reads line pos (heeded line places) (pieces fuel (line.drop pos)) := by
  induction fuel generalizing pos places with
  | zero =>
    rw [h.eq_nil hfuel]
    exact reads_plain line pos
  | succ fuel ih =>
    cases hdrop : line.drop pos with
    | nil =>
      have hover : line.length ≤ pos := List.drop_eq_nil_iff.1 hdrop
      have hplain := reads_plain line pos
      rw [h.eq_nil hover]
      rwa [hdrop] at hplain
    | cons c rest =>
      have hnext : line.take (pos + 1) = line.take pos ++ [c] := by
        rw [List.take_add, hdrop]
        rfl
      rw [pieces]
      split
      next hc =>
        -- the comment begins here, so nothing that is found later is heeded
        have hhere : placeholder? (line.drop pos) = none := by
          rw [hdrop, hc]
          rfl
        have hnone := heeded_eq_nil ((leftmost_succ_iff hhere).1 h) (by rw [hnext, hc]; simp)
        rw [hnone, ← hdrop]
        exact reads_plain line pos
      next hc =>
        split
        next name after hhere =>
          rw [← hdrop] at hhere
          obtain ⟨others, rfl, hothers⟩ := h.eq_cons hhere
          have hafter := drop_stop (p := ⟨pos, name⟩) hhere
          have htake := take_stop (p := ⟨pos, name⟩) hhere
          have hheeded : heeded line (⟨pos, name⟩ :: others) = ⟨pos, name⟩ :: heeded line others :=
            List.filter_cons_of_pos (by simpa using hclear)
          rw [hheeded, ← hafter]
          refine Reads.cons_variable (p := ⟨pos, name⟩) ?_
          split
          next hcomment =>
            have hpassed : '#' ∈ line.take (Place.stop ⟨pos, name⟩) := by
              rw [htake]
              simp [written, List.contains_iff_mem.1 hcomment]
            rw [heeded_eq_nil hothers hpassed]
            exact reads_plain line _
          next hcomment =>
            have hstop := Place.start_lt_stop ⟨pos, name⟩
            refine ih (by simp only at hstop; omega) ?_ hothers
            rw [htake]
            simpa [written, hclear] using hcomment
        next hhere =>
          rw [← hdrop] at hhere
          have hlater := (leftmost_succ_iff hhere).1 h
          rw [← drop_succ_of_cons hdrop]
          refine (ih (by omega) ?_ hlater).cons_plain hdrop fun p hp => ?_
          · rw [hnext]
            simpa [hclear] using Ne.symm hc
          · exact (hlater.mem (List.mem_filter.1 hp).1).1

end Clearance.Placeholder
