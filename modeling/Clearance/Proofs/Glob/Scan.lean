import Clearance.Proofs.Glob.Language

/-!
# The scan decides the language

`accepts` answers by one of four routes: two shortcuts, a test for a common beginning, and a scan
with two cursors that can only go back to the most recent `*`. This file proves that every route
answers the same question, `Describes`.

The scan is the one that needs an argument. `Cursor.InRange` is what every cursor of a scan
satisfies by its shape: both positions are in range, the recorded star is a `*` of the pattern, and
between that star and the pattern position lies a stretch without `*` exactly as long as what the
value position has covered since. `Cursor.Hopeful` is the question that a cursor still leaves
open: the rest of the pattern describes the rest of the value, or the recorded star does better
with a longer run. `step_hopeful` shows that a step does not change the answer; the case that
forgets an earlier star is `rest_of_longer_run`, where the stretch between the two stars already
had to take at least as many characters as the cursor has covered.

`Cursor.left` bounds the steps still to come by weighing the recorded star, its run and the value
position against each other; every step lowers it, and `effort` exceeds it at the start.
-/

namespace Clearance.Glob

variable {pattern value : Array Char}

/-- The pattern from a position on describes the value from a position on. -/
def Rest (pattern value : Array Char) (p v : Nat) : Prop :=
  Describes (pattern.toList.drop p) (value.toList.drop v)

theorem drop_of_getElem? {a : Array Char} {i : Nat} {x : Char} (h : a[i]? = some x) :
    a.toList.drop i = x :: a.toList.drop (i + 1) := by
  obtain ⟨hi, rfl⟩ := Array.getElem?_eq_some_iff.1 h
  rw [List.drop_eq_getElem_cons (by simpa using hi), Array.getElem_toList]

theorem drop_of_getElem?_eq_none {a : Array Char} {i : Nat} (h : a[i]? = none) :
    a.toList.drop i = [] := by
  rw [Array.getElem?_eq_none_iff] at h
  exact List.drop_eq_nil_of_le (by simpa using h)

theorem lt_size_of_getElem? {a : Array Char} {i : Nat} {x : Char} (h : a[i]? = some x) :
    i < a.size :=
  (Array.getElem?_eq_some_iff.1 h).1

/-- A `*` at a position takes a run of characters from there. -/
theorem rest_star_iff {p v : Nat} (hp : pattern[p]? = some '*') (hv : v ≤ value.size) :
    Rest pattern value p v ↔ ∃ k, v ≤ k ∧ k ≤ value.size ∧ Rest pattern value (p + 1) k := by
  unfold Rest
  rw [drop_of_getElem? hp, describes_star_iff_drop]
  simp only [List.length_drop, Array.length_toList, List.drop_drop]
  constructor
  · intro hrest
    obtain ⟨k, hk, h⟩ := hrest
    exact ⟨v + k, by omega, by omega, h⟩
  · intro hrest
    obtain ⟨k, hvk, hk, h⟩ := hrest
    exact ⟨k - v, by omega, by rwa [show v + (k - v) = k by omega]⟩

/-- Any other character at a position takes the character of the value. -/
theorem rest_char_iff {p v : Nat} {c x : Char} (hp : pattern[p]? = some c)
    (hv : value[v]? = some x) (hc : c ≠ '*') :
    Rest pattern value p v ↔ Takes c x ∧ Rest pattern value (p + 1) (v + 1) := by
  unfold Rest
  rw [drop_of_getElem? hp, drop_of_getElem? hv, describes_cons_cons hc]

/-- A pattern that has ended leaves no room for a character. -/
theorem not_rest_of_ended {p v : Nat} {x : Char} (hp : pattern[p]? = none)
    (hv : value[v]? = some x) : ¬ Rest pattern value p v := by
  unfold Rest
  rw [drop_of_getElem?_eq_none hp, drop_of_getElem? hv, describes_nil]
  exact List.cons_ne_nil _ _

/-- Where the text is at its end, the rest of the pattern describes it if it is all stars. -/
theorem onlyStarsFrom_iff {p v : Nat} (hv : value[v]? = none) :
    onlyStarsFrom pattern p = true ↔ Rest pattern value p v := by
  unfold Rest onlyStarsFrom
  rw [drop_of_getElem?_eq_none hv, describes_nil_right]
  simp

/-! ## The invariant of a scan -/

/-- The characters of the pattern from one position up to another. -/
def between (pattern : Array Char) (i j : Nat) : List Char :=
  (pattern.toList.drop i).take (j - i)

theorem between_self (i : Nat) : between pattern i i = [] := by
  simp [between]

/-- What lies between two places grows by the character at the second. -/
theorem between_succ {i j : Nat} {c : Char} (hij : i ≤ j) (hj : pattern[j]? = some c) :
    between pattern i (j + 1) = between pattern i j ++ [c] := by
  unfold between
  rw [show j + 1 - i = j - i + 1 by omega, List.take_add_one, List.getElem?_drop,
    Array.getElem?_toList, show i + (j - i) = j by omega, hj]
  rfl

theorem length_between {i j : Nat} (hj : j ≤ pattern.size) :
    (between pattern i j).length = j - i := by
  simp only [between, List.length_take, List.length_drop, Array.length_toList]
  omega

/-- A pattern from a place on is what lies before another place and what lies behind. -/
theorem between_append_drop {i j : Nat} (hij : i ≤ j) :
    between pattern i j ++ pattern.toList.drop j = pattern.toList.drop i := by
  have h := List.take_append_drop (j - i) (pattern.toList.drop i)
  rwa [List.drop_drop, show i + (j - i) = j by omega] at h

/-- What holds of a recorded star: it is a `*` of the pattern, and since then the pattern and the
value position have gone over equally many characters, none of them a `*` of the pattern. -/
structure StarInRange (pattern : Array Char) (c : Cursor) (sp sv : Nat) : Prop where
  isStar : pattern[sp]? = some '*'
  before : sp < c.p
  run : sv ≤ c.v
  aligned : c.p + sv = sp + 1 + c.v
  plain : '*' ∉ between pattern (sp + 1) c.p

/-- What holds of every cursor of a scan. -/
structure Cursor.InRange (pattern value : Array Char) (c : Cursor) : Prop where
  p_le : c.p ≤ pattern.size
  v_le : c.v ≤ value.size
  star : ∀ sp sv, c.star = some (sp, sv) → StarInRange pattern c sp sv

/-- The scan starts within the pattern and the text. -/
theorem Cursor.start_inRange : Cursor.start.InRange pattern value :=
  ⟨Nat.zero_le _, Nat.zero_le _, by simp [Cursor.start]⟩

/-- Both positions go on by one over a character that is no `*`. -/
theorem Cursor.InRange.advance {c : Cursor} (h : c.InRange pattern value) {x : Char}
    (hp : pattern[c.p]? = some x) (hx : x ≠ '*') (hv : c.v < value.size) :
    Cursor.InRange pattern value { c with p := c.p + 1, v := c.v + 1 } := by
  refine ⟨lt_size_of_getElem? hp, hv, fun sp sv hs => ?_⟩
  obtain ⟨hstar, hbefore, hrun, haligned, hplain⟩ := h.star sp sv hs
  refine ⟨hstar, Nat.lt_succ_of_lt hbefore, Nat.le_succ_of_le hrun, ?_, ?_⟩
  · show c.p + 1 + sv = sp + 1 + (c.v + 1)
    omega
  · show '*' ∉ between pattern (sp + 1) (c.p + 1)
    rw [between_succ hbefore hp, List.mem_append, List.mem_singleton]
    intro hmem
    rcases hmem with hm | rfl
    · exact hplain hm
    · exact hx rfl

/-- A `*` is recorded with an empty run. -/
theorem Cursor.InRange.record {c : Cursor} (h : c.InRange pattern value)
    (hp : pattern[c.p]? = some '*') :
    Cursor.InRange pattern value { c with p := c.p + 1, star := some (c.p, c.v) } := by
  refine ⟨lt_size_of_getElem? hp, h.v_le, fun sp sv hs => ?_⟩
  obtain ⟨rfl, rfl⟩ := Prod.mk.inj (Option.some.inj hs)
  exact ⟨hp, Nat.lt_succ_self _, Nat.le_refl _, rfl, by simp [between_self]⟩

/-- The recorded star takes one character more. -/
theorem Cursor.InRange.stretch {c c' : Cursor} (h : c.InRange pattern value)
    (hv : c.v < value.size) (hs : c.stretch = some c') : c'.InRange pattern value := by
  obtain ⟨⟨sp, sv⟩, hstar, rfl⟩ := Option.map_eq_some_iff.1 hs
  obtain ⟨hisStar, hbefore, hrun, -, -⟩ := h.star sp sv hstar
  refine ⟨lt_size_of_getElem? hisStar, Nat.lt_of_le_of_lt hrun hv, fun sp' sv' hs' => ?_⟩
  obtain ⟨rfl, rfl⟩ := Prod.mk.inj (Option.some.inj hs')
  exact ⟨hisStar, Nat.lt_succ_self _, Nat.le_refl _, rfl, by simp [between_self]⟩

/-- The three ways a step can go. -/
inductive Cursor.Moved (pattern : Array Char) (ch : Char) (c : Cursor) : Option Cursor → Prop
  /-- A character other than `*` takes the character of the value. -/
  | advance (x : Char) (hp : pattern[c.p]? = some x) (hx : x ≠ '*') (hch : Takes x ch) :
      Moved pattern ch c (some { c with p := c.p + 1, v := c.v + 1 })
  /-- A `*` is recorded. -/
  | record (hp : pattern[c.p]? = some '*') :
      Moved pattern ch c (some { c with p := c.p + 1, star := some (c.p, c.v) })
  /-- Nothing takes the character here, so the recorded star must. -/
  | stuck (hp : ∀ x, pattern[c.p]? = some x → x ≠ '*' ∧ ¬ Takes x ch) :
      Moved pattern ch c c.stretch

/-- Whatever a step does, it is one of the three moves. -/
theorem Cursor.step_moved (pattern : Array Char) (ch : Char) (c : Cursor) :
    c.Moved pattern ch (c.step pattern ch) := by
  unfold Cursor.step
  split
  next hp => exact .advance '?' hp (by decide) (.inl rfl)
  next hp => exact .record hp
  next x hquestion hstar hp =>
    split
    next hx => exact .advance x hp hstar (.inr hx)
    next hx =>
      refine .stuck fun y hy => ?_
      obtain rfl : x = y := Option.some.inj (hp.symm.trans hy)
      exact ⟨hstar, fun ht => ht.elim hquestion hx⟩
  next hp => exact .stuck fun x hx => absurd (hp.symm.trans hx) (by simp)

/-- A step keeps a cursor in range. -/
theorem Cursor.InRange.step {c c' : Cursor} (h : c.InRange pattern value) {ch : Char}
    (hv : c.v < value.size) (hs : c.step pattern ch = some c') : c'.InRange pattern value := by
  have hm := c.step_moved pattern ch
  rw [hs] at hm
  generalize ho : some c' = o at hm
  cases hm with
  | advance x hp hx _ => exact Option.some.inj ho ▸ h.advance hp hx hv
  | record hp => exact Option.some.inj ho ▸ h.record hp
  | stuck _ => exact h.stretch hv ho.symm

/-- A step takes the pattern position on by one, or it goes back to the recorded star: over `k`
characters of the pattern, and over one fewer of the value, since the star takes one more. -/
theorem Cursor.InRange.on_or_back {c c' : Cursor} (h : c.InRange pattern value) {ch : Char}
    (hs : c.step pattern ch = some c') :
    c'.p = c.p + 1 ∨ ∃ sp sv k, c.star = some (sp, sv) ∧ c' = ⟨sp + 1, sv + 1, some (sp, sv + 1)⟩ ∧
      c.p = c'.p + k ∧ c.v + 1 = c'.v + k := by
  have hm := c.step_moved pattern ch
  rw [hs] at hm
  generalize ho : some c' = o at hm
  cases hm with
  | advance x hp hx _ => exact .inl (congrArg Cursor.p (Option.some.inj ho))
  | record hp => exact .inl (congrArg Cursor.p (Option.some.inj ho))
  | stuck _ =>
    obtain ⟨⟨sp, sv⟩, hstar, rfl⟩ := Option.map_eq_some_iff.1 ho.symm
    obtain ⟨-, -, hrun, haligned, -⟩ := h.star sp sv hstar
    refine .inr ⟨sp, sv, c.v - sv, hstar, rfl, ?_, ?_⟩
    · show c.p = sp + 1 + (c.v - sv)
      omega
    · show c.v + 1 = sv + 1 + (c.v - sv)
      omega

/-! ## The question a cursor leaves open -/

/-- The rest of the pattern describes the rest of the value, or the recorded star with a longer run
leaves a rest that is described. -/
def Cursor.Hopeful (pattern value : Array Char) (c : Cursor) : Prop :=
  Rest pattern value c.p c.v ∨
    ∃ sp sv, c.star = some (sp, sv) ∧
      ∃ k, sv < k ∧ k ≤ value.size ∧ Rest pattern value (sp + 1) k

/-- What a longer run of the recorded star leaves to the pattern position begins no earlier than
the value position: the stretch in between takes as many characters as it has. -/
theorem rest_of_longer_run {c : Cursor} (h : c.InRange pattern value) {sp sv k : Nat}
    (hs : c.star = some (sp, sv)) (hk : sv < k) (hle : k ≤ value.size)
    (hr : Rest pattern value (sp + 1) k) :
    ∃ j, c.v < j ∧ j ≤ value.size ∧ Rest pattern value c.p j := by
  obtain ⟨-, hbefore, -, haligned, hplain⟩ := h.star sp sv hs
  unfold Rest at hr
  rw [← between_append_drop (show sp + 1 ≤ c.p from hbefore)] at hr
  obtain ⟨hlen, hrest⟩ := hr.drop_stretch hplain
  rw [length_between h.p_le] at hlen hrest
  simp only [List.length_drop, Array.length_toList] at hlen
  rw [List.drop_drop] at hrest
  exact ⟨k + (c.p - (sp + 1)), by omega, by omega, hrest⟩

/-- A step does not change the answer, and a step that cannot be taken means no. -/
theorem step_hopeful {c : Cursor} (h : c.InRange pattern value) {ch : Char}
    (hv : value[c.v]? = some ch) :
    c.Hopeful pattern value ↔ ∃ c', c.step pattern ch = some c' ∧ c'.Hopeful pattern value := by
  have hm := c.step_moved pattern ch
  generalize c.step pattern ch = o at hm
  cases hm with
  | advance x hp hx hch =>
    simp only [Option.some.injEq, exists_eq_left', Cursor.Hopeful]
    rw [rest_char_iff hp hv hx]
    simp [hch]
  | record hp =>
    simp only [Option.some.injEq, exists_eq_left', Cursor.Hopeful, Prod.mk.injEq]
    rw [rest_star_iff hp h.v_le]
    constructor
    · intro hhope
      rcases hhope with ⟨k, hvk, hk, hr⟩ | ⟨sp, sv, hs, k, hsv, hk, hr⟩
      · rcases Nat.eq_or_lt_of_le hvk with rfl | hlt
        · exact .inl hr
        · exact .inr ⟨_, _, ⟨rfl, rfl⟩, k, hlt, hk, hr⟩
      · -- the earlier star is forgotten: the new one does what it could still have done
        obtain ⟨j, hj, hjle, hrj⟩ := rest_of_longer_run h hs hsv hk hr
        obtain ⟨i, hi, hile, hri⟩ := (rest_star_iff hp hjle).1 hrj
        exact .inr ⟨_, _, ⟨rfl, rfl⟩, i, Nat.lt_of_lt_of_le hj hi, hile, hri⟩
    · intro hhope
      rcases hhope with hr | ⟨sp, sv, ⟨rfl, rfl⟩, k, hsv, hk, hr⟩
      · exact .inl ⟨c.v, Nat.le_refl _, h.v_le, hr⟩
      · exact .inl ⟨k, Nat.le_of_lt hsv, hk, hr⟩
  | stuck hp =>
    have hrest : ¬ Rest pattern value c.p c.v := by
      cases hx : pattern[c.p]? with
      | none => exact not_rest_of_ended hx hv
      | some x => exact fun hr => (hp x hx).2 ((rest_char_iff hx hv (hp x hx).1).1 hr).1
    simp only [Cursor.Hopeful, hrest, false_or, Cursor.stretch, Option.map_eq_some_iff]
    constructor
    · intro hhope
      obtain ⟨sp, sv, hs, k, hsv, hk, hr⟩ := hhope
      refine ⟨_, ⟨(sp, sv), hs, rfl⟩, ?_⟩
      rcases Nat.eq_or_lt_of_le (Nat.succ_le_of_lt hsv) with rfl | hlt
      · exact .inl hr
      · exact .inr ⟨sp, sv + 1, rfl, k, hlt, hk, hr⟩
    · intro hhope
      obtain ⟨_, ⟨⟨sp, sv⟩, hs, rfl⟩, hr | ⟨sp', sv', hs', k, hsv, hk, hr⟩⟩ := hhope
      · have hle := (h.star sp sv hs).run
        have hlt := lt_size_of_getElem? hv
        exact ⟨sp, sv, hs, sv + 1, Nat.lt_succ_self _, by omega, hr⟩
      · obtain ⟨rfl, rfl⟩ := Prod.mk.inj (Option.some.inj hs')
        exact ⟨sp, sv, hs, k, Nat.lt_of_succ_lt hsv, hk, hr⟩

/-- At the end of the value no longer run can help. -/
theorem hopeful_at_end {c : Cursor} (h : c.InRange pattern value) (hv : value[c.v]? = none) :
    c.Hopeful pattern value ↔ Rest pattern value c.p c.v := by
  constructor
  · intro hhope
    rcases hhope with hr | ⟨sp, sv, hs, k, hsv, hk, hr⟩
    · exact hr
    · obtain ⟨j, hj, hjle, -⟩ := rest_of_longer_run h hs hsv hk hr
      rw [Array.getElem?_eq_none_iff] at hv
      omega
  · exact .inl

/-! ## How long a scan takes -/

/-- Three counts in one number, the first weighing most and the last least, as long as the last two
stay within the length of the value. -/
def weigh (n a b d : Nat) : Nat := a * ((n + 1) * (n + 2)) + b * (n + 2) + d

/-- What falls in the first place weighs less, whatever the others do within their bounds. -/
theorem weigh_lt_of_first {n a b d a' b' d' : Nat} (ha : a' < a) (hb : b' ≤ n) (hd : d' ≤ n) :
    weigh n a' b' d' < weigh n a b d := by
  unfold weigh
  have h₁ : (a' + 1) * ((n + 1) * (n + 2)) ≤ a * ((n + 1) * (n + 2)) := Nat.mul_le_mul_right _ ha
  have h₂ : b' * (n + 2) ≤ n * (n + 2) := Nat.mul_le_mul_right _ hb
  rw [Nat.succ_mul] at h₁
  have h₃ : (n + 1) * (n + 2) = n * (n + 2) + (n + 2) := Nat.succ_mul ..
  omega

/-- What stays in the first place and falls in the second weighs less. -/
theorem weigh_lt_of_second {n a b d b' d' : Nat} (hb : b' < b) (hd : d' ≤ n) :
    weigh n a b' d' < weigh n a b d := by
  unfold weigh
  have h : (b' + 1) * (n + 2) ≤ b * (n + 2) := Nat.mul_le_mul_right _ hb
  rw [Nat.succ_mul] at h
  omega

/-- What falls in the last place alone weighs less. -/
theorem weigh_lt_of_third {n a b d d' : Nat} (hd : d' < d) : weigh n a b d' < weigh n a b d :=
  Nat.add_lt_add_left hd _

/-- A bound on the steps that a scan still takes from a cursor: how far the star may move on, then
how far its run may grow, then how far the value position may. -/
def Cursor.left (pattern value : Array Char) (c : Cursor) : Nat :=
  let (sp, sv) := c.star.elim (0, 0) fun (p, v) => (p + 1, v)
  weigh value.size (pattern.size - sp) (value.size - sv) (value.size - c.v)

/-- Every step lowers the bound. -/
theorem left_step {c c' : Cursor} (h : c.InRange pattern value) {ch : Char}
    (hv : c.v < value.size) (hs : c.step pattern ch = some c') :
    c'.left pattern value < c.left pattern value := by
  have hm := c.step_moved pattern ch
  rw [hs] at hm
  generalize ho : some c' = o at hm
  cases hm with
  | advance x hp hx _ =>
    obtain rfl := Option.some.inj ho
    refine weigh_lt_of_third ?_
    show value.size - (c.v + 1) < value.size - c.v
    omega
  | record hp =>
    obtain rfl := Option.some.inj ho
    have hlt := lt_size_of_getElem? hp
    refine weigh_lt_of_first ?_ (Nat.sub_le ..) (Nat.sub_le ..)
    cases hstar : c.star with
    | none =>
      show pattern.size - (c.p + 1) < pattern.size - 0
      omega
    | some s =>
      have hbefore := (h.star s.1 s.2 hstar).before
      show pattern.size - (c.p + 1) < pattern.size - (s.1 + 1)
      omega
  | stuck _ =>
    obtain ⟨⟨sp, sv⟩, hstar, rfl⟩ := Option.map_eq_some_iff.1 ho.symm
    have hrun := (h.star sp sv hstar).run
    simp only [Cursor.left, hstar, Option.elim]
    exact weigh_lt_of_second (by omega) (Nat.sub_le ..)

/-- The scan begins with less to do than the effort allows. -/
theorem left_start_lt : Cursor.start.left pattern value < effort pattern value := by
  have h : weigh value.size pattern.size value.size value.size
      < weigh value.size (pattern.size + 1) 0 0 :=
    weigh_lt_of_first (Nat.lt_succ_self _) (Nat.le_refl _) (Nat.le_refl _)
  have heffort : effort pattern value = weigh value.size (pattern.size + 1) 0 0 + 1 := by
    simp [effort, weigh, Nat.mul_assoc]
  rw [heffort]
  exact Nat.lt_succ_of_lt h

/-! ## The answer -/

/-- A scan that may take as many steps as are left answers the question of its cursor. -/
theorem scan_iff : ∀ (fuel : Nat) (c : Cursor), c.InRange pattern value →
    c.left pattern value < fuel →
      (scan pattern value fuel c = true ↔ c.Hopeful pattern value)
  | 0, _, _, hf => absurd hf (Nat.not_lt_zero _)
  | fuel + 1, c, h, hf => by
    unfold scan
    split
    next hv => rw [hopeful_at_end h hv, onlyStarsFrom_iff hv]
    next ch hv =>
      have hlt := lt_size_of_getElem? hv
      rw [step_hopeful h hv]
      split
      next hs => simp [hs]
      next c' hs =>
        have hleft := left_step h hlt hs
        rw [scan_iff fuel c' (h.step hlt hs) (by omega), hs]
        simp

/-- More time than the bound does not change the answer. -/
theorem scan_of_effort_le {time : Nat} (htime : effort pattern value ≤ time) :
    scan pattern value time .start = scan pattern value (effort pattern value) .start := by
  have hleft : Cursor.start.left pattern value < time := Nat.lt_of_lt_of_le left_start_lt htime
  rw [Bool.eq_iff_iff, scan_iff time .start Cursor.start_inRange hleft,
    scan_iff _ .start Cursor.start_inRange left_start_lt]

/-- The scan alone decides the language of every pattern, whichever route `accepts` takes. -/
theorem scan_start_iff (pattern value : Array Char) :
    scan pattern value (effort pattern value) .start = true ↔
      Describes pattern.toList value.toList := by
  rw [scan_iff _ _ Cursor.start_inRange left_start_lt]
  simp [Cursor.Hopeful, Cursor.start, Rest]

/-- A pattern has a stem if it is that, without metacharacters, and a star. -/
theorem stem?_eq_some {pattern stem : List Char} (h : stem? pattern = some stem) :
    pattern = stem ++ ['*'] ∧ stem.any isMeta = false := by
  unfold stem? at h
  split at h
  next hc =>
    obtain rfl := Option.some.inj h
    simp only [Bool.and_eq_true, decide_eq_true_eq, Bool.not_eq_true'] at hc
    obtain ⟨ys, rfl⟩ := List.getLast?_eq_some_iff.1 hc.1
    exact ⟨by simp, hc.2⟩
  next => exact absurd h (by simp)

/-- Every route of `accepts` answers whether the pattern describes the value. -/
theorem accepts_iff_describes (pattern value : String) :
    accepts pattern value = true ↔ Describes pattern.toList value.toList := by
  unfold accepts
  split
  next hp =>
    subst hp
    simpa using describes_star value.toList
  next =>
    split
    next hp =>
      rw [Bool.not_eq_true', isGlob] at hp
      rw [describes_of_plain hp, decide_eq_true_eq, String.toList_inj]
    next =>
      split
      next stem hs =>
        obtain ⟨hp, hw⟩ := stem?_eq_some hs
        rw [hp, describes_stem hw, List.isPrefixOf_iff_prefix]
      next =>
        rw [scan_start_iff]

/-- Every pattern accepts itself read as plain text. -/
theorem accepts_self (p : String) : accepts p p = true :=
  (accepts_iff_describes p p).2 (describes_self p.toList)

/-- A pattern is no glob if it has neither metacharacter. -/
theorem not_isGlob_iff {pattern : String} :
    isGlob pattern = false ↔ '*' ∉ pattern.toList ∧ '?' ∉ pattern.toList := by
  unfold isGlob
  rw [List.any_eq_false]
  constructor
  · intro h
    exact ⟨fun hstar => h _ hstar rfl, fun hquestion => h _ hquestion rfl⟩
  · rintro ⟨hstar, hquestion⟩ c hc
    have hne : c ≠ '*' ∧ c ≠ '?' := ⟨fun he => hstar (he ▸ hc), fun he => hquestion (he ▸ hc)⟩
    simp [isMeta, hne.1, hne.2]

/-- A pattern without metacharacters accepts nothing but itself. -/
theorem eq_of_accepts_of_not_isGlob {p v : String} (hp : isGlob p = false)
    (h : accepts p v = true) : p = v := by
  rw [accepts_iff_describes, describes_of_plain hp] at h
  exact String.toList_inj.1 h

/-- **Matching decides exactly the glob language**: a pattern accepts a value if and only if the
value falls into one piece for each character of the pattern, any run for a `*`, one character for
a `?`, the character itself for any other. The shortcuts never answer otherwise than the scan,
which remembers only the most recent `*`, would have. -/
theorem accepts_decides_language (pattern value : String) :
    (accepts pattern value = true ↔
      ∃ pieces, List.Forall₂ StandsFor pattern.toList pieces ∧ pieces.flatten = value.toList) ∧
    accepts pattern value =
      scan pattern.toList.toArray value.toList.toArray
        (effort pattern.toList.toArray value.toList.toArray) .start := by
  refine ⟨accepts_iff_describes pattern value, ?_⟩
  rw [Bool.eq_iff_iff, accepts_iff_describes, scan_start_iff]

end Clearance.Glob
