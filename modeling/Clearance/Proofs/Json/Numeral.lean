import Clearance.Proofs.Json.Text

/-!
# Where a numeral ends

Nothing is said here about the value that a numeral reads as. What counts is that the reader of
numerals never passes over anything but characters of numerals (`passes_readNumeral`), and that
numbers are written in such characters only. So where a number has been written before a character
of another kind, reading it either stops right there or leaves a character of a numeral over
(`Passes.eq_or_stray`), and after a value no reader goes on from one of those.
-/

namespace Clearance.Json

variable {c : Char} {cs rest rest' : List Char}

/-- The characters that numerals are made of. -/
def isNumeralChar (c : Char) : Bool :=
  c.isDigit || c == '-' || c == '+' || c == '.' || c == 'e' || c == 'E'

/-- Whether a reader that left `rest` has passed over nothing but characters of numerals. -/
def Passes (cs rest : List Char) : Prop := ∃ w, cs = w ++ rest ∧ ∀ c ∈ w, isNumeralChar c = true

namespace Passes

theorem refl (cs : List Char) : Passes cs cs := ⟨[], rfl, by simp⟩

theorem cons (hc : isNumeralChar c = true) (h : Passes cs rest) : Passes (c :: cs) rest := by
  obtain ⟨w, rfl, hw⟩ := h
  refine ⟨c :: w, rfl, fun x hx => ?_⟩
  rcases List.mem_cons.1 hx with rfl | hx
  · exact hc
  · exact hw x hx

/-- What passes from one place to a second and on to a third has passed to the third. -/
theorem trans (h : Passes cs rest) (h' : Passes rest rest') : Passes cs rest' := by
  obtain ⟨w, rfl, hw⟩ := h
  obtain ⟨w', rfl, hw'⟩ := h'
  refine ⟨w ++ w', (List.append_assoc ..).symm, fun x hx => ?_⟩
  exact (List.mem_append.1 hx).elim (hw x) (hw' x)

end Passes

theorem isNumeralChar_of_digitValue? {d : Nat} (h : digitValue? c = some d) :
    isNumeralChar c = true := by
  unfold digitValue? at h
  split at h
  next hrange =>
    have hdigit : c.isDigit = true := by
      simpa [Char.isDigit, Char.le_def] using hrange
    unfold isNumeralChar
    rw [hdigit]
    rfl
  next => exact absurd h (by simp)

/-- Splitting digits off passes over digits only. -/
theorem passes_splitDigits (cs : List Char) : Passes cs (splitDigits cs).2 := by
  induction cs with
  | nil => exact .refl []
  | cons c cs ih =>
    unfold splitDigits
    split
    next d hd => exact ih.cons (isNumeralChar_of_digitValue? hd)
    next => exact .refl _

/-- Reading a fraction passes over characters of the numeral only. -/
theorem passes_readFraction {f : Option (List Nat)} (h : readFraction cs = some (f, rest)) :
    Passes cs rest := by
  unfold readFraction at h
  split at h
  next cs' =>
    have hdigits := passes_splitDigits cs'
    split at h
    next => exact absurd h (by simp)
    next ds left hsplit =>
      obtain ⟨-, rfl⟩ := Prod.mk.inj (Option.some.inj h)
      rw [hsplit] at hdigits
      exact hdigits.cons (by decide)
  next =>
    obtain ⟨-, rfl⟩ := Prod.mk.inj (Option.some.inj h)
    exact .refl _

/-- Reading a sign passes over the sign only. -/
theorem passes_readSign (cs : List Char) : Passes cs (readSign cs).2 := by
  unfold readSign
  split
  next => exact (Passes.refl _).cons (by decide)
  next => exact (Passes.refl _).cons (by decide)
  next => exact .refl _

/-- Reading an exponent passes over characters of the numeral only. -/
theorem passes_readExponent {e : Option Int} (h : readExponent cs = some (e, rest)) :
    Passes cs rest := by
  unfold readExponent at h
  split at h
  next c cs' =>
    split at h
    next hmark =>
      have hc : isNumeralChar c = true := by
        rcases hmark with rfl | rfl <;> decide
      have hsign := passes_readSign cs'
      have hdigits := passes_splitDigits (readSign cs').2
      dsimp only at h
      split at h
      next => exact absurd h (by simp)
      next ds left hsplit =>
        obtain ⟨-, rfl⟩ := Prod.mk.inj (Option.some.inj h)
        rw [hsplit] at hdigits
        exact (hsign.trans hdigits).cons hc
    next =>
      obtain ⟨-, rfl⟩ := Prod.mk.inj (Option.some.inj h)
      exact .refl _
  next =>
    obtain ⟨-, rfl⟩ := Prod.mk.inj (Option.some.inj h)
    exact .refl _

/-- A numeral takes only characters of numerals. -/
theorem passes_readNumeral {n : Numeral} (h : readNumeral cs = some (n, rest)) : Passes cs rest := by
  unfold readNumeral at h
  split at h
  next negative unsigned hsigned =>
  have hsign : Passes cs unsigned := by
    split at hsigned
    next =>
      rw [← (Prod.mk.inj hsigned).2]
      exact (Passes.refl _).cons (by decide)
    next =>
      rw [← (Prod.mk.inj hsigned).2]
      exact .refl _
  have hwhole := hsign.trans (passes_splitDigits unsigned)
  simp only [Option.bind_eq_bind] at h
  split at h
  next => exact absurd h (by simp)
  next => exact absurd h (by simp)
  next =>
    obtain ⟨-, -, h⟩ := Option.bind_eq_some_iff.1 h
    obtain ⟨⟨f, afterFraction⟩, hfraction, h⟩ := Option.bind_eq_some_iff.1 h
    obtain ⟨⟨e, afterExponent⟩, hexponent, h⟩ := Option.bind_eq_some_iff.1 h
    obtain ⟨-, rfl⟩ := Prod.mk.inj (Option.some.inj h)
    exact (hwhole.trans (passes_readFraction hfraction)).trans (passes_readExponent hexponent)

/-- Whether no numeral can go on here. -/
def Bounded (rest : List Char) : Prop := ∀ c ∈ rest.head?, isNumeralChar c = false

/-- Whether a character of a numeral has been left over. -/
def Stray (rest : List Char) : Prop := ∃ c ∈ rest.head?, isNumeralChar c = true

/-- A reader of numerals either stops where they end or leaves some of their characters over. -/
theorem Passes.eq_or_stray {w rest rest' : List Char} (h : Passes (w ++ rest) rest')
    (hw : ∀ c ∈ w, isNumeralChar c = true) (hrest : Bounded rest) : rest' = rest ∨ Stray rest' := by
  obtain ⟨w', heq, hw'⟩ := h
  rcases List.append_eq_append_iff.1 heq with ⟨v, rfl, hv⟩ | ⟨v, rfl, rfl⟩
  · -- more was read than the numeral has
    cases v with
    | nil => exact .inl hv.symm
    | cons c v =>
      have hc : isNumeralChar c = true := hw' c (by simp)
      have hc' : isNumeralChar c = false := hrest c (by rw [hv]; rfl)
      rw [hc] at hc'
      exact absurd hc' (by decide)
  · cases v with
    | nil => exact .inl rfl
    | cons c v => exact .inr ⟨c, rfl, hw c (by simp)⟩

theorem isNumeralChar_of_isDigit (h : c.isDigit = true) : isNumeralChar c = true := by
  unfold isNumeralChar
  rw [h]
  rfl

/-- Whether a text might be a numeral, for all its characters tell. -/
def Numeric (w : List Char) : Prop := w ≠ [] ∧ ∀ c ∈ w, isNumeralChar c = true

namespace Numeric

variable {w w' : List Char}

theorem cons (hc : isNumeralChar c = true) (h : ∀ x ∈ w, isNumeralChar x = true) :
    Numeric (c :: w) :=
  ⟨List.cons_ne_nil c w, List.forall_mem_cons.2 ⟨hc, h⟩⟩

theorem append (h : Numeric w) (h' : ∀ x ∈ w', isNumeralChar x = true) : Numeric (w ++ w') :=
  ⟨List.append_ne_nil_of_left_ne_nil h.1 w', List.forall_mem_append.2 ⟨h.2, h'⟩⟩

theorem append_left (h : ∀ x ∈ w, isNumeralChar x = true) (h' : Numeric w') : Numeric (w ++ w') :=
  ⟨List.append_ne_nil_of_right_ne_nil w h'.1, List.forall_mem_append.2 ⟨h, h'.2⟩⟩

end Numeric

/-- The digits of a number make a numeral. -/
theorem numeric_toDigits (n : Nat) : Numeric (Nat.toDigits 10 n) :=
  ⟨Nat.toDigits_ne_nil, fun _ hc =>
    isNumeralChar_of_isDigit (Nat.isDigit_of_mem_toDigits (by decide) (by decide) hc)⟩

/-- A whole number is written as a numeral. -/
theorem numeric_writeInt (n : Int) : Numeric (writeInt n) := by
  cases n with
  | ofNat n => exact numeric_toDigits n
  | negSucc n => exact .cons (by decide) (numeric_toDigits (n + 1)).2

end Clearance.Json

namespace Clearance.Binary64

open Json

theorem numeric_toString (n : Int) : Numeric (toString n).toList := by
  cases n with
  | ofNat n =>
    have h : (toString (Int.ofNat n)).toList = Nat.toDigits 10 n := by
      show (Nat.repr n).toList = _
      exact String.toList_ofList
    rw [h]
    exact numeric_toDigits n
  | negSucc n =>
    have h : (toString (Int.negSucc n)).toList = '-' :: Nat.toDigits 10 (n + 1) := by
      show ("-" ++ Nat.repr (n + 1)).toList = _
      rw [String.toList_append]
      exact congrArg ('-' :: ·) String.toList_ofList
    rw [h]
    exact .cons (by decide) (numeric_toDigits (n + 1)).2

/-- Wherever the point stands, only characters of numerals are around it. -/
theorem numeric_layout {digits : List Char} (h : Numeric digits) (e : Int) :
    Numeric (layout digits e) := by
  obtain ⟨hne, hdigits⟩ := h
  have hzeros : ∀ n, ∀ c ∈ List.replicate n '0', isNumeralChar c = true := by
    intro n c hc
    rw [List.eq_of_mem_replicate hc]
    decide
  have htake : ∀ n, ∀ c ∈ digits.take n, isNumeralChar c = true :=
    fun n c hc => hdigits c (List.mem_of_mem_take hc)
  have hdrop : ∀ n, ∀ c ∈ digits.drop n, isNumeralChar c = true :=
    fun n c hc => hdigits c (List.mem_of_mem_drop hc)
  unfold layout
  dsimp only
  split
  next =>
    have hpoint : ∀ c ∈ ['.', '0'], isNumeralChar c = true :=
      (Numeric.cons (by decide) (hzeros 1)).2
    exact (Numeric.append ⟨hne, hdigits⟩ (hzeros _)).append hpoint
  next =>
    split
    next => exact .append_left (htake _) (.cons (by decide) (hdrop _))
    next =>
      split
      next =>
        have hfront := (Numeric.cons (c := '.') (by decide) (hzeros (-(digits.length + e)).toNat)).2
        exact .append_left (Numeric.cons (by decide) hfront).2 ⟨hne, hdigits⟩
      next =>
        refine .append_left (List.forall_mem_append.2 ⟨htake 1, ?_⟩)
          (.cons (by decide) (numeric_toString _).2)
        split
        next => simp
        next =>
          refine (Numeric.cons (by decide) fun c hc => ?_).2
          exact hdigits c (List.mem_of_mem_tail hc)

/-- A fraction is written as a numeral. -/
theorem numeric_text (x : Binary64) : Numeric x.text.toList := by
  unfold text
  obtain ⟨m, q, narrow⟩ := x.magnitude
  obtain ⟨magnitude, hmagnitude⟩ : ∃ w, w = if m = 0 then ['0', '.', '0'] else
    layout (Nat.toDigits 10 (stripZeros 800 (shortest m q narrow).1 (shortest m q narrow).2).1)
      (stripZeros 800 (shortest m q narrow).1 (shortest m q narrow).2).2 := ⟨_, rfl⟩
  have hnumeric : Numeric magnitude := by
    rw [hmagnitude]
    split
    next =>
      have hzero : Numeric ['0'] := .cons (by decide) (List.forall_mem_nil _)
      exact .cons (by decide) (Numeric.cons (by decide) hzero.2).2
    next => exact numeric_layout (numeric_toDigits _) _
  show Numeric (String.ofList (if x.negative then '-' :: _ else _)).toList
  rw [String.toList_ofList]
  split
  next => exact .cons (by decide) (hmagnitude ▸ hnumeric.2)
  next => exact (hmagnitude ▸ hnumeric)

end Clearance.Binary64
