import Clearance.Proofs.Source.Spelling

/-!
# Legal module names

What a module may be called is said here apart from how a name is made: `IsPlain` is a word that means
nothing to the language, and `IsModuleName` allows a keyword besides, if it is marked as raw and not one
of those that stand for a place in a path.

The steps that make a name are taken in turn. The wish or the fallback has only characters of names
(`isName_wanted`), a leading digit is guarded (`isIdentifier_guardDigit`), and the tables of keywords are
complete (`isKeyword_iff`), so guarding keywords leaves no way to go wrong but one: none of the steps
touches an underscore that stands alone. A wish never ends up as one. A fallback can, since the settings
let it pass (`isNamespaceOk`), and this is the only case in which the name is not legal
(`moduleName_legal_iff`).
-/

namespace Clearance.Table

/-- The keywords in use. -/
def strictKeywords : List String :=
  ["as", "async", "await", "break", "const", "continue", "crate", "dyn", "else", "enum", "extern",
   "false", "fn", "for", "if", "impl", "in", "let", "loop", "match", "mod", "move", "mut", "pub",
   "ref", "return", "self", "Self", "static", "struct", "super", "trait", "true", "type", "unsafe",
   "use", "where", "while"]

/-- The keywords set aside for later. -/
def reservedKeywords : List String :=
  ["abstract", "become", "box", "do", "final", "gen", "macro", "override", "priv", "try", "typeof",
   "unsized", "virtual", "yield"]

/-- The keywords for places in a path, which no mark makes a name. -/
def placeKeywords : List String := ["Self", "crate", "self", "super"]

/-- Whether the language keeps a word for itself. -/
def IsKeyword (word : String) : Prop :=
  word ∈ strictKeywords ∨ word ∈ reservedKeywords ∨ word ∈ placeKeywords

instance (word : String) : Decidable (IsKeyword word) := inferInstanceAs (Decidable (_ ∨ _ ∨ _))

/-- Letters, digits and underscores, the first no digit. -/
structure IsIdentifier (name : String) : Prop where
  nonempty : name ≠ ""
  chars : ∀ c ∈ name.toList, c.isAlpha = true ∨ c.isDigit = true ∨ c = '_'
  start : ∀ c ∈ name.toList.head?, c.isDigit = false

/-- A word that means nothing to the language. -/
structure IsPlain (name : String) : Prop extends IsIdentifier name where
  notUnderscore : name ≠ "_"
  notKeyword : ¬ IsKeyword name

/-- What a module may be called. -/
def IsModuleName (name : String) : Prop :=
  IsPlain name ∨ ∃ word, name = "r#" ++ word ∧ IsKeyword word ∧ word ∉ placeKeywords

/-- Whether a wish leaves nothing to make a name of: no character, or a single one that is neither a
letter nor a digit. -/
def LeavesNothing (wanted : String) : Prop :=
  wanted.toList.length ≤ 1 ∧ ∀ c ∈ wanted.toList, c.isAlphanum = false

variable {name wanted fallback : String}

theorem isNameChar_iff {c : Char} :
    isNameChar c = true ↔ c.isAlpha = true ∨ c.isDigit = true ∨ c = '_' := by
  simp [isNameChar, Char.isAlphanum, or_assoc]

/-- An identifier is a name that is not empty, has only characters of names, and begins with no
digit. -/
theorem isIdentifier_iff :
    IsIdentifier name ↔ name ≠ "" ∧ name.toList.all isNameChar = true ∧
      name.toList.head?.any Char.isDigit = false := by
  simp only [List.all_eq_true, isNameChar_iff, Option.any_eq_false]
  constructor
  · exact fun h => ⟨h.nonempty, h.chars, h.start⟩
  · rintro ⟨hnonempty, hchars, hstart⟩
    exact ⟨hnonempty, hchars, hstart⟩

instance (name : String) : Decidable (IsIdentifier name) := decidable_of_iff' _ isIdentifier_iff

/-- A plain identifier is one that is neither an underscore nor a keyword. -/
theorem isPlain_iff : IsPlain name ↔ IsIdentifier name ∧ name ≠ "_" ∧ ¬ IsKeyword name :=
  ⟨fun h => ⟨h.toIsIdentifier, h.notUnderscore, h.notKeyword⟩, fun h => ⟨h.1, h.2.1, h.2.2⟩⟩

instance (name : String) : Decidable (IsPlain name) := decidable_of_iff' _ isPlain_iff

/-! ## Keywords -/

/-- What is not marked cannot be. -/
theorem mem_pathKeywords_iff {word : String} : word ∈ pathKeywords ↔ word ∈ placeKeywords := by
  have hpath : ∀ k ∈ pathKeywords, k ∈ placeKeywords := by decide
  have hplace : ∀ k ∈ placeKeywords, k ∈ pathKeywords := by decide
  exact ⟨hpath word, hplace word⟩

/-- What is marked as raw is every other keyword, and nothing else. -/
theorem mem_rawKeywords_iff {word : String} :
    word ∈ rawKeywords ↔ IsKeyword word ∧ word ∉ placeKeywords := by
  have hraw : ∀ k ∈ rawKeywords, IsKeyword k ∧ k ∉ placeKeywords := by decide
  have hrest : ∀ k ∈ strictKeywords ++ reservedKeywords, k ∈ placeKeywords ∨ k ∈ rawKeywords := by
    decide
  refine ⟨hraw word, fun h => ?_⟩
  obtain ⟨hkeyword, hplace⟩ := h
  rcases hkeyword with hmem | hmem | hmem
  · exact (hrest word (List.mem_append_left _ hmem)).resolve_left hplace
  · exact (hrest word (List.mem_append_right _ hmem)).resolve_left hplace
  · exact absurd hmem hplace

/-- Between them, the two tables have every keyword. -/
theorem isKeyword_iff {word : String} :
    IsKeyword word ↔ word ∈ pathKeywords ∨ word ∈ rawKeywords := by
  rw [mem_pathKeywords_iff, mem_rawKeywords_iff]
  by_cases hplace : word ∈ placeKeywords
  · exact iff_of_true (.inr (.inr hplace)) (.inl hplace)
  · simp only [hplace, false_or, not_false_iff, and_true]

/-- An underscore makes a plain word of what cannot be marked. -/
theorem isPlain_of_mem_pathKeywords (h : name ∈ pathKeywords) : IsPlain (name ++ "_") := by
  have hall : ∀ k ∈ pathKeywords, IsPlain (k ++ "_") := by decide +kernel
  exact hall name h

/-- The mark of a raw keyword is in no identifier. -/
theorem IsIdentifier.ne_raw (h : IsIdentifier name) (word : String) : name ≠ "r#" ++ word := by
  rintro rfl
  have hmark : '#' ∈ ("r#" ++ word).toList := by simp
  exact absurd (h.chars '#' hmark) (by decide)

/-- An identifier is a legal name if it is plain. -/
theorem IsIdentifier.isModuleName_iff (h : IsIdentifier name) : IsModuleName name ↔ IsPlain name := by
  refine ⟨fun hname => hname.resolve_right ?_, .inl⟩
  rintro ⟨word, hraw, -⟩
  exact h.ne_raw word hraw

/-- Guarding keywords makes every identifier legal but the one that is no name at all. -/
theorem isModuleName_guardKeyword (h : IsIdentifier name) :
    IsModuleName (guardKeyword name) ↔ name ≠ "_" := by
  have hunderscore : ∀ k ∈ pathKeywords ++ rawKeywords, k ≠ "_" := by decide
  unfold guardKeyword
  split
  next hpath =>
    have hmem : name ∈ pathKeywords := List.contains_iff_mem.1 hpath
    exact iff_of_true (.inl (isPlain_of_mem_pathKeywords hmem))
      (hunderscore name (List.mem_append_left _ hmem))
  next hpath =>
    split
    next hraw =>
      have hmem : name ∈ rawKeywords := List.contains_iff_mem.1 hraw
      exact iff_of_true (.inr ⟨name, rfl, mem_rawKeywords_iff.1 hmem⟩)
        (hunderscore name (List.mem_append_right _ hmem))
    next hraw =>
      have hkeyword : ¬ IsKeyword name := by
        rw [isKeyword_iff, not_or]
        exact ⟨by simpa using hpath, by simpa using hraw⟩
      rw [h.isModuleName_iff]
      exact ⟨IsPlain.notUnderscore, fun hne => ⟨h, hne, hkeyword⟩⟩

/-! ## Digits and characters -/

/-- A name that does not begin with a digit any more is an identifier. -/
theorem isIdentifier_guardDigit (h : IsName name) : IsIdentifier (guardDigit name) := by
  have hguarded := isName_guardDigit h
  refine ⟨hguarded.1, fun c hc => isNameChar_iff.1 (hguarded.2 c hc), ?_⟩
  unfold guardDigit
  split
  next =>
    rw [String.toList_append]
    intro c hc
    obtain rfl : '_' = c := by simpa using hc
    decide
  next hdigit =>
    intro c hc
    rw [Option.mem_def.1 hc] at hdigit
    simpa using hdigit

/-- Only an underscore is guarded to an underscore. -/
theorem guardDigit_eq_underscore_iff (h : name ≠ "") : guardDigit name = "_" ↔ name = "_" := by
  unfold guardDigit
  split
  next hdigit =>
    refine iff_of_false (fun heq => h ?_) (by rintro rfl; exact absurd hdigit (by decide))
    have hlist := congrArg String.toList heq
    simpa [String.toList_append] using hlist
  next => rfl

/-- Nothing is left of a wish if no letter or digit is in it and at most one character. -/
theorem leavesNothing_iff :
    LeavesNothing wanted ↔ sanitize wanted = "" ∨ sanitize wanted = "_" := by
  unfold LeavesNothing sanitize
  rw [← String.toList_inj, ← String.toList_inj, String.toList_map]
  match wanted.toList with
  | [] => simp
  | [c] =>
    have hunderscore : '_'.isAlphanum = false := by decide
    by_cases hc : c = '_'
    · subst hc
      simp [isNameChar, hunderscore]
    · cases halnum : c.isAlphanum <;> simp [isNameChar, halnum, hc]
  | c :: d :: cs => simp

/-- What is put together of the wish and the fallback is an underscore only if it is the fallback. -/
theorem chosen_eq_underscore_iff :
    (if sanitize wanted = "" ∨ sanitize wanted = "_" then fallback else sanitize wanted) = "_" ↔
      LeavesNothing wanted ∧ fallback = "_" := by
  rw [leavesNothing_iff]
  split
  next hnothing => simp [hnothing]
  next hsome => exact iff_of_false (fun heq => hsome (.inr heq)) fun h => hsome h.1

/-! ## Names of modules -/

/-- A module is named well unless nothing is left of what was wanted and the fallback is an
underscore. -/
theorem isModuleName_moduleName_iff (h : Settings.isNamespaceOk fallback = true) :
    IsModuleName (moduleName wanted fallback) ↔ ¬ (LeavesNothing wanted ∧ fallback = "_") := by
  -- guarding a digit and a keyword leaves an underscore as it is, so only the choice can bring one in
  have hname : IsName (if sanitize wanted = "" ∨ sanitize wanted = "_" then fallback
      else sanitize wanted) := isName_wanted fun _ => h
  unfold moduleName
  dsimp only
  rw [isModuleName_guardKeyword (isIdentifier_guardDigit hname), ne_eq,
    guardDigit_eq_underscore_iff hname.1, chosen_eq_underscore_iff]

/-- A name of right characters is left as it is. -/
theorem sanitize_eq_self (h : ∀ c ∈ wanted.toList, isNameChar c = true) : sanitize wanted = wanted := by
  rw [← String.toList_inj, sanitize, String.toList_map]
  exact (List.map_congr_left fun c hc => if_pos (h c hc)).trans (List.map_id' _)

theorem guardDigit_eq_self (h : ∀ c ∈ name.toList.head?, c.isDigit = false) :
    guardDigit name = name := by
  unfold guardDigit
  cases hhead : name.toList.head? with
  | none => rfl
  | some c => rw [Option.any_some, h c (Option.mem_def.2 hhead)]; rfl

/-- A plain word is left as it is. -/
theorem IsPlain.moduleName_eq (h : IsPlain wanted) (fallback : String) :
    moduleName wanted fallback = wanted := by
  have hsanitize := sanitize_eq_self fun c hc => isNameChar_iff.2 (h.chars c hc)
  obtain ⟨hpath, hraw⟩ := not_or.1 (mt isKeyword_iff.2 h.notKeyword)
  unfold moduleName
  dsimp only
  rw [hsanitize, if_neg (not_or.2 ⟨h.nonempty, h.notUnderscore⟩), guardDigit_eq_self h.start,
    guardKeyword, if_neg (by simpa using hpath), if_neg (by simpa using hraw)]

/-- **When the name of a module is legal.** With a fallback that the settings let pass, the name that is
made of any wish is a legal one, unless the wish leaves nothing and the fallback is a lone underscore. A
wish that is a plain word already is the name. -/
theorem moduleName_legal_iff (h : Settings.isNamespaceOk fallback = true) (wanted : String) :
    (IsModuleName (moduleName wanted fallback) ↔ ¬ (LeavesNothing wanted ∧ fallback = "_")) ∧
      (IsPlain wanted → moduleName wanted fallback = wanted) :=
  ⟨isModuleName_moduleName_iff h, fun hplain => hplain.moduleName_eq fallback⟩

/-- A fallback that is a keyword is used as a raw one. -/
theorem keyword_fallback_legal :
    Settings.isNamespaceOk "type" = true ∧ moduleName "-" "type" = "r#type" ∧
      IsModuleName (moduleName "-" "type") := by
  have hok : Settings.isNamespaceOk "type" = true := by decide
  exact ⟨hok, by decide +kernel, (moduleName_legal_iff hok "-").1.2 fun h => absurd h.2 (by decide)⟩

/-- The settings let a lone underscore pass, and a module is called by it. -/
theorem underscore_fallback_illegal :
    Settings.check { defaultNamespace := "_" } = .ok () ∧ Settings.isNamespaceOk "_" = true ∧
      moduleName "-" "_" = "_" ∧ ¬ IsModuleName (moduleName "-" "_") := by
  have hname : moduleName "-" "_" = "_" := by decide +kernel
  have hidentifier : IsIdentifier "_" := by decide +kernel
  refine ⟨rfl, by decide, hname, ?_⟩
  rw [hname, hidentifier.isModuleName_iff]
  exact fun hplain => hplain.notUnderscore rfl

end Clearance.Table
