import Clearance.Proofs.Json.Numeral
import Clearance.Proofs.Source.Literal
import Clearance.Proofs.Source.Matcher
import Clearance.Proofs.Source.Routine
import Clearance.Settings

/-!
# The tokens of a printed table

What the text of a printed table falls into, line by line. Most lines are the same in every table;
the others hold a name, an identifier, a number or a quoted text, and each of these is shown to stay
one token, or to stay inside its comment.

The name of the module is the wanted one if anything is left of it, and then no wish can spoil the
text. The fallback is printed as it stands. It is a name because the settings it comes from are
checked (`Settings.isNamespaceOk`).
-/

namespace Clearance

namespace Table

/-- Whether a text is something and has only characters of names. -/
def IsName (name : String) : Prop := name ≠ "" ∧ ∀ c ∈ name.toList, isNameChar c = true

variable {name wanted fallback : String}

theorem IsName.append_left {s : String} (hs : s.toList.all isNameChar = true) (h : IsName name) :
    IsName (s ++ name) := by
  refine ⟨fun hempty => h.1 (String.append_eq_empty_iff.1 hempty).2, fun c hc => ?_⟩
  rw [String.toList_append, List.mem_append] at hc
  exact hc.elim (List.all_eq_true.1 hs c) (h.2 c)

theorem IsName.append_right {s : String} (h : IsName name) (hs : s.toList.all isNameChar = true) :
    IsName (name ++ s) := by
  refine ⟨fun hempty => h.1 (String.append_eq_empty_iff.1 hempty).1, fun c hc => ?_⟩
  rw [String.toList_append, List.mem_append] at hc
  exact hc.elim (h.2 c) (List.all_eq_true.1 hs c)

theorem isName_sanitize (h : sanitize wanted ≠ "") : IsName (sanitize wanted) := by
  refine ⟨h, fun c hc => ?_⟩
  unfold sanitize at hc
  rw [String.toList_map] at hc
  obtain ⟨x, -, rfl⟩ := List.mem_map.1 hc
  split
  next hx => exact hx
  next => decide

/-- A fallback that the settings are checked for is a name. -/
theorem isName_of_isNamespaceOk (h : Settings.isNamespaceOk fallback = true) :
    IsName fallback := by
  obtain ⟨hhead, hall⟩ := Bool.and_eq_true_iff.1 h
  refine ⟨?_, List.all_eq_true.1 hall⟩
  rintro rfl
  exact absurd hhead (by decide)

/-- A name stays one when a digit in front is guarded. -/
theorem isName_guardDigit (h : IsName name) : IsName (guardDigit name) := by
  unfold guardDigit
  split
  next => exact h.append_left (by decide)
  next => exact h

/-- A name is left of every wish, with the fallback where nothing else is. -/
theorem isName_wanted (h : sanitize wanted = "" ∨ sanitize wanted = "_" →
    Settings.isNamespaceOk fallback = true) :
    IsName (if sanitize wanted = "" ∨ sanitize wanted = "_" then fallback else sanitize wanted) := by
  split
  next hblank => exact isName_of_isNamespaceOk (h hblank)
  next hsome => exact isName_sanitize fun hempty => hsome (.inl hempty)

end Table

namespace Source

open Table (isNameChar IsName)

variable {c : Char} {cs w : List Char}

/-! ## Names and comments -/

theorem ne_of_isNameChar {d : Char} (hc : isNameChar c = true) (hd : isNameChar d = false) :
    c ≠ d := by
  rintro rfl
  rw [hc] at hd
  exact absurd hd (by decide)

/-- A name is read as one word. -/
theorem reads_name (hne : cs ≠ []) (hcs : ∀ c ∈ cs, isNameChar c = true) :
    Reads .between cs (.word cs) [] := by
  obtain ⟨c, cs, rfl⟩ := List.exists_cons_of_ne_nil hne
  obtain ⟨hc, hcs⟩ := List.forall_mem_cons.1 hcs
  have hblank : Json.isBlank c = false := by
    simp [Json.isBlank, ne_of_isNameChar hc (d := ' ') (by decide),
      ne_of_isNameChar hc (d := '\t') (by decide), ne_of_isNameChar hc (d := '\n') (by decide),
      ne_of_isNameChar hc (d := '\r') (by decide)]
  have hfirst : step .between c = (.word [c], []) := by
    show (Mode.first c, ([] : List Token)) = _
    unfold Mode.first
    rw [if_neg (by simp [hblank]), if_pos hc]
  exact .cons_quiet hfirst (.word [c] hcs)

/-- A name ends before any character that is none of a name and marks nothing else. -/
theorem step_word (hw : w ≠ ['r', '#']) (hc : isNameChar c = false)
    (hmark : ¬ (c = '#' ∨ c = '"' ∨ c = '\'')) :
    step (.word w) c = after (.word (String.ofList w)) c := by
  show wordStep w c = _
  unfold wordStep
  rw [if_neg (by simp [hc]), if_neg (fun h => hmark (.inl h.2)), if_neg (fun h => h.elim hw hmark)]

theorem ne_raw (hcs : ∀ c ∈ cs, isNameChar c = true) : cs ≠ ['r', '#'] := by
  rintro rfl
  exact absurd (hcs '#' (by simp)) (by decide)

/-- A name in front of another token. -/
theorem reads_isName {name : String} (h : IsName name) (hc : isNameChar c = false)
    (hmark : ¬ (c = '#' ∨ c = '"' ∨ c = '\'')) {m : Mode} {ts : List Token}
    (hcs : Reads .between (c :: cs) m ts) :
    Reads .between (name.toList ++ c :: cs) m (.word name :: ts) := by
  have hend := step_word (ne_raw h.2) hc hmark
  rw [String.ofList_toList] at hend
  exact (reads_name (mt String.toList_eq_nil_iff.1 h.1) h.2).append_quiet (.after hend hcs)

/-- A raw name in front of a space. -/
theorem reads_raw {name : String} (h : IsName name) :
    Reads .between (("r#" ++ name).toList ++ [' ']) .between [.word ("r#" ++ name)] := by
  have hmark : Reads .between ['r', '#'] (.word ['r', '#']) [] := rfl
  have hchars : ("r#" ++ name).toList = ['r', '#'] ++ name.toList := String.toList_append
  have hmore : ("r#" ++ name).toList ≠ ['r', '#'] := by
    rw [hchars]
    exact fun heq => h.1 (String.toList_eq_nil_iff.1 (List.append_right_eq_self.1 heq))
  have hend := step_word (c := ' ') hmore (by decide) (by decide)
  rw [String.ofList_toList] at hend
  have hname : Reads .between ("r#" ++ name).toList (.word ("r#" ++ name).toList) [] := by
    rw [hchars]
    exact hmark.append_quiet (.word ['r', '#'] h.2)
  exact hname.append_quiet (.after hend rfl)

/-- Names stay names inside a literal. -/
theorem reads_plain (s : List Char) (hcs : ∀ c ∈ cs, isNameChar c = true) :
    Reads (.literal s) cs (.literal (s ++ cs)) [] := by
  refine .gather_plain s fun s c hc => ?_
  have hplain : ∀ d, isNameChar d = false → c ≠ d := fun d => ne_of_isNameChar (hcs c hc)
  show literalStep s c = _
  unfold literalStep
  rw [if_neg (hplain _ (by decide)), if_neg (hplain _ (by decide)), if_neg (hplain _ (by decide))]

/-- A comment is passed over with its line. -/
theorem reads_comment (hcs : '\n' ∉ cs) : Reads .comment (cs ++ ['\n']) .between [] :=
  (Reads.comment hcs).append_quiet rfl

theorem not_newline_of_numeral {cs : List Char} (h : ∀ c ∈ cs, Json.isNumeralChar c = true) :
    '\n' ∉ cs :=
  fun hmem => absurd (h '\n' hmem) (by decide)

theorem not_newline_of_name (h : ∀ c ∈ cs, isNameChar c = true) : '\n' ∉ cs :=
  fun hmem => absurd (h '\n' hmem) (by decide)

/-- The name of the module is one word. -/
theorem reads_moduleName {wanted fallback : String}
    (h : Table.sanitize wanted = "" ∨ Table.sanitize wanted = "_" →
      Settings.isNamespaceOk fallback = true) :
    Reads .between ((Table.moduleName wanted fallback).toList ++ [' ']) .between
      [.word (Table.moduleName wanted fallback)] := by
  have hname := Table.isName_guardDigit (Table.isName_wanted h)
  have hplain : ∀ name, IsName name →
      Reads .between (name.toList ++ [' ']) .between [.word name] :=
    fun name hname => reads_isName hname (by decide) (by decide) rfl
  unfold Table.moduleName
  dsimp only
  generalize Table.guardDigit _ = name at hname
  unfold Table.guardKeyword
  split
  next => exact hplain (name ++ "_") (hname.append_right (by decide))
  next =>
    split
    next => exact reads_raw hname
    next => exact hplain _ hname

/-! ## Clauses -/

variable (shown : Char → Bool)

/-- A clause as it is printed. -/
def Clause.text (shown : Char → Bool) : Clause → String
  | equals a v => a ++ " == " ++ Text.quote v shown
  | scans p a => "wildcard_match(" ++ Text.quote p shown ++ ", " ++ a ++ ")"

/-- A clause is read as it was meant, whatever its text holds. -/
theorem reads_clause (x : Clause) (h : IsName x.argument) :
    Reads .between ((x.text shown).toList ++ [' ']) .between x.tokens := by
  cases x with
  | equals a v =>
    have hsign : Reads .between [' ', '=', '=', ' '] .between [.symbol "=="] := rfl
    have hvalue : Reads .between ((Text.quote v shown).toList ++ [' ']) .between [.literal v] :=
      (reads_quote shown v).append (.cons_quiet rfl (.nil _))
    have hchars : ((Clause.equals a v).text shown).toList ++ [' '] =
        a.toList ++ ' ' :: (['=', '=', ' '] ++ ((Text.quote v shown).toList ++ [' '])) := by
      unfold Clause.text
      rw [String.toList_append, String.toList_append, String.toList_ofList]
      simp only [List.append_assoc, List.cons_append, List.nil_append]
    rw [hchars]
    exact reads_isName h (by decide) (by decide) (hsign.append hvalue)
  | scans p a =>
    have hcall : Reads .between "wildcard_match(".toList (.symbol '(') [.word "wildcard_match"] := by
      decide +kernel
    have hquoteMark : step (.symbol '(') '"' = after (.symbol "(") '"' := by
      decide +kernel
    have hpattern : Reads (.symbol '(') (Text.quote p shown).toList .between [.symbol "(", .literal p] := by
      have hquote := reads_quote shown p
      unfold Text.quote at hquote ⊢
      rw [String.toList_ofList] at hquote ⊢
      exact .after hquoteMark hquote
    have hcomma : Reads .between [',', ' '] .between [.symbol ","] := rfl
    have hargument : Reads .between (a.toList ++ [')', ' ']) .between [.word a, .symbol ")"] :=
      reads_isName h (by decide) (by decide) rfl
    have hchars : ((Clause.scans p a).text shown).toList ++ [' '] = "wildcard_match(".toList ++
        ((Text.quote p shown).toList ++ ([',', ' '] ++ (a.toList ++ [')', ' ']))) := by
      unfold Clause.text
      simp only [String.toList_append, List.append_assoc]
      rfl
    rw [hchars]
    exact hcall.append (hpattern.append (hcomma.append hargument))

/-- The tokens of a condition. -/
def conditionTokens : List Clause → List Token
  | [] => [.word "true"]
  | cs => [Token.symbol "&&"].intercalate (cs.map Clause.tokens)

/-- A condition as it is printed. -/
def conditionText (shown : Char → Bool) (cs : List Clause) : String :=
  if cs.isEmpty then "true" else " && ".intercalate (cs.map (Clause.text shown))

/-- A condition is read as its clauses with the sign between them. -/
theorem reads_condition (xs : List Clause) (h : ∀ x ∈ xs, IsName x.argument) :
    Reads .between ((conditionText shown xs).toList ++ [' ']) .between (conditionTokens xs) := by
  cases xs with
  | nil =>
    show Reads .between ("true".toList ++ [' ']) .between [.word "true"]
    decide +kernel
  | cons x xs =>
    show Reads .between ((" && ".intercalate ((x :: xs).map (Clause.text shown))).toList ++ [' ']) .between
      ([Token.symbol "&&"].intercalate ((x :: xs).map Clause.tokens))
    rw [String.toList_intercalate]
    induction xs generalizing x with
    | nil =>
      simpa using reads_clause shown x (h x (by simp))
    | cons y xs ih =>
      have hrest := ih y fun z hz => h z (List.mem_cons_of_mem x hz)
      have hsign : Reads .between ['&', '&', ' '] .between [.symbol "&&"] := rfl
      have hall := (reads_clause shown x (h x (by simp))).append (hsign.append hrest)
      simp only [List.map_cons, List.intercalate_cons_cons] at hall ⊢
      simpa using hall

/-! ## Entries -/

/-- The tokens of a guarded return, but for the brace that closes it. -/
def Return.tokens (r : Return) : List Token :=
  .word "if" :: (conditionTokens r.clauses ++ openBrace ::
    [.word "return", .word "Effect", .symbol "::", .word r.effect.sourceName, .symbol ";"])

/-- The parameters of a printed routine. -/
def parameters : List String := ["subject", "resource", "action"]

end Source

open Source

/-- The clause of a guard on an argument, unless it always holds. -/
def Guard.clauseOn (argument : String) : Guard → Option Clause
  | any => none
  | exact value => some (.equals argument value)
  | glob pattern => some (.scans pattern argument)

/-- The guarded return that an entry is printed as. -/
def Entry.asReturn (e : Entry) : Return where
  clauses := [e.subject.clauseOn "subject", e.resource.clauseOn "resource",
    e.action.clauseOn "action"].filterMap id
  effect := e.effect

/-- A guard is printed as its clause. -/
theorem Guard.clause?_eq (argument : String) (g : Guard) (shown : Char → Bool) :
    g.clause? argument shown = (g.clauseOn argument).map (Clause.text shown) := by
  cases g <;> rfl

theorem Entry.sourceCondition_eq (e : Entry) (shown : Char → Bool) :
    e.sourceCondition shown = conditionText shown e.asReturn.clauses := by
  unfold sourceCondition conditionText asReturn
  rw [Guard.clause?_eq, Guard.clause?_eq, Guard.clause?_eq]
  cases e.subject.clauseOn "subject" <;> cases e.resource.clauseOn "resource" <;>
    cases e.action.clauseOn "action" <;> rfl

/-- The clause of a guard is on the argument that it is for. -/
theorem Guard.argument_of_clauseOn {argument : String} {g : Guard} {x : Clause}
    (h : g.clauseOn argument = some x) : x.argument = argument := by
  cases g <;> simp [clauseOn] at h <;> rw [← h] <;> rfl

/-- Every clause of an entry is on one of the three parameters. -/
theorem Entry.argument_mem {e : Entry} {x : Clause} (h : x ∈ e.asReturn.clauses) :
    x.argument ∈ parameters := by
  obtain ⟨_, hmem, rfl⟩ := List.mem_filterMap.1 h
  simp only [List.mem_cons, List.not_mem_nil, or_false] at hmem
  rcases hmem with heq | heq | heq
  all_goals
    rw [Guard.argument_of_clauseOn heq.symm]
    decide

namespace Source

open Table (isNameChar IsName)

variable (shown : Char → Bool)

theorem isName_parameter {a : String} (h : a ∈ parameters) : IsName a := by
  simp only [parameters, List.mem_cons, List.not_mem_nil, or_false] at h
  rcases h with rfl | rfl | rfl
  all_goals exact ⟨by decide, List.all_eq_true.1 (by decide)⟩

/-- An entry is read as the guarded return that it is, and its priority as nothing. -/
theorem readsLines_entry (e : Entry) :
    ReadsLines (e.sourceLines shown) (e.asReturn.tokens ++ [closeBrace]) := by
  have hnumber : '\n' ∉ (toString e.priority).toList :=
    not_newline_of_numeral (Binary64.numeric_toString e.priority).2
  have hpriority : ReadsLines ["            // priority " ++ toString e.priority] [] := by
    have hopen : Reads .between "            // priority ".toList .comment [] := by decide +kernel
    refine .single ?_
    rw [String.toList_append, List.append_assoc]
    exact hopen.append_quiet (reads_comment hnumber)
  have hcondition : ReadsLines ["            if " ++ e.sourceCondition shown ++ " \x7b"]
      (.word "if" :: (conditionTokens e.asReturn.clauses ++ [openBrace])) := by
    have hopen : Reads .between "            if ".toList .between [.word "if"] := by decide +kernel
    have hclauses := reads_condition shown e.asReturn.clauses fun x hx =>
      isName_parameter (Entry.argument_mem hx)
    have hbrace : Reads .between ['\x7b', '\n'] .between [openBrace] := rfl
    have hchars : ("            if " ++ e.sourceCondition shown ++ " \x7b").toList ++ ['\n'] =
        "            if ".toList ++
          ((conditionText shown e.asReturn.clauses).toList ++ [' '] ++ ['\x7b', '\n']) := by
      simp [Entry.sourceCondition_eq]
    refine .single ?_
    rw [hchars]
    exact hopen.append (hclauses.append hbrace)
  have hreturn : ReadsLines ["                return Effect::" ++ e.effect.sourceName ++ ";"]
      [.word "return", .word "Effect", .symbol "::", .word e.effect.sourceName, .symbol ";"] := by
    cases e.effect <;> decide +kernel
  have hclose : ReadsLines ["            \x7d"] [closeBrace] := by
    decide +kernel
  have hall := hpriority.append (hcondition.append (hreturn.append hclose))
  simpa [Entry.sourceLines, Return.tokens, Entry.asReturn] using hall

/-! ## The whole module -/

theorem isNameChar_digitChar : ∀ n < 16, isNameChar (Nat.digitChar n) = true := by decide

/-- The identifier of a table is made of hexadecimal digits. -/
theorem isNameChar_of_mem_id {t : Table} : ∀ c ∈ t.id.toList, isNameChar c = true := by
  intro c hc
  unfold Table.id Sha256.hexDigest at hc
  rw [String.toList_ofList] at hc
  obtain ⟨w, -, hw⟩ := List.mem_flatMap.1 (List.mem_of_mem_take hc)
  obtain ⟨i, -, rfl⟩ := List.mem_map.1 hw
  exact isNameChar_digitChar _ (Nat.mod_lt _ (by decide))

/-- What a module holds in front of its routine. -/
def headTokens (id : String) : List Token :=
  openBrace :: spelled "#[derive(Debug, Clone, Copy, PartialEq, Eq)]" ++
  spelled "pub enum Effect \x7b Allow, Deny, \x7d" ++
  .word "pub" :: .word "struct" :: .word ("Policy_" ++ id) :: .symbol ";" ::
  .word "impl" :: .word ("Policy_" ++ id) :: openBrace ::
  spelled "pub const ID: &'static str =" ++ .literal id :: .symbol ";" ::
  spelled "#[allow(unused_variables)]" ++ [.word "pub"]

/-- The parameters of a routine and its result. -/
def signatureTokens : List Token :=
  .symbol "(" :: spelled "subject: &str" ++ .symbol "," :: spelled "resource: &str" ++
    .symbol "," :: spelled "action: &str" ++ spelled ") -> Effect"

/-- The tokens in front of the first entry. -/
def openingTokens (id module : String) : List Token :=
  spelled "#[allow(non_camel_case_types, dead_code)]" ++
  .word "pub" :: .word "mod" :: .word module :: headTokens id ++
  .word "fn" :: .word "evaluate" :: signatureTokens ++ [openBrace]

/-- The second comment is closed by the end of its line. -/
theorem readsLines_identity (t : Table) :
    ReadsLines ["// policy id: " ++ t.id ++ ", rules: " ++ toString t.size] [] := by
  have hsize : '\n' ∉ (toString t.size).toList := by
    rw [show (toString t.size).toList = Nat.toDigits 10 t.size from String.toList_ofList]
    exact not_newline_of_numeral (Json.numeric_toDigits t.size).2
  have hrest : '\n' ∉ t.id.toList ++ (", rules: ".toList ++ (toString t.size).toList) := by
    rw [List.mem_append, List.mem_append]
    exact not_or.2 ⟨not_newline_of_name isNameChar_of_mem_id, not_or.2 ⟨by decide, hsize⟩⟩
  have hopen : Reads .between "// policy id: ".toList .comment [] := by decide +kernel
  refine .single ?_
  simp only [String.toList_append, List.append_assoc]
  exact hopen.append_quiet (by simpa using reads_comment hrest)

theorem isName_policy (t : Table) : IsName ("Policy_" ++ t.id) := by
  refine ⟨fun hempty => absurd (String.append_eq_empty_iff.1 hempty).1 (by decide), fun c hc => ?_⟩
  have hfront : ("Policy_" : String).toList.all isNameChar = true := by decide
  rw [String.toList_append, List.mem_append] at hc
  exact hc.elim (List.all_eq_true.1 hfront c) (isNameChar_of_mem_id c)

theorem readsLines_struct (t : Table) : ReadsLines ["    pub struct Policy_" ++ t.id ++ ";", ""]
    [.word "pub", .word "struct", .word ("Policy_" ++ t.id), .symbol ";"] := by
  have hopen : Reads .between "    pub struct ".toList .between [.word "pub", .word "struct"] := by
    decide +kernel
  have hend : Reads .between [';', '\n'] .between [.symbol ";"] := rfl
  have hblank : ReadsLines [""] [] := by decide
  have hline : ReadsLines ["    pub struct Policy_" ++ t.id ++ ";"]
      [.word "pub", .word "struct", .word ("Policy_" ++ t.id), .symbol ";"] := by
    refine .single ?_
    rw [show "    pub struct Policy_" = "    pub struct " ++ "Policy_" by decide]
    simpa using hopen.append (reads_isName (isName_policy t) (by decide) (by decide) hend)
  exact hline.append hblank

theorem readsLines_impl (t : Table) : ReadsLines ["    impl Policy_" ++ t.id ++ " \x7b"]
    [.word "impl", .word ("Policy_" ++ t.id), openBrace] := by
  have hopen : Reads .between "    impl ".toList .between [.word "impl"] := by
    decide +kernel
  have hend : Reads .between [' ', '\x7b', '\n'] .between [openBrace] := rfl
  refine .single ?_
  rw [show "    impl Policy_" = "    impl " ++ "Policy_" by decide]
  simpa using hopen.append (reads_isName (isName_policy t) (by decide) (by decide) hend)

theorem readsLines_const (t : Table) :
    ReadsLines ["        pub const ID: &'static str = \"" ++ t.id ++ "\";", ""]
      (spelled "pub const ID: &'static str =" ++ [.literal t.id, .symbol ";"]) := by
  have hopen : Reads .between "        pub const ID: &'static str = \"".toList (.literal [])
      (spelled "pub const ID: &'static str =") := by
    decide +kernel
  have hclose : Reads (.literal t.id.toList) ['"', ';', '\n'] .between
      [.literal t.id, .symbol ";"] := by
    show (Mode.between, [Token.literal (String.ofList t.id.toList), .symbol ";"]) = _
    rw [String.ofList_toList]
  have hblank : ReadsLines [""] [] := by decide
  have hline : ReadsLines ["        pub const ID: &'static str = \"" ++ t.id ++ "\";"]
      (spelled "pub const ID: &'static str =" ++ [.literal t.id, .symbol ";"]) := by
    refine .single ?_
    simpa using hopen.append ((reads_plain [] isNameChar_of_mem_id).append_quiet hclose)
  simpa using hline.append hblank

/-- What stands before the routine is read as it was meant. -/
theorem readsLines_opening (t : Table) {module : String}
    (h : Reads .between (module.toList ++ [' ']) .between [.word module]) :
    ReadsLines (t.openingLines module) (openingTokens t.id module) := by
  have hfront : ReadsLines ["// Generated by castellan. Do not edit."] [] := by
    decide +kernel
  have hattribute : ReadsLines ["", "#[allow(non_camel_case_types, dead_code)]"]
      (spelled "#[allow(non_camel_case_types, dead_code)]") := by
    decide +kernel
  have hmodule : ReadsLines ["pub mod " ++ module ++ " \x7b"]
      [.word "pub", .word "mod", .word module, openBrace] := by
    have hopen : Reads .between "pub mod ".toList .between [.word "pub", .word "mod"] := by
      decide +kernel
    have hbrace : Reads .between ['\x7b', '\n'] .between [openBrace] := rfl
    refine .single ?_
    simpa using hopen.append (h.append hbrace)
  have henum : ReadsLines
      ["    #[derive(Debug, Clone, Copy, PartialEq, Eq)]", "    pub enum Effect \x7b", "        Allow,",
       "        Deny,", "    \x7d", ""]
      (spelled "#[derive(Debug, Clone, Copy, PartialEq, Eq)]" ++
        spelled "pub enum Effect \x7b Allow, Deny, \x7d") := by
    decide +kernel
  have hroutine : ReadsLines ["        #[allow(unused_variables)]",
      "        pub fn evaluate(subject: &str, resource: &str, action: &str) -> Effect \x7b"]
      (spelled "#[allow(unused_variables)]" ++ .word "pub" :: .word "fn" :: .word "evaluate" ::
        signatureTokens ++ [openBrace]) := by
    decide +kernel
  have hall := hfront.append ((readsLines_identity t).append (hattribute.append (hmodule.append
    (henum.append ((readsLines_struct t).append ((readsLines_impl t).append
    ((readsLines_const t).append hroutine)))))))
  simpa [Table.openingLines, openingTokens, headTokens] using hall

/-- The tokens of the routine after its opening brace, up to the one that closes it. -/
def bodyTokens (t : Table) : List Token :=
  t.entries.flatMap (fun e => e.asReturn.tokens ++ [closeBrace]) ++
    [.word "Effect", .symbol "::", .word "Deny"]

/-- The tokens after the routine. -/
def closingTokens (t : Table) : List Token :=
  closeBrace :: (if t.needsScan then Matcher.printed.tokens else []) ++ [closeBrace]

/-- The tokens of a printed table. -/
def moduleTokens (t : Table) (module : String) : List Token :=
  openingTokens t.id module ++ bodyTokens t ++ closeBrace :: closingTokens t

/-- The body of the routine is read as the returns of the entries. -/
theorem readsLines_body (t : Table) : ReadsLines (t.bodyLines shown) (bodyTokens t) := by
  have hlast : ReadsLines ["            Effect::Deny"]
      [.word "Effect", .symbol "::", .word "Deny"] := by
    decide +kernel
  exact (ReadsLines.flatMap t.entries fun e _ => readsLines_entry shown e).append hlast

/-- What stands behind the routine is read as the scan, if that is printed. -/
theorem readsLines_closing (t : Table) :
    ReadsLines (["        \x7d", "    \x7d"] ++
      (if t.needsScan then "" :: Table.scanLines else []) ++ ["\x7d"])
      (closeBrace :: closingTokens t) := by
  have hblank : ReadsLines [""] [] := by decide
  have htwo : ReadsLines ["        \x7d", "    \x7d"] [closeBrace, closeBrace] := by decide +kernel
  have hone : ReadsLines ["\x7d"] [closeBrace] := by decide
  have hscan : ReadsLines (if t.needsScan then "" :: Table.scanLines else [])
      (if t.needsScan then Matcher.printed.tokens else []) := by
    split
    next => exact hblank.append Matcher.readsLines_scanLines
    next => exact .nil
  have hall := (htwo.append hscan).append hone
  simpa [closingTokens] using hall

theorem toList_source (t : Table) (module : String) :
    (t.source module shown).toList = lineChars (t.sourceLines module shown) := by
  have hfeed : ("\n" : String).toList = ['\n'] := rfl
  unfold Table.source lineChars
  rw [String.toList_join, List.flatMap_map]
  simp only [String.toList_append, hfeed]

/-- **A printed table falls into these tokens**, in a module whose name is one word. -/
theorem tokens?_source (t : Table) {module : String}
    (h : Reads .between (module.toList ++ [' ']) .between [.word module]) :
    tokens? (t.source module shown) = some (moduleTokens t module) := by
  refine tokens?_of_reads ?_
  rw [toList_source]
  have hall := ((readsLines_opening t h).append (readsLines_body shown t)).append (readsLines_closing t)
  simpa [Table.sourceLines, moduleTokens, ReadsLines] using hall

end Source

end Clearance
