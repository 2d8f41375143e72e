import Clearance.Proofs.Source.Spelling

/-!
# A printed table means the table

The text of a printed table is read back here without knowing what was printed. Its tokens are
those that `tokens?_source` lists; among them stands one routine with a guarded return for each
entry, in order and with the tests of that entry (`readRoutine_moduleTokens`), and the scan is
defined exactly where a clause calls it (`definition?_scan`). Run with the printed scan, the routine
returns what the table evaluates to (`run_routineOf`).

Two things carry the argument. No token that the reader cuts at occurs in a clause
(`not_mem_clause`), since texts stand in clauses only as literals. And an argument without a clause
is one that is not tested, so a clause that is left out changes neither the order of the others nor
the answer (`guards?_clauseOn`, `evalAll_clauseOn`).
-/

namespace Clearance

namespace Source

variable {mark : Token} {x : Clause} {r : Return} {us : List Token}

/-! ## Clauses and returns are found where they were put -/

/-- The tokens that readers cut at, or look for. -/
def marks : List Token := [.symbol "&&", openBrace, closeBrace, .word "fn"]

/-- No mark that a reader cuts at stands in a clause. -/
theorem not_mem_clause (hmark : mark ∈ marks) (hx : x.argument ∈ parameters) : mark ∉ x.tokens := by
  simp only [marks, parameters, List.mem_cons, List.not_mem_nil, or_false] at hmark hx
  cases x with
  | equals a v =>
    have ha : a = "subject" ∨ a = "resource" ∨ a = "action" := hx
    rcases ha with rfl | rfl | rfl <;> rcases hmark with rfl | rfl | rfl | rfl <;>
      simp [Clause.tokens, openBrace, closeBrace]
  | scans p a =>
    have ha : a = "subject" ∨ a = "resource" ∨ a = "action" := hx
    rcases ha with rfl | rfl | rfl <;> rcases hmark with rfl | rfl | rfl | rfl <;>
      simp [Clause.tokens, openBrace, closeBrace]

theorem mem_intercalate {s t : Token} {pieces : List (List Token)}
    (h : t ∈ [s].intercalate pieces) : t = s ∨ ∃ piece ∈ pieces, t ∈ piece := by
  induction pieces with
  | nil => exact absurd h (List.not_mem_nil)
  | cons piece pieces ih =>
    cases pieces with
    | nil => exact .inr ⟨piece, List.mem_singleton_self piece, by simpa using h⟩
    | cons next pieces =>
      rw [List.intercalate_cons_cons, List.append_assoc, List.mem_append, List.mem_append,
        List.mem_singleton] at h
      rcases h with h | h | h
      · exact .inr ⟨piece, List.mem_cons_self, h⟩
      · exact .inl h
      · rcases ih h with h | ⟨p, hp, h⟩
        · exact .inl h
        · exact .inr ⟨p, List.mem_cons_of_mem _ hp, h⟩

/-- Of the marks, a condition holds only the one between its clauses. -/
theorem not_mem_condition {xs : List Clause} (hmark : mark ∈ marks) (hand : mark ≠ .symbol "&&")
    (hxs : ∀ x ∈ xs, x.argument ∈ parameters) : mark ∉ conditionTokens xs := by
  cases xs with
  | nil =>
    intro h
    obtain rfl := List.mem_singleton.1 h
    exact absurd hmark (by decide)
  | cons x xs =>
    intro h
    rcases mem_intercalate h with h | ⟨piece, hpiece, h⟩
    · exact hand h
    · obtain ⟨y, hy, rfl⟩ := List.mem_map.1 hpiece
      exact not_mem_clause hmark (hxs y hy) h

theorem readClause_tokens (x : Clause) : readClause x.tokens = some x := by
  cases x <;> rfl

/-- A condition is read as its clauses. -/
theorem readCondition_conditionTokens {xs : List Clause}
    (hxs : ∀ x ∈ xs, x.argument ∈ parameters) : readCondition (conditionTokens xs) = some xs := by
  cases xs with
  | nil => rfl
  | cons x xs =>
    have hclauses : conditionTokens (x :: xs) =
        [Token.symbol "&&"].intercalate ((x :: xs).map Clause.tokens) := rfl
    have htrue : conditionTokens (x :: xs) ≠ [.word "true"] := by
      intro heq
      rw [hclauses] at heq
      cases xs <;> cases x <;> simp [Clause.tokens] at heq
    have hsplit : (conditionTokens (x :: xs)).splitOn (.symbol "&&") =
        (x :: xs).map Clause.tokens := by
      rw [hclauses]
      refine List.splitOn_intercalate _ (fun piece hpiece => ?_) (by simp)
      obtain ⟨y, hy, rfl⟩ := List.mem_map.1 hpiece
      exact not_mem_clause (by decide) (hxs y hy)
    have hread : ((x :: xs).map Clause.tokens).mapM readClause = some ((x :: xs).map id) :=
      mapM_map _ fun y _ => readClause_tokens y
    unfold readCondition
    rw [if_neg htrue, hsplit, hread, List.map_id]

/-- The statement inside the braces of a guarded return. -/
def statementTokens (e : Effect) : List Token :=
  [.word "return", .word "Effect", .symbol "::", .word e.sourceName, .symbol ";"]

theorem readStatement_tokens (e : Effect) : readStatement (statementTokens e) = some e := by
  cases e <;> rfl

/-- A return is read as the return that it was printed for. -/
theorem readReturn_tokens (hr : ∀ x ∈ r.clauses, x.argument ∈ parameters) :
    readReturn r.tokens = some r := by
  have hopen : openBrace ∉ conditionTokens r.clauses :=
    not_mem_condition (by decide) (by decide) hr
  have hcut : cut openBrace (conditionTokens r.clauses ++ openBrace :: statementTokens r.effect) =
      some (conditionTokens r.clauses, statementTokens r.effect) := cut_append hopen
  show (cut openBrace (conditionTokens r.clauses ++ openBrace :: statementTokens r.effect)).bind
    (fun parts => (readCondition parts.1).bind fun clauses =>
      (readStatement parts.2).bind fun effect => some (Return.mk clauses effect)) = some r
  rw [hcut, Option.bind_some, readCondition_conditionTokens hr, Option.bind_some,
    readStatement_tokens, Option.bind_some]

/-- Neither a closing brace nor a definition occurs in a guarded return. -/
theorem not_mem_return (hmark : mark = closeBrace ∨ mark = .word "fn")
    (hr : ∀ x ∈ r.clauses, x.argument ∈ parameters) : mark ∉ r.tokens := by
  have hcondition : mark ∉ conditionTokens r.clauses := by
    rcases hmark with rfl | rfl
    · exact not_mem_condition (by decide) (by decide) hr
    · exact not_mem_condition (by decide) (by decide) hr
  have hstatement : mark ∉ statementTokens r.effect := by
    rcases hmark with rfl | rfl <;> cases r.effect <;> decide
  have hrest : mark ≠ .word "if" ∧ mark ≠ openBrace := by
    rcases hmark with rfl | rfl <;> decide
  intro h
  rcases List.mem_cons.1 h with h | h
  · exact hrest.1 h
  · rcases List.mem_append.1 h with h | h
    · exact hcondition h
    · exact (List.mem_cons.1 h).elim hrest.2 hstatement

/-! ## The routine is found in the module -/

/-- What a table is printed as. -/
def routineOf (t : Table) : Routine := ⟨parameters, t.entries.map Entry.asReturn, .deny⟩

theorem argument_mem_of_mem_asReturn {e : Entry} :
    ∀ x ∈ e.asReturn.clauses, x.argument ∈ parameters :=
  fun _ hx => Entry.argument_mem hx

/-- There is no routine in front of the one that evaluates. -/
theorem not_mem_headTokens (id : String) : .word "fn" ∉ headTokens id := by
  have hpolicy : (Token.word "fn") ≠ .word ("Policy_" ++ id) := by
    intro h
    have hlist := congrArg String.toList (Token.word.inj h)
    rw [String.toList_append] at hlist
    exact absurd (List.cons.inj hlist).1 (by decide)
  have hderive : .word "fn" ∉ spelled "#[derive(Debug, Clone, Copy, PartialEq, Eq)]" := by
    decide +kernel
  have henum : .word "fn" ∉ spelled "pub enum Effect \x7b Allow, Deny, \x7d" := by decide +kernel
  have hconst : .word "fn" ∉ spelled "pub const ID: &'static str =" := by decide +kernel
  have hallow : .word "fn" ∉ spelled "#[allow(unused_variables)]" := by decide +kernel
  simp [headTokens, hpolicy, hderive, henum, hconst, hallow, openBrace]

/-- In front of the entries one function is defined, the routine. -/
theorem definition?_opening (name id module : String) (rest : List Token) :
    definition? name (openingTokens id module ++ rest) =
      if name = "evaluate" then some (signatureTokens ++ openBrace :: rest)
      else definition? name rest := by
  have hattribute : .word "fn" ∉
      spelled "#[allow(non_camel_case_types, dead_code)]" ++ [.word "pub", .word "mod"] := by
    decide +kernel
  have hsignature : .word "fn" ∉ signatureTokens ++ [openBrace] := by
    decide +kernel
  have htokens : openingTokens id module ++ rest =
      (spelled "#[allow(non_camel_case_types, dead_code)]" ++ [.word "pub", .word "mod"]) ++
        .word module :: (headTokens id ++ .word "fn" :: .word "evaluate" ::
          ((signatureTokens ++ [openBrace]) ++ rest)) := by
    simp [openingTokens]
  -- the name of the module may be anything, but a brace comes after it and not the name of a function
  have hmodule : ∀ us, definition? name (.word module :: (headTokens id ++ us)) =
      definition? name (headTokens id ++ us) := by
    intro us
    rw [definition?, if_neg]
    intro h
    exact absurd h.2 (by simp [headTokens, openBrace])
  rw [htokens, definition?_append hattribute, hmodule, definition?_append (not_mem_headTokens id),
    definition?]
  by_cases hname : name = "evaluate"
  · rw [if_pos ⟨rfl, by rw [hname]; rfl⟩, if_pos hname, List.append_assoc]
    rfl
  · have hother : (Token.word "evaluate" :: ((signatureTokens ++ [openBrace]) ++ rest)).head? ≠
        some (.word name) := by
      simpa using fun h : "evaluate" = name => hname h.symm
    rw [if_neg fun h => hother h.2, if_neg hname, definition?, if_neg fun h => absurd h.1 (by decide),
      definition?_append hsignature]

/-- A guarded return is passed over as a whole. -/
theorem block?_return {depth : Nat} (hr : ∀ x ∈ r.clauses, x.argument ∈ parameters) :
    block? depth (r.tokens ++ closeBrace :: us) =
      (block? depth us).map (r.tokens ++ [closeBrace] ++ ·) := by
  have hcondition : ∀ mark ∈ [openBrace, closeBrace],
      mark ∉ .word "if" :: conditionTokens r.clauses := by
    intro mark hmark h
    simp only [List.mem_cons, List.not_mem_nil, or_false] at hmark
    have hrest : mark ∉ conditionTokens r.clauses := by
      rcases hmark with rfl | rfl
      · exact not_mem_condition (by decide) (by decide) hr
      · exact not_mem_condition (by decide) (by decide) hr
    rcases List.mem_cons.1 h with rfl | h
    · exact absurd hmark (by decide)
    · exact hrest h
  have hstatement : openBrace ∉ statementTokens r.effect ∧ closeBrace ∉ statementTokens r.effect := by
    cases r.effect <;> decide
  have htokens : r.tokens ++ closeBrace :: us = (.word "if" :: conditionTokens r.clauses) ++
      openBrace :: (statementTokens r.effect ++ closeBrace :: us) := by
    simp [Return.tokens, statementTokens]
  have hbraces := @block?_braces (statementTokens r.effect) us depth hstatement.1 hstatement.2
  rw [htokens, block?_append (hcondition _ (by simp)) (hcondition _ (by simp)), hbraces,
    Option.map_map]
  refine congrArg (Option.map · (block? depth us)) (funext fun ts => ?_)
  simp [Return.tokens, statementTokens]

/-- The body of the routine ends at the brace that closes it. -/
theorem block?_bodyTokens (t : Table) (rest : List Token) :
    block? 0 (bodyTokens t ++ closeBrace :: rest) = some (bodyTokens t) := by
  have hlast : block? 0 ([.word "Effect", .symbol "::", .word "Deny"] ++ closeBrace :: rest) =
      some [.word "Effect", .symbol "::", .word "Deny"] := by
    rw [block?_append (by decide) (by decide), block?, if_pos rfl, if_pos rfl]
    rfl
  unfold bodyTokens
  rw [List.append_assoc]
  induction t.entries with
  | nil => exact hlast
  | cons e es ih =>
    rw [List.flatMap_cons, List.append_assoc, List.append_assoc, List.singleton_append,
      block?_return argument_mem_of_mem_asReturn, ih, Option.map_some]
    simp

/-- Cut at its closing braces, the body falls into its returns and the effect at the end. -/
theorem splitOn_bodyTokens (t : Table) : (bodyTokens t).splitOn closeBrace =
    t.entries.map (·.asReturn.tokens) ++ [[.word "Effect", .symbol "::", .word "Deny"]] := by
  have hjoin : bodyTokens t = [closeBrace].intercalate
      (t.entries.map (·.asReturn.tokens) ++ [[.word "Effect", .symbol "::", .word "Deny"]]) := by
    unfold bodyTokens
    induction t.entries with
    | nil => rfl
    | cons e es ih =>
      rw [List.flatMap_cons, List.append_assoc, ih]
      cases es <;> simp [List.intercalate_cons_cons]
  rw [hjoin]
  refine List.splitOn_intercalate _ (fun piece hpiece => ?_) (by simp)
  rcases List.mem_append.1 hpiece with hpiece | hpiece
  · obtain ⟨e, -, rfl⟩ := List.mem_map.1 hpiece
    exact not_mem_return (.inl rfl) argument_mem_of_mem_asReturn
  · obtain rfl := List.mem_singleton.1 hpiece
    decide

/-- **The routine of a printed table**: a guarded return for each entry, and a denial. -/
theorem readRoutine_moduleTokens (t : Table) (module : String) :
    readRoutine "evaluate" (moduleTokens t module) = some (routineOf t) := by
  have hdefinition : definition? "evaluate" (moduleTokens t module) =
      some (signatureTokens ++ openBrace :: (bodyTokens t ++ closeBrace :: closingTokens t)) := by
    unfold moduleTokens
    rw [List.append_assoc, definition?_opening, if_pos rfl]
  have hcut : ∀ rest, cut openBrace (signatureTokens ++ openBrace :: rest) =
      some (signatureTokens, rest) := fun rest => cut_append (by decide +kernel)
  have hsignature : readSignature signatureTokens = some parameters := by decide +kernel
  have hreturns : (t.entries.map (·.asReturn.tokens)).mapM readReturn =
      some (t.entries.map Entry.asReturn) :=
    mapM_map _ fun e _ => readReturn_tokens argument_mem_of_mem_asReturn
  unfold readRoutine
  simp only [hdefinition, hcut, hsignature, block?_bodyTokens, splitOn_bodyTokens, hreturns,
    List.dropLast_concat, List.getLast?_concat, Option.bind_eq_bind, Option.bind_some]
  rfl

/-! ## The scan is defined where it is called -/

theorem any_isScan (e : Entry) : e.asReturn.clauses.any Clause.isScan = e.hasGlob := by
  obtain ⟨s, r, a, -, -⟩ := e
  cases s <;> cases r <;> cases a <;> rfl

/-- A clause of the routine calls the scan exactly if the table needs it. -/
theorem callsScan_routineOf (t : Table) : (routineOf t).CallsScan ↔ t.needsScan = true := by
  unfold Table.needsScan
  rw [List.any_eq_true]
  constructor
  · intro h
    obtain ⟨r, hr, x, hx, hscan⟩ := h
    obtain ⟨e, he, rfl⟩ := List.mem_map.1 hr
    exact ⟨e, he, by rw [← any_isScan]; exact List.any_eq_true.2 ⟨x, hx, hscan⟩⟩
  · intro h
    obtain ⟨e, he, hglob⟩ := h
    rw [← any_isScan, List.any_eq_true] at hglob
    obtain ⟨x, hx, hscan⟩ := hglob
    exact ⟨e.asReturn, List.mem_map_of_mem he, x, hx, hscan⟩

/-- Where the scan is defined, it is the printed one. -/
theorem definition?_scan (t : Table) (module : String) :
    definition? "wildcard_match" (moduleTokens t module) =
      if t.needsScan then some (Matcher.printed.definition ++ [closeBrace]) else none := by
  have hbody : .word "fn" ∉ bodyTokens t := by
    unfold bodyTokens
    rw [List.mem_append, List.mem_flatMap]
    rintro (⟨e, -, h⟩ | h)
    · rcases List.mem_append.1 h with h | h
      · exact not_mem_return (.inr rfl) argument_mem_of_mem_asReturn h
      · exact absurd h (by decide)
    · exact absurd h (by decide)
  have hbrace : .word "fn" ∉ [closeBrace, closeBrace] := by decide
  have htokens : moduleTokens t module = openingTokens t.id module ++ (bodyTokens t ++
      ([closeBrace, closeBrace] ++ ((if t.needsScan then Matcher.printed.tokens else []) ++
        [closeBrace]))) := by
    simp [moduleTokens, closingTokens]
  rw [htokens, definition?_opening, if_neg (by decide), definition?_append hbody,
    definition?_append hbrace]
  split
  next => rfl
  next => rfl

/-! ## What the routine returns -/

theorem clauses_asReturn (e : Entry) : e.asReturn.clauses =
    (e.subject.clauseOn "subject").toList ++ ((e.resource.clauseOn "resource").toList ++
      ((e.action.clauseOn "action").toList ++ [])) := by
  obtain ⟨s, r, a, -, -⟩ := e
  cases s <;> cases r <;> cases a <;> rfl

theorem argument_ne {a b : String} {g : Guard} (hab : b ≠ a) :
    ∀ x ∈ (g.clauseOn b).toList, x.argument ≠ a := by
  intro x hx
  rw [Guard.argument_of_clauseOn (Option.mem_toList.1 hx)]
  exact hab

/-- An argument without a clause is one that is not tested. -/
theorem guards?_clauseOn {a : String} {as : List String} {xs : List Clause} (g : Guard)
    (h : ∀ x ∈ xs, x.argument ≠ a) :
    guards? (a :: as) ((g.clauseOn a).toList ++ xs) = (guards? as xs).map (g :: ·) := by
  cases g with
  | any =>
    cases xs with
    | nil => rfl
    | cons x xs =>
      show guards? (a :: as) (x :: xs) = _
      rw [guards?, if_neg (h x List.mem_cons_self)]
  | exact v =>
    show guards? (a :: as) (.equals a v :: xs) = _
    rw [guards?]
    exact if_pos rfl
  | glob p =>
    show guards? (a :: as) (.scans p a :: xs) = _
    rw [guards?]
    exact if_pos rfl

/-- The guards of an entry are read from the clauses that it is printed with. -/
theorem guards?_asReturn (e : Entry) :
    guards? parameters e.asReturn.clauses = some [e.subject, e.resource, e.action] := by
  have hlast : ∀ x ∈ (e.action.clauseOn "action").toList ++ [], x.argument ≠ "resource" := by
    rw [List.append_nil]
    exact argument_ne (by decide)
  have hrest : ∀ x ∈ (e.resource.clauseOn "resource").toList ++
      ((e.action.clauseOn "action").toList ++ []), x.argument ≠ "subject" := by
    rw [List.append_nil]
    exact List.forall_mem_append.2 ⟨argument_ne (by decide), argument_ne (by decide)⟩
  rw [clauses_asReturn]
  show guards? ["subject", "resource", "action"] _ = _
  rw [guards?_clauseOn _ hrest, guards?_clauseOn _ hlast, guards?_clauseOn _ (by simp)]
  rfl

/-- The rows of the routine are those of the table. -/
theorem rows_routineOf (t : Table) : (routineOf t).rows =
    some (t.entries.map fun e => ([e.subject, e.resource, e.action], e.effect)) := by
  refine mapM_map t.entries fun e _ => ?_
  show (guards? parameters e.asReturn.clauses).map (·, e.effect) = _
  rw [guards?_asReturn]
  rfl

section Running

variable {scan : String → String → Option Bool} {value? : String → Option String}

/-- A clause that is left out is one that holds. -/
theorem evalAll_clauseOn {a v : String} {g : Guard} {xs : List Clause} (hv : value? a = some v)
    (hscan : ∀ p, g = .glob p → scan p v = some (Glob.accepts p v)) :
    evalAll scan value? ((g.clauseOn a).toList ++ xs) =
      if g.accepts v then evalAll scan value? xs else some false := by
  cases g with
  | any => rfl
  | exact w =>
    have heval : (Clause.equals a w).eval scan value? = some (v == w) := by
      show (value? a).map (· == w) = _
      rw [hv]
      rfl
    show ((Clause.equals a w).eval scan value?).bind _ = _
    rw [heval, BEq.comm]
    rfl
  | glob p =>
    have heval : (Clause.scans p a).eval scan value? = some (Glob.accepts p v) := by
      show (value? a).bind (scan p) = _
      rw [hv]
      exact hscan p rfl
    show ((Clause.scans p a).eval scan value?).bind _ = _
    rw [heval]
    rfl

/-- A condition holds exactly if the entry accepts. -/
theorem evalAll_asReturn {e : Entry} {subject resource action : String}
    (hsubject : value? "subject" = some subject) (hresource : value? "resource" = some resource)
    (haction : value? "action" = some action)
    (hscan : ∀ p, .glob p ∈ [e.subject, e.resource, e.action] →
      ∀ v ∈ [subject, resource, action], scan p v = some (Glob.accepts p v)) :
    evalAll scan value? e.asReturn.clauses = some (e.accepts subject resource action) := by
  rw [clauses_asReturn,
    evalAll_clauseOn hsubject fun p hp => hscan p (by simp [hp]) subject (by simp),
    evalAll_clauseOn hresource fun p hp => hscan p (by simp [hp]) resource (by simp),
    evalAll_clauseOn haction fun p hp => hscan p (by simp [hp]) action (by simp)]
  unfold Entry.accepts
  cases e.subject.accepts subject <;> cases e.resource.accepts resource <;>
    cases e.action.accepts action <;> rfl

/-- The first return that is taken is that of the first entry that accepts. -/
theorem run_routineOf {t : Table} {subject resource action : String}
    (hscan : ∀ e ∈ t.entries, ∀ p, .glob p ∈ [e.subject, e.resource, e.action] →
      ∀ v ∈ [subject, resource, action], scan p v = some (Glob.accepts p v)) :
    (routineOf t).run scan [subject, resource, action] =
      some (t.evaluate subject resource action) := by
  obtain ⟨value?, hvalue⟩ : ∃ value? : String → Option String,
      value? = fun name => (parameters.zip [subject, resource, action]).lookup name := ⟨_, rfl⟩
  have hsubject : value? "subject" = some subject := by rw [hvalue]; rfl
  have hresource : value? "resource" = some resource := by rw [hvalue]; rfl
  have haction : value? "action" = some action := by rw [hvalue]; rfl
  show firstReturn scan (fun name => (parameters.zip [subject, resource, action]).lookup name) .deny
      (t.entries.map Entry.asReturn) =
    some ((t.entries.find? (·.accepts subject resource action)).elim .deny (·.effect))
  rw [← hvalue]
  generalize t.entries = entries at hscan ⊢
  induction entries with
  | nil => rfl
  | cons e es ih =>
    obtain ⟨he, hes⟩ := List.forall_mem_cons.1 hscan
    rw [List.map_cons, firstReturn, evalAll_asReturn hsubject hresource haction he, Option.bind_some]
    cases haccepts : e.accepts subject resource action with
    | true =>
      have hfind : (e :: es).find? (·.accepts subject resource action) = some e := by
        simp [haccepts]
      rw [if_pos rfl, hfind]
      rfl
    | false =>
      have hfind : (e :: es).find? (·.accepts subject resource action) =
          es.find? (·.accepts subject resource action) := by
        simp [haccepts]
      rw [if_neg (by decide), hfind]
      exact ih hes

end Running

/-- There is time enough for every call that a routine can make on given arguments. -/
theorem exists_time (patterns values : List String) :
    ∃ enough, ∀ time, enough ≤ time → ∀ p ∈ patterns, ∀ v ∈ values,
      Matcher.printed.answer time p v = some (Glob.accepts p v) := by
  have hvalues : ∀ p : String, ∃ enough, ∀ v ∈ values,
      Glob.effort p.toList.toArray v.toList.toArray ≤ enough := by
    intro p
    induction values with
    | nil => exact ⟨0, by simp⟩
    | cons v values ih =>
      obtain ⟨enough, h⟩ := ih
      exact ⟨max (Glob.effort p.toList.toArray v.toList.toArray) enough,
        List.forall_mem_cons.2 ⟨Nat.le_max_left ..,
          fun w hw => Nat.le_trans (h w hw) (Nat.le_max_right ..)⟩⟩
  induction patterns with
  | nil => exact ⟨0, by simp⟩
  | cons p patterns ih =>
    obtain ⟨first, hfirst⟩ := hvalues p
    obtain ⟨rest, hrest⟩ := ih
    refine ⟨max first rest, fun time htime => List.forall_mem_cons.2 ⟨fun v hv => ?_, ?_⟩⟩
    · have hle : first ≤ time := Nat.le_trans (Nat.le_max_left ..) htime
      exact Matcher.answer_eq_accepts p v (Nat.le_trans (hfirst v hv) hle)
    · exact hrest time (Nat.le_trans (Nat.le_max_right ..) htime)

/-- The patterns of a table. -/
def patterns (t : Table) : List String :=
  t.entries.flatMap fun e => [e.subject, e.resource, e.action].filterMap fun
    | .glob p => some p
    | _ => none

/-- **A printed table means the table.** Whatever name is wanted for the module, whatever characters
the patterns hold, and whichever of them are shown as they are, the text falls into the same tokens,
among which a reader finds one routine on the three parameters. The tests and effects of its returns
are those of the entries, in order, and it denies at the end. The scan is defined exactly if a clause
calls it, as the one printed here. Run with that scan, given time enough, the routine returns what the
table evaluates to. -/
theorem source_means_table (t : Table) (wanted fallback : String)
    (h : Table.sanitize wanted = "" ∨ Table.sanitize wanted = "_" →
      Settings.isNamespaceOk fallback = true) :
    ∃ tokens routine,
      (∀ shown, tokens? (t.source (Table.moduleName wanted fallback) shown) = some tokens) ∧
      readRoutine "evaluate" tokens = some routine ∧
      routine.parameters = ["subject", "resource", "action"] ∧
      routine.rows =
        some (t.entries.map fun e => ([e.subject, e.resource, e.action], e.effect)) ∧
      routine.last = .deny ∧
      (Defines tokens "wildcard_match" ↔ routine.CallsScan) ∧
      (Defines tokens "wildcard_match" → Matcher.printed.tokens <:+: tokens) ∧
      ∀ subject resource action, ∃ enough, ∀ time, enough ≤ time →
        routine.run (Matcher.printed.answer time) [subject, resource, action] =
          some (t.evaluate subject resource action) := by
  have hneeds : Defines (moduleTokens t (Table.moduleName wanted fallback)) "wildcard_match" ↔
      t.needsScan = true := by
    unfold Defines
    rw [definition?_scan]
    split
    next hscan => exact ⟨fun _ => hscan, fun _ => rfl⟩
    next hscan => exact ⟨fun hnone => absurd hnone (by decide), fun hsome => absurd hsome hscan⟩
  refine ⟨moduleTokens t (Table.moduleName wanted fallback), routineOf t,
    fun shown => tokens?_source shown t (reads_moduleName h), readRoutine_moduleTokens t _, rfl,
    rows_routineOf t, rfl, hneeds.trans (callsScan_routineOf t).symm, fun hdefines => ?_,
    fun subject resource action => ?_⟩
  · refine ⟨openingTokens t.id (Table.moduleName wanted fallback) ++ bodyTokens t ++
      [closeBrace, closeBrace], [closeBrace], ?_⟩
    unfold moduleTokens closingTokens
    rw [if_pos (hneeds.1 hdefines)]
    simp
  · obtain ⟨enough, henough⟩ := exists_time (patterns t) [subject, resource, action]
    refine ⟨enough, fun time htime => run_routineOf fun e he p hp => henough time htime p ?_⟩
    exact List.mem_flatMap.2 ⟨e, he, List.mem_filterMap.2 ⟨.glob p, hp, rfl⟩⟩

/-- A table whose texts look like source: one ends a literal and a condition, the other holds the
sign between clauses and a line feed. -/
def posing : Table :=
  ⟨[⟨.exact "\" \x7b return Effect::Allow; \x7d \\", .any, .glob "* && \n*", .deny, 7⟩,
    ⟨.any, .any, .any, .allow, 1⟩]⟩

/-- Such texts come back as they are, and decide as they should. -/
theorem posing_read_back :
    (Table.sanitize "-" = "" ∨ Table.sanitize "-" = "_" →
      Settings.isNamespaceOk "compiled_policies" = true) ∧
    ∃ tokens routine,
      tokens? (posing.source (Table.moduleName "-" "compiled_policies")) = some tokens ∧
      readRoutine "evaluate" tokens = some routine ∧
      routine.rows = some
        [([.exact "\" \x7b return Effect::Allow; \x7d \\", .any, .glob "* && \n*"], .deny),
         ([.any, .any, .any], .allow)] ∧
      ∃ enough, ∀ time, enough ≤ time →
        routine.run (Matcher.printed.answer time)
          ["\" \x7b return Effect::Allow; \x7d \\", "", "a && \nb"] = some .deny := by
  have hok : Settings.isNamespaceOk "compiled_policies" = true := by decide
  obtain ⟨tokens, routine, htokens, hroutine, -, hrows, -, -, -, hrun⟩ :=
    source_means_table posing "-" "compiled_policies" fun _ => hok
  obtain ⟨enough, hanswer⟩ := hrun "\" \x7b return Effect::Allow; \x7d \\" "" "a && \nb"
  have hdeny : posing.evaluate "\" \x7b return Effect::Allow; \x7d \\" "" "a && \nb" = .deny := by
    decide +kernel
  rw [hdeny] at hanswer
  exact ⟨fun _ => hok, tokens, routine, htokens Text.isShown, hroutine, hrows, enough, hanswer⟩

end Source

end Clearance
