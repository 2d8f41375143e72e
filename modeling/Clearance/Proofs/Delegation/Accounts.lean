import Clearance.Proofs.Delegation.Counting

/-!
# The counters account for every delegation

What a run counts balances with what it answers and with what it leaves on record (`Accounted`): every
grant and every refusal is counted, what is on record is what was granted and has not been cleaned
up, whatever was ever revoked was counted once, and so was every look-up through the cache.

The books are kept as a list of counts. One operation is booked by what it counts and what it does to
the rows (`booked_step`), and the books of an operation and of the rest of a run add up
(`Booked.cons`). That an id is on one row only matters twice: a revocation turns one row, and a row
that a cleanup removes does not remain under another row's id.
-/

namespace Clearance

namespace Counter

/-- Whether it counts grants. -/
def isGranted : Counter → Bool
  | granted _ => true
  | _ => false

/-- Whether it counts refusals. -/
def isRejected : Counter → Bool
  | rejected _ => true
  | _ => false

/-- Whether it counts look-ups through the cache. -/
def isLookUp : Counter → Bool
  | cacheHit | cacheMiss | cacheError => true
  | _ => false

/-- Every look-up is a hit, a miss or an error. -/
theorem amountOf_isLookUp (l : List (Counter × Nat)) :
    amountOf isLookUp l =
      amountOf (· = cacheHit) l + amountOf (· = cacheMiss) l + amountOf (· = cacheError) l := by
  induction l with
  | nil => rfl
  | cons e l ih =>
    obtain ⟨c, n⟩ := e
    simp only [amountOf, ih]
    cases c with
    | cacheHit => simp [isLookUp]; omega
    | cacheMiss => simp [isLookUp]; omega
    | cacheError => simp [isLookUp]; omega
    | _ => simp [isLookUp]

/-- There are three counters of look-ups. -/
theorem isLookUp_cases {c : Counter} (h : c.isLookUp = true) :
    c = cacheHit ∨ c = cacheMiss ∨ c = cacheError := by
  cases c with
  | cacheHit => exact .inl rfl
  | cacheMiss => exact .inr (.inl rfl)
  | cacheError => exact .inr (.inr rfl)
  | _ => exact Bool.noConfusion h

end Counter

namespace Delegation

open Time (Instant)

/-- Whether a delegation was granted. -/
def Answer.isGrant : Answer → Bool
  | granted (.ok _) => true
  | _ => false

/-- Whether a grant was refused. -/
def Answer.isRefusal : Answer → Bool
  | granted (.error _) => true
  | _ => false

/-- Whether an operation looks up what a delegate holds. -/
def Op.isLookUp : Op → Bool
  | activeFor _ => true
  | permits .. => true
  | _ => false

/-- Whether a row is on record as revoked. -/
def isRevoked (d : Delegation) : Bool := d.status = .revoked

namespace Service

variable {s : Service} {w : Memory} {now : Moment} {op : Op} {ops ops' : List (Moment × Op)}
  {l l' : List (Counter × Nat)}

/-- The rows that are on record before an operation and not after it. -/
def removedBy (s : Service) (w : Memory) (e : Moment × Op) : List Delegation :=
  w.delegations.rows.filter fun d => ((s.step w e).delegations.find d.id).isNone

/-- The rows that a run removes, as they last were. -/
def removed (s : Service) (w : Memory) : List (Moment × Op) → List Delegation
  | [] => []
  | e :: ops => s.removedBy w e ++ removed s (s.step w e) ops

/-- Whether some counts are what a run comes to. -/
structure Booked (s : Service) (w : Memory) (ops : List (Moment × Op))
    (l : List (Counter × Nat)) : Prop where
  granted : amountOf Counter.isGranted l = (s.answers w ops).countP Answer.isGrant
  rejected : amountOf Counter.isRejected l = (s.answers w ops).countP Answer.isRefusal
  rows : (s.after w ops).delegations.size + amountOf (· = .cleaned) l =
    w.delegations.size + amountOf Counter.isGranted l
  revoked : w.delegations.rows.countP isRevoked + amountOf (· = .revoked) l =
    ((s.after w ops).delegations.rows ++ s.removed w ops).countP isRevoked
  lookUps : s.caching = true → amountOf Counter.isLookUp l = ops.countP (·.2.isLookUp)

/-- The books of two runs in a row add up. -/
theorem Booked.cons {e : Moment × Op} (h : Booked s w [e] l) (h' : Booked s (s.step w e) ops l') :
    Booked s w (e :: ops) (l ++ l') := by
  have hanswers : s.answers w (e :: ops) = s.answers w [e] ++ s.answers (s.step w e) ops := rfl
  refine ⟨?_, ?_, ?_, ?_, fun hcaching => ?_⟩
  · rw [amountOf_append, hanswers, List.countP_append, h.granted, h'.granted]
  · rw [amountOf_append, hanswers, List.countP_append, h.rejected, h'.rejected]
  · -- what the operation leaves is what the rest starts from, and cancels
    have hfirst := h.rows
    have hrest := h'.rows
    rw [amountOf_append, amountOf_append]
    change (s.step w e).delegations.size + _ = _ at hfirst
    change (s.after (s.step w e) ops).delegations.size + _ = _
    omega
  · -- a row that the operation removes is not on record for the rest
    have hfirst := h.revoked
    have hrest := h'.revoked
    change _ = ((s.step w e).delegations.rows ++ (s.removedBy w e ++ [])).countP _ at hfirst
    change _ = ((s.after (s.step w e) ops).delegations.rows ++
      (s.removedBy w e ++ s.removed (s.step w e) ops)).countP _
    rw [amountOf_append]
    simp only [List.countP_append, List.append_nil] at hfirst hrest ⊢
    omega
  · rw [amountOf_append, h.lookUps hcaching, h'.lookUps hcaching, ← List.countP_append]
    rfl

/-! ## Booking one operation -/

/-- A run of one operation gives one answer, the reply to it. -/
theorem answers_singleton (s : Service) (w : Memory) (now : Moment) (op : Op) :
    s.answers w [(now, op)] = [s.reply w now op] := by
  obtain ⟨j, hj⟩ := perform_run s w now op
  unfold answers
  rw [hj]
  rfl

/-- An operation after which every id is still found removes nothing. -/
theorem removedBy_eq_nil
    (h : ∀ d ∈ w.delegations.rows, ((s.left w now op).delegations.find d.id).isSome = true) :
    s.removedBy w (now, op) = [] := by
  unfold removedBy
  rw [step_delegations, List.filter_eq_nil_iff]
  intro d hd
  rw [Option.isNone_iff_eq_none, ← Option.not_isSome_iff_eq_none, not_not]
  exact h d hd

theorem removed_singleton (s : Service) (w : Memory) (e : Moment × Op) :
    s.removed w [e] = s.removedBy w e := List.append_nil _

/-- An operation that leaves the rows alone removes nothing. -/
theorem removed_of_same (hi : w.delegations.Indexed)
    (h : (s.left w now op).delegations = w.delegations) : s.removed w [(now, op)] = [] := by
  rw [removed_singleton]
  refine removedBy_eq_nil fun d hd => ?_
  rw [h]
  exact hi.isSome_find (List.mem_map_of_mem hd)

/-- An operation that counts at most a look-up, and leaves the rows alone, is booked if the look-up
is. -/
theorem booked_of_same (hi : w.delegations.Indexed)
    (h : (s.left w now op).delegations = w.delegations)
    (hgrant : (s.reply w now op).isGrant = false)
    (hrefusal : (s.reply w now op).isRefusal = false)
    (hcounts : ∀ c ∈ s.counts w now op, c.1.isLookUp = true)
    (hlookUps : s.caching = true →
      amountOf Counter.isLookUp (s.counts w now op) = if op.isLookUp then 1 else 0) :
    Booked s w [(now, op)] (s.counts w now op) := by
  have hstore : (s.after w [(now, op)]).delegations = w.delegations :=
    (step_delegations s w (now, op)).trans h
  have hnone : ∀ p : Counter → Bool,
      (p .cacheHit = false ∧ p .cacheMiss = false ∧ p .cacheError = false) →
      amountOf p (s.counts w now op) = 0 := by
    intro p hp
    refine amountOf_eq_zero fun c hc => ?_
    rcases Counter.isLookUp_cases (hcounts c hc) with hc | hc | hc <;> rw [hc]
    · exact hp.1
    · exact hp.2.1
    · exact hp.2.2
  refine ⟨?_, ?_, ?_, ?_, fun hcaching => ?_⟩
  · rw [hnone _ ⟨rfl, rfl, rfl⟩, answers_singleton, List.countP_singleton, hgrant]
    rfl
  · rw [hnone _ ⟨rfl, rfl, rfl⟩, answers_singleton, List.countP_singleton, hrefusal]
    rfl
  · rw [hstore, hnone _ ⟨rfl, rfl, rfl⟩, hnone _ ⟨rfl, rfl, rfl⟩]
  · rw [hstore, hnone _ ⟨rfl, rfl, rfl⟩, removed_of_same hi h, List.append_nil, Nat.add_zero]
  · rw [hlookUps hcaching, List.countP_singleton]

/-- Whatever comes of a look-up in the cache is counted as one. -/
theorem isLookUp_lookUpCounter (w : Memory) (now : Moment) (delegate : String) :
    (lookUpCounter w now delegate).isLookUp = true := by
  unfold lookUpCounter
  split
  next => rfl
  next => split <;> rfl

/-- A look-up balances: it grants and refuses nothing, and is counted once where there is a cache. -/
theorem booked_lookUp (hi : w.delegations.Indexed) (h : (s.left w now op).delegations = w.delegations)
    (hgrant : (s.reply w now op).isGrant = false)
    (hrefusal : (s.reply w now op).isRefusal = false) (hop : op.isLookUp = true)
    {delegate : String}
    (hcounts : s.counts w now op =
      if s.caching then [(lookUpCounter w now delegate, 1)] else []) :
    Booked s w [(now, op)] (s.counts w now op) := by
  have hcounter := isLookUp_lookUpCounter w now delegate
  refine booked_of_same hi h hgrant hrefusal (fun c hc => ?_) fun hcaching => ?_
  · rw [hcounts] at hc
    split at hc
    next =>
      rw [List.mem_singleton.1 hc]
      exact hcounter
    next => exact absurd hc List.not_mem_nil
  · rw [hcounts, if_pos hcaching, amountOf_singleton, hcounter, hop]

/-- A grant adds its row or is refused. -/
theorem booked_grant (hi : w.delegations.Indexed) (now : Moment) (id : Uuid) (p : Proposal) :
    Booked s w [(now, .grant id p)] (s.counts w now (.grant id p)) := by
  have hstore : (s.after w [(now, .grant id p)]).delegations = _ :=
    step_delegations s w (now, .grant id p)
  cases hout : s.outcome w now id p with
  | error e =>
    have hleft : (s.left w now (.grant id p)).delegations = w.delegations := by rw [left, hout]
    have hcounts : s.counts w now (.grant id p) = [(.rejected e.kind, 1)] := by
      rw [counts, hout]
      rfl
    refine ⟨?_, ?_, ?_, ?_, fun _ => ?_⟩
    · rw [hcounts, answers_singleton, reply, hout]
      rfl
    · rw [hcounts, answers_singleton, reply, hout]
      rfl
    · rw [hcounts, hstore, hleft]
      rfl
    · rw [hcounts, hstore, hleft, removed_of_same hi hleft, List.append_nil]
      rfl
    · rw [hcounts]
      rfl
  | ok store =>
    obtain ⟨-, hcreate⟩ := outcome_ok_iff.1 hout
    have hleft : (s.left w now (.grant id p)).delegations = store := by rw [left, hout]; rfl
    have hcounts : s.counts w now (.grant id p) = [(.granted p.transitive, 1)] := by
      rw [counts, hout]
      rfl
    have hrows : store.rows = w.delegations.rows ++ [p.granted id now.time] := by
      rw [(Store.create_cases hcreate).2]
    have hremoved : s.removed w [(now, .grant id p)] = [] := by
      rw [removed_singleton]
      refine removedBy_eq_nil fun d hd => ?_
      rw [hleft]
      refine (hi.create hcreate).isSome_find (List.mem_map_of_mem ?_)
      rw [hrows]
      exact List.mem_append_left _ hd
    refine ⟨?_, ?_, ?_, ?_, fun _ => ?_⟩
    · rw [hcounts, answers_singleton, reply, hout]
      rfl
    · rw [hcounts, answers_singleton, reply, hout]
      rfl
    · rw [hcounts, hstore, hleft, Store.size, hrows, List.length_append]
      rfl
    · rw [hcounts, hstore, hleft, hremoved, List.append_nil, hrows, List.countP_append]
      rfl
    · rw [hcounts]
      rfl

/-- A revocation turns one row, if it finds one that has not been revoked. -/
theorem booked_revoke (hi : w.delegations.Indexed) (now : Moment) (id : Uuid) :
    Booked s w [(now, .revoke id)] (s.counts w now (.revoke id)) := by
  -- an unknown id and a row that has been revoked before count for nothing
  have hidle : (s.left w now (.revoke id)).delegations = w.delegations →
      s.counts w now (.revoke id) = [] →
      Booked s w [(now, .revoke id)] (s.counts w now (.revoke id)) := by
    intro hleft hcounts
    refine booked_of_same hi hleft rfl rfl ?_ fun _ => ?_
    · rw [hcounts]
      exact fun c hc => absurd hc List.not_mem_nil
    · rw [hcounts]
      rfl
  cases hrow : w.delegations.find id with
  | none => exact hidle (by rw [left, hrow]) (by rw [counts, hrow])
  | some d =>
    by_cases hstatus : d.status = .revoked
    · refine hidle ?_ ?_
      · rw [left, hrow]
        dsimp only
        rw [if_pos hstatus]
      · rw [counts, hrow]
        exact if_pos hstatus
    · have hcounts : s.counts w now (.revoke id) = [(.revoked, 1)] := by
        rw [counts, hrow]
        exact if_neg hstatus
      have hleft : (s.left w now (.revoke id)).delegations =
          w.delegations.replace (Store.revokedRow d now.time) := by
        rw [left, hrow]
        dsimp only
        rw [if_neg hstatus]
        rfl
      have hstore : (s.after w [(now, .revoke id)]).delegations =
          w.delegations.replace (Store.revokedRow d now.time) :=
        (step_delegations s w (now, .revoke id)).trans hleft
      obtain ⟨front, back, hrows, hrows'⟩ := Store.rows_replace_revokedRow hi hrow now.time
      have hids : (w.delegations.replace (Store.revokedRow d now.time)).rows.map (·.id) =
          w.delegations.rows.map (·.id) := by
        rw [hrows, hrows', List.map_append, List.map_append, List.map_cons, List.map_cons,
          Store.revokedRow_id]
      have hremoved : s.removed w [(now, .revoke id)] = [] := by
        rw [removed_singleton]
        refine removedBy_eq_nil fun row hmem => ?_
        rw [hleft]
        refine (hi.replace_revokedRow hrow now.time).isSome_find ?_
        rw [hids]
        exact List.mem_map_of_mem hmem
      refine ⟨?_, ?_, ?_, ?_, fun _ => ?_⟩
      · rw [hcounts, answers_singleton]
        rfl
      · rw [hcounts, answers_singleton]
        rfl
      · rw [hcounts, hstore, Store.size, Store.size, hrows, hrows']
        simp only [List.length_append, List.length_cons]
        rfl
      · have hbefore : isRevoked d = false := by simpa [isRevoked] using hstatus
        have hafter : isRevoked (Store.revokedRow d now.time) = true := by simp [isRevoked]
        rw [hcounts, hstore, hremoved, List.append_nil, hrows, hrows', List.countP_append,
          List.countP_append, List.countP_cons_of_neg (by simp [hbefore]),
          List.countP_cons_of_pos hafter]
        rfl
      · rw [hcounts]
        rfl

/-- A cleanup removes what it counts. -/
theorem booked_cleanup (hi : w.delegations.Indexed) (now : Moment) :
    Booked s w [(now, .cleanup)] (s.counts w now .cleanup) := by
  have hremoved : s.removed w [(now, .cleanup)] =
      w.delegations.rows.filter (Store.isOverdue w.retention now.time) := by
    rw [removed_singleton, removedBy]
    refine List.filter_congr fun d hd => ?_
    exact Store.isNone_find_cleanup hi w.retention now.time hd
  have hstore : (s.after w [(now, .cleanup)]).delegations =
      (w.delegations.cleanup w.retention now.time).2 := rfl
  -- what is overdue and what is not are all rows, in another order
  have hparts := List.filter_append_perm (Store.isOverdue w.retention now.time)
    w.delegations.rows
  refine ⟨?_, ?_, ?_, ?_, fun _ => rfl⟩
  · rw [answers_singleton]
    rfl
  · rw [answers_singleton]
    rfl
  · rw [hstore, counts, amountOf_singleton, amountOf_singleton]
    have hlength := hparts.length_eq
    rw [List.length_append] at hlength
    show (List.filter _ _).length + (List.filter _ _).length = w.delegations.rows.length + 0
    omega
  · rw [hstore, hremoved, counts, amountOf_singleton]
    exact ((List.perm_append_comm.trans hparts).countP_eq _).symm

/-- **Every operation is booked** by what it counts. -/
theorem booked_step (hi : w.delegations.Indexed) (now : Moment) (op : Op) :
    Booked s w [(now, op)] (s.counts w now op) := by
  cases op with
  | grant id p => exact booked_grant hi now id p
  | revoke id => exact booked_revoke hi now id
  | cleanup => exact booked_cleanup hi now
  | find id => exact booked_of_same hi rfl rfl rfl (fun c hc => absurd hc List.not_mem_nil) fun _ => rfl
  | activeFor delegate => exact booked_lookUp hi rfl rfl rfl rfl rfl
  | permits delegate resource action => exact booked_lookUp hi rfl rfl rfl rfl rfl
  | policies store =>
    exact booked_of_same hi rfl rfl rfl (fun c hc => absurd hc List.not_mem_nil) fun _ => rfl

/-! ## Runs -/

/-- An operation only adds to the journal. -/
theorem exists_step_journal (s : Service) (w : Memory) (e : Moment × Op) :
    ∃ j, (s.step w e).journal = w.journal ++ j ∧ j.counted = s.counts w e.1 e.2 := by
  obtain ⟨j, hj⟩ := perform_run s w e.1 e.2
  have hkept := (left_frame s w e.1 e.2).1
  have hjournal : (s.step w e).journal = w.journal ++ j := by
    unfold step
    rw [hj, ← hkept]
    rfl
  refine ⟨j, hjournal, ?_⟩
  have hcounted := step_counted s w e.1 e.2
  rw [hjournal, Journal.counted_append] at hcounted
  exact List.append_cancel_left hcounted

/-- **A run is booked** by what it adds to the journal. The induction is on the run from its start: what
the first operation leaves is what the rest is booked on. -/
theorem exists_booked (hi : w.delegations.Indexed) (ops : List (Moment × Op)) :
    ∃ j, (s.after w ops).journal = w.journal ++ j ∧ Booked s w ops j.counted := by
  induction ops generalizing w with
  | nil =>
    refine ⟨[], (List.append_nil _).symm, rfl, rfl, rfl, ?_, fun _ => rfl⟩
    exact congrArg (List.countP _) (List.append_nil _).symm
  | cons e ops ih =>
    obtain ⟨first, hfirst, hcounted⟩ := exists_step_journal s w e
    obtain ⟨rest, hrest, hbooked⟩ := ih ((step_changes s w e.1 e.2).indexed hi)
    refine ⟨first ++ rest, ?_, ?_⟩
    · rw [← List.append_assoc, ← hfirst]
      exact hrest
    · rw [Journal.counted_append, hcounted]
      exact (booked_step hi e.1 e.2).cons hbooked

/-- Whether what a run adds to the journal accounts for what it answers and what it leaves on
record. -/
structure Accounted (s : Service) (w : Memory) (ops : List (Moment × Op)) (j : Journal) : Prop where
  /-- Every delegation that was granted is counted. -/
  granted : j.sumOf Counter.isGranted = (s.answers w ops).countP Answer.isGrant
  /-- Every grant that failed is counted. -/
  rejected : j.sumOf Counter.isRejected = (s.answers w ops).countP Answer.isRefusal
  /-- What is on record was granted and has not been cleaned up. -/
  rows : (s.after w ops).delegations.size + j.total .cleaned = j.sumOf Counter.isGranted
  /-- What was ever revoked is still on record as such or was when it was removed. -/
  revoked : j.total .revoked =
    ((s.after w ops).delegations.rows ++ s.removed w ops).countP isRevoked
  /-- Every look-up through the cache is counted. -/
  lookUps : s.caching = true →
    j.total .cacheHit + j.total .cacheMiss + j.total .cacheError = ops.countP (·.2.isLookUp)

/-- **The counters account for every delegation.** -/
theorem accounted (s : Service) {w : Memory} (hempty : w.delegations = .empty)
    (ops : List (Moment × Op)) :
    (∃ j, (s.after w ops).journal = w.journal ++ j ∧ Accounted s w ops j) ∧
      ∀ (w' : Memory) (now : Moment) (id : Uuid) (p : Proposal),
        ((s.grant Memory.backend now id p).run w').2.journal.counted =
          w'.journal.counted ++
            [(grantCounter ((s.grant Memory.backend now id p).run w').1, 1)] := by
  have hi : w.delegations.Indexed := by
    rw [hempty]
    exact Store.indexed_empty
  obtain ⟨j, hj, hbooked⟩ := exists_booked (s := s) hi ops
  refine ⟨⟨j, hj, ?_⟩, grant_counted s⟩
  have hgranted : j.sumOf Counter.isGranted = amountOf Counter.isGranted j.counted :=
    j.sumOf_eq_amountOf fun _ _ => rfl
  have hrejected : j.sumOf Counter.isRejected = amountOf Counter.isRejected j.counted :=
    j.sumOf_eq_amountOf fun _ _ => rfl
  have hcleaned : j.total .cleaned = amountOf (· = .cleaned) j.counted :=
    j.total_eq_amountOf fun _ _ => Counter.noConfusion
  have hrevoked : j.total .revoked = amountOf (· = .revoked) j.counted :=
    j.total_eq_amountOf fun _ _ => Counter.noConfusion
  refine ⟨hgranted.trans hbooked.granted, hrejected.trans hbooked.rejected, ?_, ?_,
    fun hcaching => ?_⟩
  · rw [hcleaned, hgranted, hbooked.rows, hempty]
    exact Nat.zero_add _
  · rw [hrevoked, ← hbooked.revoked, hempty]
    exact (Nat.zero_add _).symm
  · rw [← hbooked.lookUps hcaching, Counter.amountOf_isLookUp,
      j.total_eq_amountOf fun _ _ => Counter.noConfusion,
      j.total_eq_amountOf fun _ _ => Counter.noConfusion,
      j.total_eq_amountOf fun _ _ => Counter.noConfusion]

/-- What the cache holds for bob does not read as a list. -/
def misfiled : Memory :=
  { retention := .days 0
    cache := ((Cache.ofLimits {}).set 100 0 (cacheKey "bob") "scribble" 0).2 }

/-- Bob looks up twice what he holds. Alice may hand on the reading of documents, and mallory may not.
What alice hands on to bob is revoked, revoked again and cleaned up; an unknown id is revoked too. -/
def lentInVain : List (Moment × Op) :=
  [(second 0,
      .policies (PolicyStore.empty.put "main" (.ofRules [.allow "alice" "*" "*"]) false)),
    (second 1, .activeFor "bob"),
    (second 2, .permits "bob" "document:1" "read"),
    (second 3, .grant ⟨1⟩ lendReading),
    (second 4, .grant ⟨2⟩ { lendReading with delegator := "mallory" }),
    (second 5, .grant ⟨3⟩ { lendReading with delegate := "carol", transitive := true }),
    (second 6, .revoke ⟨1⟩),
    (second 7, .revoke ⟨1⟩),
    (second 8, .revoke ⟨2⟩),
    (second 9, .cleanup)]

/-- The books balance of a run with unreadable text in the cache, a refusal and revocations in
vain. -/
theorem lentInVain_accounted :
    misfiled.delegations = .empty ∧
      (after { caching := true } misfiled lentInVain).delegations.size = 1 ∧
      (after { caching := true } misfiled lentInVain).journal.counted =
        [(.cacheError, 1), (.cacheHit, 1), (.granted false, 1), (.rejected "validation", 1),
          (.granted true, 1), (.revoked, 1), (.cleaned, 1)] ∧
      ∃ j, (after { caching := true } misfiled lentInVain).journal = misfiled.journal ++ j ∧
        Accounted { caching := true } misfiled lentInVain j :=
  ⟨rfl, by decide +kernel, by decide +kernel, (accounted { caching := true } rfl lentInVain).1⟩

end Service

end Delegation

end Clearance
