import Clearance.Proofs.Cache
import Clearance.Proofs.Codec.RoundTrip
import Clearance.Proofs.Delegation.Lookup
import Clearance.Proofs.Delegation.Run

/-!
# The cache makes no difference

A service that looks up delegations through a cache answers exactly as one without a cache would,
whatever the cache forgets and whenever (`answers_eq_uncached`).

What carries this is `Coherent`: from now on, and at any later time, a cached list from which what
has run out is struck off is what the store would give. A list that has just been looked up is so by
`Store.Indexed.filter_activeFor`. A grant and a revocation change what one delegate holds, and drop
that delegate's list. A cleanup drops nothing and need not, because it removes only what is over.
That a cached text reads as the list it was written for, or not at all, is assumed (`Faithful`); it
is so for delegations that are well formed and hold no fractions (`faithful_of_wellFormed`).
-/

namespace Clearance.Delegation

open Time (Instant)

/-- Whether two memories hold the same policies and delegations, whatever they have cached or on
record. -/
structure Memory.Alike (w w' : Memory) : Prop where
  policies : w.policies = w'.policies
  delegations : w.delegations = w'.delegations
  retention : w.retention = w'.retention

/-- Whether no text that is written for a list of known delegations reads as another list. -/
def Faithful (known : List Delegation) : Prop :=
  ∀ ds ds', ds.Nodup → ds ⊆ known → readList (writeList ds) = some ds' → ds' = ds

/-- Reading back what has been written, without the text in between. -/
theorem readList_writeList (ds : List Delegation) :
    readList (writeList ds) =
      (match Json.readValue (2 * (Json.arr (ds.map toJson)).chars.length + 2)
          (Json.arr (ds.map toJson)).chars with
        | some (value, rest) => if (Json.skipBlanks rest).isEmpty then some value else none
        | none => none : Option Json).bind (Json.decodeList decode Json.maxLevels) := by
  rw [← String.toList_ofList (l := (Json.arr (ds.map toJson)).chars)]
  rfl

/-- With one known delegation there are two lists to write. -/
theorem faithful_singleton {d : Delegation} (hempty : readList (writeList []) = some [])
    (hone : readList (writeList [d]) = some [d]) : Faithful [d] := by
  intro ds ds' hnodup hknown htext
  cases ds with
  | nil => exact Option.some.inj (htext.symm.trans hempty)
  | cons first rest =>
    obtain rfl := List.mem_singleton.1 (hknown (List.mem_cons_self ..))
    obtain rfl : rest = [] := by
      refine List.eq_nil_iff_forall_not_mem.2 fun d hd => ?_
      obtain rfl := List.mem_singleton.1 (hknown (List.mem_cons_of_mem _ hd))
      exact (List.nodup_cons.1 hnodup).1 hd
    exact Option.some.inj (htext.symm.trans hone)

/-- Lists of well-formed delegations without fractions read as they were written. -/
theorem faithful_of_wellFormed {known : List Delegation} (h : ∀ d ∈ known, d.WellFormed)
    (hwhole : ∀ d ∈ known, d.toJson.all Json.isWhole = true)
    (hdepth : ∀ d ∈ known, d.toJson.depth < Json.maxLevels) : Faithful known := by
  intro ds ds' _ hknown htext
  have hback := readList_of_wellFormed (fun d hd => h d (hknown hd))
    (fun d hd => hwhole d (hknown hd)) fun d hd => hdepth d (hknown hd)
  exact Option.some.inj (htext.symm.trans hback)

/-- Each delegate's list is cached under a key of its own. -/
theorem cacheKey_inj {k k' : String} : cacheKey k = cacheKey k' ↔ k = k' :=
  String.append_right_inj _

/-- The delegation that an operation may put on record. -/
def Op.row? (now : Moment) : Op → Option Delegation
  | .grant id p => some (p.granted id now.time)
  | _ => none

namespace Service

variable {s : Service} {w w' : Memory} {now : Moment} {t t' : Instant} {k : String}
  {known : List Delegation} {o : Outage}

/-- The service without its cache. -/
def uncached (s : Service) : Service := { s with caching := false }

/-- The answers of a run, one for each operation. -/
def answers (s : Service) (w : Memory) : List (Moment × Op) → List Answer
  | [] => []
  | e :: ops => ((s.perform e.1 e.2).run w).1 :: answers s (s.step w e) ops

/-- Every delegation that may be on record in the course of a run. -/
def everOnRecord (w : Memory) (ops : List (Moment × Op)) : List Delegation :=
  w.delegations.rows ++ ops.filterMap fun e => e.2.row? e.1

/-! ## Operations on memories alike -/

/-- The checks of a grant read the stores and not the cache. -/
theorem verdict_uncached (h : w.Alike w') (now : Moment) (p : Proposal) :
    s.uncached.verdict w' now p = s.verdict w now p := by
  have hvalidator : ∀ delegator context pairs,
      s.validator.verdict w' now.time delegator context pairs =
        s.validator.verdict w now.time delegator context pairs := by
    intro delegator context pairs
    unfold Validator.verdict Validator.holds Validator.heldByDelegation
    rw [h.policies, h.delegations]
  unfold verdict
  rw [checkChain_congr (by rw [h.delegations]), ← hvalidator]
  rfl

/-- What a grant comes to does not depend on the cache. -/
theorem outcome_uncached (h : w.Alike w') (now : Moment) (id : Uuid) (p : Proposal) :
    s.uncached.outcome w' now id p = s.outcome w now id p := by
  unfold outcome
  rw [verdict_uncached h, h.delegations]

/-- On memories alike the answers are the same if look-ups give what is in the store. -/
theorem reply_uncached (h : w.Alike w')
    (hheld : ∀ k, s.held w now k = w.delegations.activeFor now.time k) (op : Op) :
    s.uncached.reply w' now op = s.reply w now op := by
  have hstore : ∀ k, s.uncached.held w' now k = s.held w now k := by
    intro k
    rw [hheld, h.delegations]
    rfl
  cases op with
  | grant id p => rw [reply, reply, outcome_uncached h]
  | revoke id => rw [reply, reply, h.delegations]
  | cleanup => rw [reply, reply, h.delegations, h.retention]
  | find id => rw [reply, reply, h.delegations]
  | activeFor delegate => rw [reply, reply, hstore]
  | permits delegate resource action => rw [reply, reply, hstore]
  | policies store => rfl

/-- Memories alike stay alike. -/
theorem left_alike (h : w.Alike w') (now : Moment) (op : Op) :
    (s.left w now op).Alike (s.uncached.left w' now op) := by
  cases op with
  | grant id p =>
    rw [left, left, outcome_uncached h]
    cases s.outcome w now id p with
    | error e => exact h
    | ok store => exact ⟨h.policies, rfl, h.retention⟩
  | revoke id =>
    rw [left, left, ← h.delegations]
    cases w.delegations.find id with
    | none => exact h
    | some d =>
      dsimp only
      split
      next => exact h
      next => exact ⟨h.policies, rfl, h.retention⟩
  | cleanup =>
    refine ⟨h.policies, ?_, h.retention⟩
    show (w.delegations.cleanup w.retention now.time).2 = _
    rw [h.delegations, h.retention]
    rfl
  | find id => exact h
  | activeFor delegate => exact ⟨h.policies, h.delegations, h.retention⟩
  | permits delegate resource action => exact ⟨h.policies, h.delegations, h.retention⟩
  | policies store => exact ⟨rfl, h.delegations, h.retention⟩

/-! ## What is cached -/

/-- A list that is cached after a change of the store was there before, and has not been dropped. -/
theorem value?_storing {store : Store} {key text : String}
    (h : (s.storing w store k).cache.value? key = some text) :
    w.cache.value? key = some text ∧ (s.caching = true → key ≠ cacheKey k) := by
  unfold storing at h
  dsimp only at h
  split at h
  next =>
    obtain ⟨hkey, htext⟩ := Cache.value?_delete h
    exact ⟨htext, fun _ => hkey⟩
  next hcaching => exact ⟨h, fun hc => absurd hc hcaching⟩

/-- What is cached after a look-up was cached before, or is what the store gives. -/
theorem value?_cacheAmid {key text : String}
    (h : (s.cacheAmid o w now k).value? key = some text) :
    w.cache.value? key = some text ∨
      key = cacheKey k ∧ text = writeList (w.delegations.activeFor now.time k) := by
  have hfiled : ∀ c : Cache String, (s.filing o w now k c).value? key = some text →
      c.value? key = some text ∨
        key = cacheKey k ∧ text = writeList (w.delegations.activeFor now.time k) := by
    intro c h
    unfold filing at h
    split at h
    next => exact (Cache.value?_set h).symm
    next => exact .inl h
  unfold cacheAmid at h
  split at h
  next =>
    split at h
    next =>
      split at h
      next => exact .inl (Cache.value?_get h)
      next => exact (hfiled _ h).imp_left Cache.value?_get
    next => exact hfiled _ h
  next => exact .inl h

/-! ## Coherence -/

/-- Whether from a time on every cached list gives what the store would give. -/
def Coherent (t : Instant) (w : Memory) : Prop :=
  ∀ k text ds, w.cache.value? (cacheKey k) = some text → readList text = some ds →
    ∀ t', t ≤ t' → ds.filter (·.isActiveAt t') = w.delegations.activeFor t' k

/-- What gives the right list from a time on gives it from any later time on. -/
theorem Coherent.later (h : Coherent t w) (ht : t ≤ t') : Coherent t' w :=
  fun k text ds htext hds t'' ht'' => h k text ds htext hds t'' (Int.le_trans ht ht'')

/-- With a coherent cache a look-up gives what is in the store. -/
theorem Coherent.held (h : s.caching = true → Coherent now.time w) (k : String) :
    s.held w now k = w.delegations.activeFor now.time k := by
  unfold Service.held
  split
  next hcaching =>
    cases hlist : cachedList w now k with
    | none => rfl
    | some ds =>
      obtain ⟨text, htext, hds⟩ := Option.bind_eq_some_iff.1 hlist
      exact h hcaching k text ds (Cache.value?_of_get htext) hds now.time (Int.le_refl _)
  next => rfl

/-- Dropping the list of the one delegate whose delegations change keeps the cache coherent. -/
theorem Coherent.storing (hcaching : s.caching = true) (h : Coherent t w) {store : Store}
    (hothers : ∀ k' ≠ k, ∀ t', store.activeFor t' k' = w.delegations.activeFor t' k') :
    Coherent t (s.storing w store k) := by
  intro k' text ds htext hds t' ht'
  obtain ⟨htext, hdropped⟩ := value?_storing htext
  have hk : k' ≠ k := fun hk => hdropped hcaching (congrArg cacheKey hk)
  rw [h k' text ds htext hds t' ht']
  exact (hothers k' hk t').symm

/-- What is found active is known. -/
theorem Known.activeFor_subset (h : Known known w) (hi : w.delegations.Indexed) :
    w.delegations.activeFor t k ⊆ known := by
  intro d hd
  obtain ⟨hrow, hactive, -⟩ := hi.mem_activeFor.1 hd
  exact h.of_isActiveAt hrow hactive

/-- A look-up keeps the cache coherent: what it adds is what is in the store. -/
theorem Coherent.lookUp (h : Coherent now.time w) (hi : w.delegations.Indexed)
    (hfaithful : Faithful known) (hknown : Known known w) (k : String) :
    Coherent now.time { w with cache := s.cacheAfter w now k } := by
  intro k' text ds htext hds t' ht'
  show _ = w.delegations.activeFor t' k'
  rcases value?_cacheAmid (o := {}) htext with htext | ⟨hk, rfl⟩
  · exact h k' text ds htext hds t' ht'
  · -- the list just written, which later times only strike rows off
    obtain rfl := cacheKey_inj.1 hk
    have hsame : ds = w.delegations.activeFor now.time k' :=
      hfaithful _ ds hi.nodup_activeFor (hknown.activeFor_subset hi) hds
    rw [hsame]
    exact hi.filter_activeFor ht' k'

/-- Every operation keeps the cache coherent. -/
theorem Coherent.left (hcaching : s.caching = true) (h : Coherent now.time w)
    (hi : w.delegations.Indexed) (hfaithful : Faithful known) (hknown : Known known w) (op : Op) :
    Coherent now.time (s.left w now op) := by
  cases op with
  | grant id p =>
    rw [Service.left]
    cases hout : s.outcome w now id p with
    | error e => exact h
    | ok store =>
      obtain ⟨-, hcreate⟩ := outcome_ok_iff.1 hout
      exact h.storing hcaching fun k' hk t' => hi.activeFor_create hcreate hk
  | revoke id =>
    rw [Service.left]
    cases hrow : w.delegations.find id with
    | none => exact h
    | some d =>
      dsimp only
      split
      next => exact h
      next => exact h.storing hcaching fun k' hk t' => hi.activeFor_replace_revokedRow hrow hk
  | cleanup =>
    -- the lists stay in the cache although rows have gone from the store
    intro k text ds htext hds t' ht'
    rw [h k text ds htext hds t' ht']
    exact (hi.activeFor_cleanup w.retention ht').symm
  | find id => exact h
  | activeFor delegate => exact h.lookUp hi hfaithful hknown delegate
  | permits delegate resource action => exact h.lookUp hi hfaithful hknown delegate
  | policies store => exact h

/-- What an operation grants is the row that it may put on record. -/
theorem row?_of_reply {op : Op} {d : Delegation} (h : s.reply w now op = .granted (.ok d)) :
    op.row? now = some d := by
  obtain ⟨id, p, rfl, -, rfl⟩ := granted_of_reply h
  rfl

/-! ## Runs -/

/-- How a memory compares to that of the same run without a cache. -/
structure Shadowed (s : Service) (known : List Delegation) (t : Instant) (w w' : Memory) : Prop where
  alike : w.Alike w'
  indexed : w.delegations.Indexed
  known : Known known w
  coherent : s.caching = true → Coherent t w

theorem Shadowed.later (h : Shadowed s known t w w') (ht : t ≤ t') : Shadowed s known t' w w' :=
  ⟨h.alike, h.indexed, h.known, fun hcaching => (h.coherent hcaching).later ht⟩

/-- One operation gives the same answer with and without a cache, and leaves memories that still
compare. -/
theorem Shadowed.step (h : Shadowed s known now.time w w') (hfaithful : Faithful known) {op : Op}
    (hop : ∀ d, op.row? now = some d → d ∈ known) :
    ((s.perform now op).run w).1 = ((s.uncached.perform now op).run w').1 ∧
      Shadowed s known now.time (s.step w (now, op)) (s.uncached.step w' (now, op)) := by
  obtain ⟨j, hj⟩ := perform_run s w now op
  obtain ⟨j', hj'⟩ := perform_run s.uncached w' now op
  unfold Service.step
  rw [hj, hj']
  refine ⟨(reply_uncached h.alike (Coherent.held h.coherent) op).symm, ?_⟩
  have halike := left_alike (s := s) h.alike now op
  exact
    { alike := ⟨halike.policies, halike.delegations, halike.retention⟩
      indexed := (left_changes s w now op).indexed h.indexed
      known := h.known.left fun d hd => hop d (row?_of_reply hd)
      coherent := fun hcaching =>
        (h.coherent hcaching).left hcaching h.indexed hfaithful h.known op }

/-- Along a run the answers stay the same. The induction is on the run from its start: what the
first operation leaves is what the rest starts from. -/
theorem Shadowed.answers_eq (hfaithful : Faithful known) {ops : List (Moment × Op)} {t : Instant}
    {w w' : Memory} (h : Shadowed s known t w w') (ht : ∀ e ∈ ops, t ≤ e.1.time)
    (hclock : ops.Pairwise (·.1.time ≤ ·.1.time))
    (hknown : ∀ e ∈ ops, ∀ d, e.2.row? e.1 = some d → d ∈ known) :
    s.answers w ops = s.uncached.answers w' ops := by
  induction ops generalizing t w w' with
  | nil => rfl
  | cons e ops ih =>
    obtain ⟨hlater, hrest⟩ := List.pairwise_cons.1 hclock
    have hnow := h.later (ht e (List.mem_cons_self ..))
    obtain ⟨hanswer, hnext⟩ := hnow.step hfaithful (hknown e (List.mem_cons_self ..))
    have hrun := ih hnext hlater hrest fun e' he' => hknown e' (List.mem_cons_of_mem _ he')
    show _ :: _ = _ :: _
    rw [hanswer, hrun]

/-- **The cache is invisible.** A service answers every run of operations as it would without its
cache over an equal store: the same delegations in the same order, the same refusals. The cache may
be of any size, keep its texts for any time and hold anything at the start that does not read as a
list; the calendar must never go back, the store's index must be right, as it is in every store that
operations have led to, and no text of a list of delegations may read as another list. -/
theorem answers_eq_uncached (s : Service) {w w' : Memory} (halike : w.Alike w')
    (hi : w.delegations.Indexed)
    (hcold : ∀ key text, w.cache.value? key = some text → readList text = none)
    {ops : List (Moment × Op)} (hclock : ops.Pairwise (·.1.time ≤ ·.1.time))
    (hfaithful : Faithful (everOnRecord w ops)) :
    s.answers w ops = s.uncached.answers w' ops := by
  cases ops with
  | nil => rfl
  | cons e ops =>
    have hstart : Shadowed s (everOnRecord w (e :: ops)) e.1.time w w' :=
      { alike := halike
        indexed := hi
        known := fun d hd _ => List.mem_append_left _ hd
        coherent := fun _ k text ds htext hds => by
          rw [hcold _ text htext] at hds
          exact absurd hds (by simp) }
    have ht : ∀ e' ∈ e :: ops, e.1.time ≤ e'.1.time := by
      intro e' he'
      rcases List.mem_cons.1 he' with rfl | he'
      · exact Int.le_refl _
      · exact (List.pairwise_cons.1 hclock).1 e' he'
    refine hstart.answers_eq hfaithful ht hclock ?_
    intro e' he' d hd
    exact List.mem_append_right _ (List.mem_filterMap.2 ⟨e', he', hd⟩)

/-- Alice may hand on the reading of documents. -/
def lendReading : Proposal :=
  { delegator := "alice", delegate := "bob", scope := ⟨["document:*"], ["read"], none⟩ }

/-- Bob looks up what he holds before and after alice hands reading on to him, and once more after
she has taken it back. -/
def lentAndTakenBack : List (Moment × Op) :=
  [(second 0,
      .policies (PolicyStore.empty.put "main" (.ofRules [.allow "alice" "*" "*"]) false)),
    (second 1, .activeFor "bob"),
    (second 2, .grant ⟨1⟩ lendReading),
    (second 3, .permits "bob" "document:1" "read"),
    (second 4, .cleanup),
    (second 5, .activeFor "bob"),
    (second 6, .revoke ⟨1⟩),
    (second 7, .permits "bob" "document:1" "read")]

/-- The list of what alice lends reads as it was written. -/
theorem lentAndTakenBack_faithful : Faithful (everOnRecord {} lentAndTakenBack) := by
  refine faithful_singleton (d := lendReading.granted ⟨1⟩ (second 2).time) ?_ ?_
  · decide +kernel
  · -- evaluating a long text is slow, so only its characters are
    rw [readList_writeList]
    decide +kernel

/-- A run in which a list is cached, used and dropped answers as without a cache. -/
theorem lentAndTakenBack_answers :
    lentAndTakenBack.Pairwise (·.1.time ≤ ·.1.time) ∧
      Faithful (everOnRecord {} lentAndTakenBack) ∧
      (after { caching := true } {} (lentAndTakenBack.take 4)).cache.value? (cacheKey "bob") ≠ none ∧
      answers { caching := true } {} lentAndTakenBack =
        answers (uncached { caching := true }) {} lentAndTakenBack := by
  have hclock : lentAndTakenBack.Pairwise (·.1.time ≤ ·.1.time) := by decide
  have hcold : ∀ key text, ({} : Memory).cache.value? key = some text → readList text = none := by
    intro key text htext
    exact absurd (show none = some text from htext) (by simp)
  exact ⟨hclock, lentAndTakenBack_faithful, by decide +kernel,
    answers_eq_uncached { caching := true } ⟨rfl, rfl, rfl⟩ Store.indexed_empty hcold hclock
      lentAndTakenBack_faithful⟩

end Service

end Clearance.Delegation
