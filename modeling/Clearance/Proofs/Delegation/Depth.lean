import Clearance.Proofs.Delegation.Acyclic
import Clearance.Proofs.Delegation.Fate
import Clearance.Proofs.Delegation.Grounded

/-!
# How long chains get

The limit on chains is a limit on what stands behind a delegator at the moment of a grant. It bounds
the shortest way back to everybody who stands there (`nearest_le_of_verdict`). What is on record later
need not respect it: a chain can grow at its front, where nothing stands behind the delegator, and a
long chain passes if a shorter one runs beside it (`longChains`).

What is left of the limit is `limited_behind_last`. On a path of active delegations of which the last
was recorded after the others, the others were all there when it was granted, so its delegator had a
chain within the limit then, and the path can exceed the limit by one only if a shorter way bypassed
it. That the rows stand in the order in which they were granted, and that what is active stands there
as it was granted, is kept along a run (`Founded`).
-/

namespace Clearance.Delegation

open Time (Instant)

section Distance

variable {up : String → List Delegation} {start x : String} {limit j k left : Nat} {delegate : String}

/-- Whoever stands behind a party has a shortest way there. -/
theorem exists_nearest (h : Behind up start j x) : ∃ k ≤ j, Nearest up start k x := by
  induction j using Nat.strongRecOn with
  | ind j ih =>
    by_cases hshorter : ∃ i < j, Behind up start i x
    · obtain ⟨i, hi, hx⟩ := hshorter
      obtain ⟨k, hk, hnear⟩ := ih i hi hx
      exact ⟨k, by omega, hnear⟩
    · exact ⟨j, Nat.le_refl j, h, fun i hi hx => hshorter ⟨i, hi, hx⟩⟩

/-- The shortest way is no longer than any other. -/
theorem Nearest.le (h : Nearest up start k x) (hx : Behind up start j x) : k ≤ j := by
  by_cases hlt : j < k
  · exact absurd hx (h.2 j hlt)
  · omega

/-- Where a walk passes, everyone behind the delegator stands within the limit. -/
theorem Answers.within (h : Answers up start delegate limit k left (.ok ()))
    (hx : Behind up start j x) : Within up start (k + left) x := by
  cases h with
  | ok hle _ hend =>
    obtain ⟨i, hi, hbehind⟩ := within_of_none_nearest hend hx
    exact ⟨i, by omega, hbehind⟩

end Distance

/-- Whether one delegation hands on from where another ends. -/
def Follows (d d' : Delegation) : Prop := d.delegate = d'.delegator

instance (d d' : Delegation) : Decidable (Follows d d') := inferInstanceAs (Decidable (_ = _))

namespace Store

variable {s : Store} {t : Instant}

/-- Whether delegations form a path of what is active at a time and may be handed on. -/
structure Path (s : Store) (t : Instant) (path : List Delegation) : Prop where
  onRecord : ∀ d ∈ path, d ∈ s.rows
  active : ∀ d ∈ path, d.isActiveAt t = true
  transitive : ∀ d ∈ path, d.transitive = true
  linked : path.IsChain Follows

/-- The first delegator of a path stands as many steps behind the last as the path has links. -/
theorem Indexed.behind_of_linked (hi : s.Indexed) {path : List Delegation} {last : Delegation}
    (hpath : ∀ d ∈ path, d ∈ s.rows ∧ d.isActiveAt t = true)
    (hlinked : (path ++ [last]).IsChain Follows) {first : Delegation}
    (hfirst : (path ++ [last]).head? = some first) :
    Behind (s.activeFor t) last.delegator path.length first.delegator := by
  induction path generalizing first with
  | nil =>
    rw [← Option.some.inj hfirst]
    exact rfl
  | cons d path ih =>
    obtain rfl : d = first := Option.some.inj hfirst
    obtain ⟨next, hnext⟩ : ∃ next, (path ++ [last]).head? = some next := by
      cases path with
      | nil => exact ⟨last, rfl⟩
      | cons d' path => exact ⟨d', rfl⟩
    rw [List.cons_append, List.isChain_cons] at hlinked
    obtain ⟨hlink, hrest⟩ := hlinked
    -- one link more leads one step further back
    have hbehind := ih (fun d' hd' => hpath d' (List.mem_cons_of_mem d hd')) hrest hnext
    obtain ⟨hrow, hactive⟩ := hpath d (List.mem_cons_self ..)
    exact ⟨next.delegator, hbehind, d,
      hi.mem_activeFor.2 ⟨hrow, hactive, hlink next hnext⟩, rfl⟩

end Store

namespace Service

variable {s : Service} {w : Memory} {now : Moment} {ops : List (Moment × Op)} {log : List Grant}

/-- **The limit on chains**: behind the delegator of something that may be handed on, the shortest way
back to anybody is within the limit. -/
theorem nearest_le_of_verdict {p : Proposal} (hverdict : s.verdict w now p = .ok ())
    (htransitive : p.transitive = true) {k : Nat} {x : String}
    (hx : Nearest (w.delegations.activeFor now.time) p.delegator k x) : k ≤ s.maxChainDepth := by
  obtain ⟨hcheck, hchain, -⟩ := verdict_ok_iff.1 hverdict
  obtain ⟨r, hr, hanswer⟩ := checkChain_on w now s.maxChainDepth (check_ne hcheck)
  have hok := hchain htransitive
  rw [hr] at hok
  obtain rfl : r = .ok () := hok
  obtain ⟨i, hi, hbehind⟩ := hanswer.within hx.1
  have hle := hx.le hbehind
  omega

/-- Whether a grant has passed its checks, on a store in order, at a moment of a run. -/
structure Passed (s : Service) (ops : List (Moment × Op)) (g : Grant) : Prop where
  indexed : g.before.delegations.Indexed
  inRun : ∃ e ∈ ops, g.now = e.1
  proposal : ∃ id p, s.verdict g.before g.now p = .ok () ∧ g.row = p.granted id g.now.time

/-- What is granted in a run has passed the checks of its moment. -/
theorem passed_of_mem_grants (hi : w.delegations.Indexed) {g : Grant} (hg : g ∈ s.grants w ops) :
    Passed s ops g := by
  induction ops generalizing w with
  | nil => exact absurd hg List.not_mem_nil
  | cons e ops ih =>
    rcases List.mem_append.1 hg with hfirst | hrest
    · obtain ⟨id, p, hverdict, rfl⟩ := granted?_eq_some (Option.mem_toList.1 hfirst)
      exact ⟨hi, ⟨e, List.mem_cons_self .., rfl⟩, id, p, hverdict, rfl⟩
    · have hpassed := ih ((step_changes s w e.1 e.2).indexed hi) hrest
      obtain ⟨e', he', hnow⟩ := hpassed.inRun
      exact ⟨hpassed.indexed, ⟨e', List.mem_cons_of_mem e he', hnow⟩, hpassed.proposal⟩

/-- Whether each active row was granted when the active rows above it were on record already. -/
def Founded (log : List Grant) (rows : List Delegation) : Prop :=
  ∀ earlier d later, rows = earlier ++ d :: later → d.status = .active →
    ∃ g ∈ log, g.row = d ∧ ∀ d' ∈ earlier, d'.status = .active → d' ∈ g.before.delegations.rows

theorem founded_nil (log : List Grant) : Founded log [] :=
  fun _ _ _ h => absurd h.symm (List.append_ne_nil_of_right_ne_nil _ (List.cons_ne_nil _ _))

/-- Rows that a log founds are founded by any longer log. -/
theorem Founded.mono {log' : List Grant} {rows : List Delegation} (h : Founded log rows)
    (hlog : log ⊆ log') : Founded log' rows := by
  intro earlier d later hrows hstatus
  obtain ⟨g, hg, hrest⟩ := h earlier d later hrows hstatus
  exact ⟨g, hlog hg, hrest⟩

/-- Taking rows away leaves the others in order. -/
theorem Founded.sublist {rows rows' : List Delegation} (h : Founded log rows)
    (hsub : rows'.Sublist rows) : Founded log rows' := by
  intro earlier d later hrows hstatus
  rw [hrows] at hsub
  obtain ⟨front, back, rfl, hfront, hback⟩ := List.append_sublist_iff.1 hsub
  obtain ⟨between, back', rfl, hd, -⟩ := List.cons_sublist_iff.1 hback
  -- what stood between has gone, or is still above the row
  obtain ⟨between, rest, rfl⟩ := List.append_of_mem hd
  obtain ⟨g, hg, hrow, hbefore⟩ := h (front ++ between) d (rest ++ back')
    (by simp only [List.append_assoc, List.cons_append]) hstatus
  exact ⟨g, hg, hrow, fun d' hd' => hbefore d' (List.mem_append_left _ (hfront.subset hd'))⟩

/-- Turning rows into what is not active leaves the others in order. -/
theorem Founded.map {rows : List Delegation} (h : Founded log rows) {f : Delegation → Delegation}
    (hf : ∀ d, (f d).status = .active → f d = d) : Founded log (rows.map f) := by
  intro earlier d later hrows hstatus
  obtain ⟨front, back, rfl, rfl, hback⟩ := List.map_eq_append_iff.1 hrows
  obtain ⟨old, back, rfl, rfl, rfl⟩ := List.map_eq_cons_iff.1 hback
  have hold := hf old hstatus
  rw [hold] at hstatus ⊢
  obtain ⟨g, hg, hrow, hbefore⟩ := h front old back rfl hstatus
  refine ⟨g, hg, hrow, fun d' hd' hactive => ?_⟩
  obtain ⟨old', hmem, rfl⟩ := List.mem_map.1 hd'
  have hold' := hf old' hactive
  rw [hold'] at hactive ⊢
  exact hbefore old' hmem hactive

/-- What is granted comes last, when all other rows are there. -/
theorem Founded.concat {d : Delegation} (h : Founded log w.delegations.rows) :
    Founded (log ++ [⟨d, now, w⟩]) (w.delegations.rows ++ [d]) := by
  intro earlier d' later hrows hstatus
  rcases List.eq_nil_or_concat later with rfl | ⟨later, last, rfl⟩
  · -- the row just granted, and above it all that was there before
    obtain ⟨rfl, hlast⟩ := List.append_inj' hrows rfl
    refine ⟨_, List.mem_append_right _ (List.mem_singleton.2 rfl), ?_, fun d hd _ => hd⟩
    exact (List.cons.inj hlast).1
  · rw [List.concat_eq_append, ← List.cons_append, ← List.append_assoc] at hrows
    obtain ⟨hold, -⟩ := List.append_inj' hrows rfl
    obtain ⟨g, hg, hrest⟩ := h earlier d' later hold hstatus
    exact ⟨g, List.mem_append_left _ hg, hrest⟩

/-- Each step adds to the log what it grants, so the rows stay founded. -/
theorem Founded.step (h : Founded log w.delegations.rows) (now : Moment) (op : Op) :
    Founded (log ++ (s.granted? w (now, op)).toList) (s.step w (now, op)).delegations.rows := by
  rw [step_delegations]
  have hmore : Founded (log ++ (s.granted? w (now, op)).toList) w.delegations.rows :=
    h.mono (List.subset_append_left ..)
  cases op with
  | grant id p =>
    show Founded _ (s.left w now (.grant id p)).delegations.rows
    rw [left]
    cases hout : s.outcome w now id p with
    | error e => exact hmore
    | ok store =>
      obtain ⟨-, hcreate⟩ := outcome_ok_iff.1 hout
      obtain ⟨-, rfl⟩ := Store.create_cases hcreate
      rw [granted?_of_reply (d := p.granted id now.time) (by rw [reply, hout]; rfl)]
      exact h.concat
  | revoke id =>
    show Founded _ (s.left w now (.revoke id)).delegations.rows
    rw [left]
    cases w.delegations.find id with
    | none => exact hmore
    | some row =>
      dsimp only
      split
      next => exact hmore
      next =>
        refine hmore.map fun d hactive => ?_
        split at hactive
        next => exact absurd (hactive.symm.trans (Store.revokedRow_status ..)) (by decide)
        next hid => exact if_neg hid
  | cleanup => exact hmore.sublist List.filter_sublist
  | find id => exact hmore
  | activeFor delegate => exact hmore
  | permits delegate resource action => exact hmore
  | policies store => exact hmore

/-- Along a run the rows stay in the order of the grants. -/
theorem Founded.after (h : Founded log w.delegations.rows) (ops : List (Moment × Op)) :
    Founded (log ++ s.grants w ops) (s.after w ops).delegations.rows := by
  induction ops generalizing log w with
  | nil => simpa [grants, Service.after] using h
  | cons e ops ih =>
    rw [grants, ← List.append_assoc]
    exact ih (h.step e.1 e.2)

/-- **What the limit bounds.** Take a path of active delegations that may be handed on, at any time
after a run on an empty store, and let its last be recorded after the others. When the last was
granted, all others were on record and active, and the shortest way back from its delegator to where
the path begins was within the limit. So a path that exceeds the limit by more than the last
delegation had a shorter way running beside it when it was completed. -/
theorem limited_behind_last (s : Service) {w : Memory} (hempty : w.delegations = .empty)
    {ops : List (Moment × Op)} {t : Instant} (ht : ∀ e ∈ ops, e.1.time ≤ t)
    {path : List Delegation} {first last : Delegation}
    (hpath : (s.after w ops).delegations.Path t (path ++ [last]))
    (hfirst : (path ++ [last]).head? = some first) {earlier later : List Delegation}
    (hrows : (s.after w ops).delegations.rows = earlier ++ last :: later)
    (hearlier : path ⊆ earlier) :
    ∃ g ∈ s.grants w ops, g.row = last ∧
      (∀ d ∈ path, d ∈ g.before.delegations.rows ∧ d.isActiveAt g.now.time = true) ∧
      ∃ k, Nearest (g.before.delegations.activeFor g.now.time) last.delegator k first.delegator ∧
        k ≤ s.maxChainDepth ∧ k ≤ path.length := by
  have hindexed : w.delegations.Indexed := by
    rw [hempty]
    exact Store.indexed_empty
  have hfounded : Founded (s.grants w ops) (s.after w ops).delegations.rows := by
    have hstart : Founded [] w.delegations.rows := by
      rw [hempty]
      exact founded_nil []
    exact hstart.after ops
  have hstatus : ∀ d ∈ path ++ [last], d.status = .active := by
    intro d hd
    simpa using (Bool.and_eq_true_iff.1 (hpath.active d hd)).1
  have hlast : last ∈ path ++ [last] := List.mem_append_right _ (List.mem_singleton.2 rfl)
  obtain ⟨g, hg, hrow, hbefore⟩ := hfounded earlier last later hrows (hstatus last hlast)
  have hpassed := passed_of_mem_grants hindexed hg
  have hnow : g.now.time ≤ t := by
    obtain ⟨e, he, hnow⟩ := hpassed.inRun
    rw [hnow]
    exact ht e he
  -- what is active at the end was so all the time since it was granted
  have hthere : ∀ d ∈ path, d ∈ g.before.delegations.rows ∧ d.isActiveAt g.now.time = true := by
    intro d hd
    have hmem : d ∈ path ++ [last] := List.mem_append_left _ hd
    exact ⟨hbefore d (hearlier hd) (hstatus d hmem), isActiveAt_of_le hnow (hpath.active d hmem)⟩
  have hbehind := hpassed.indexed.behind_of_linked hthere hpath.linked hfirst
  obtain ⟨k, hk, hnear⟩ := exists_nearest hbehind
  refine ⟨g, hg, hrow, hthere, k, hnear, ?_, hk⟩
  obtain ⟨id, p, hverdict, hgranted⟩ := hpassed.proposal
  have htransitive : p.transitive = true := by
    have htrans := hpath.transitive last hlast
    rw [← hrow, hgranted] at htrans
    exact htrans
  have hdelegator : last.delegator = p.delegator := by
    rw [← hrow, hgranted]
    rfl
  rw [hdelegator] at hnear
  exact nearest_le_of_verdict hverdict htransitive hnear

/-- Everybody may do everything. -/
def allAllowed : Moment × Op :=
  (second 0, .policies (PolicyStore.empty.put "main" (.ofRules [.allow "*" "*" "*"]) false))

/-- Bob and carol hand everything on, one after the other. -/
def handedOn : List (Moment × Op) :=
  [allAllowed,
    (second 1, .grant ⟨1⟩ (everything "bob" "carol")),
    (second 2, .grant ⟨2⟩ (everything "carol" "dave"))]

/-- Dave's delegation is within the limit of one step, because one delegation stands behind carol
when she grants it. -/
theorem handedOn_limited :
    (∀ e ∈ handedOn, e.1.time ≤ (second 3).time) ∧
      ∃ first last, (after { maxChainDepth := 1 } {} handedOn).delegations.rows = [first, last] ∧
        ∃ g ∈ grants { maxChainDepth := 1 } {} handedOn, g.row = last ∧
          (∀ d ∈ [first], d ∈ g.before.delegations.rows ∧ d.isActiveAt g.now.time = true) ∧
          ∃ k, Nearest (g.before.delegations.activeFor g.now.time) last.delegator k
            first.delegator ∧ k ≤ 1 ∧ k ≤ 1 := by
  have ht : ∀ e ∈ handedOn, e.1.time ≤ (second 3).time := by decide
  have hrows : (after { maxChainDepth := 1 } {} handedOn).delegations.rows =
      [(everything "bob" "carol").granted ⟨1⟩ (second 1).time] ++
        (everything "carol" "dave").granted ⟨2⟩ (second 2).time :: [] := by
    decide +kernel
  have hpath : (after { maxChainDepth := 1 } {} handedOn).delegations.Path (second 3).time
      ([(everything "bob" "carol").granted ⟨1⟩ (second 1).time] ++
        [(everything "carol" "dave").granted ⟨2⟩ (second 2).time]) := by
    refine ⟨?_, by decide, by decide, by decide⟩
    rw [hrows]
    exact fun d hd => hd
  exact ⟨ht, _, _, hrows,
    limited_behind_last { maxChainDepth := 1 } rfl ht hpath rfl hrows (List.Subset.refl _)⟩

/-- Whether no path of active delegations that may be handed on has more than one delegation beyond the
limit. -/
def Shallow (s : Service) (w : Memory) (t : Instant) : Prop :=
  ∀ path, w.delegations.Path t path → path.length ≤ s.maxChainDepth + 1

/-- A chain that is granted from its end. Behind each delegator stands nobody. -/
def grownAtFront : List (Moment × Op) :=
  [allAllowed,
    (second 1, .grant ⟨1⟩ (everything "carol" "dave")),
    (second 2, .grant ⟨2⟩ (everything "bob" "carol")),
    (second 3, .grant ⟨3⟩ (everything "alice" "bob"))]

/-- A chain that is granted from its beginning. Alice stands one step behind carol, and two. -/
def bypassed : List (Moment × Op) :=
  [allAllowed,
    (second 1, .grant ⟨1⟩ (everything "alice" "bob")),
    (second 2, .grant ⟨2⟩ (everything "alice" "carol")),
    (second 3, .grant ⟨3⟩ (everything "bob" "carol")),
    (second 4, .grant ⟨4⟩ (everything "carol" "dave"))]

/-- **The limit does not bound the chains on record**: not those that grow at their front, and not
those beside which a shorter way runs. -/
theorem longChains :
    (grownAtFront.Pairwise (·.1.time ≤ ·.1.time) ∧
        (∀ e ∈ grownAtFront, e.1.time ≤ (second 5).time) ∧
        ¬ Shallow { maxChainDepth := 1 } (after { maxChainDepth := 1 } {} grownAtFront)
          (second 5).time) ∧
      bypassed.Pairwise (·.1.time ≤ ·.1.time) ∧
      (∀ e ∈ bypassed, e.1.time ≤ (second 5).time) ∧
      ¬ Shallow { maxChainDepth := 1 } (after { maxChainDepth := 1 } {} bypassed)
        (second 5).time := by
  refine ⟨⟨by decide, by decide, fun hshallow => ?_⟩, by decide, by decide, fun hshallow => ?_⟩
  · have hlong := hshallow
      [(everything "alice" "bob").granted ⟨3⟩ (second 3).time,
        (everything "bob" "carol").granted ⟨2⟩ (second 2).time,
        (everything "carol" "dave").granted ⟨1⟩ (second 1).time]
      ⟨by decide +kernel, by decide, by decide, by decide⟩
    exact absurd hlong (by decide)
  · have hlong := hshallow
      [(everything "alice" "bob").granted ⟨1⟩ (second 1).time,
        (everything "bob" "carol").granted ⟨3⟩ (second 3).time,
        (everything "carol" "dave").granted ⟨4⟩ (second 4).time]
      ⟨by decide +kernel, by decide, by decide, by decide⟩
    exact absurd hlong (by decide)

end Service

end Clearance.Delegation
