import Mathlib.Data.List.FinRange
import Clearance.Proofs.Evaluator
import Clearance.Proofs.Matching.Context

/-!
# When conditions are consulted

A condition is the caller's own code, so it matters how often it runs, in which order and on what. The
decision is taken here once more with conditions as calls into an arbitrary monad (`decideAsking`): a rule
is tried by its domain, then its patterns, and its condition runs last. Whatever the calls do, and whatever
they answer, they are the consultations on record and no others, made one after another in that order, and
nothing but their answers goes into the decision (`exists_outcome`).

What is on record is then told by the places of rules in the policy (`exists_places`). The scan visits every
place once. A place has a question if its rule has a condition, is at home in the domain of the request and
fits it.
-/

namespace Clearance

/-! ## Deciding by calls -/

section Asking

variable {M : Type → Type} [Monad M] (ask : Condition → Context → M Bool)

/-- Try a rule on a request; the condition runs only where everything else fits. -/
def Rule.tryAsking (r : Rule) (m : Matching) (q : Request) : M Bool :=
  if !r.appliesIn q.context then return false
  else if !m.patternsFit r q then return false
  else
    match r.condition with
    | none => return true
    | some c => ask c (m.conditionContext q)

/-- The rules of a list that apply, tried one after another. -/
def Matching.filterAsking (m : Matching) (q : Request) : List Rule → M (List Rule)
  | [] => return []
  | r :: rules => do
    let applies ← r.tryAsking ask m q
    let rest ← filterAsking m q rules
    return if applies then r :: rest else rest

/-- The answer that the rules that apply lead to. -/
def Combining.verdict (c : Combining) (matched : List Rule) : Decision :=
  (c.decidingRule matched).elim .byDefault (.byRule · matched.length)

/-- The answer to a request, conditions being asked as the scan comes to them. -/
def Evaluator.decideAsking (e : Evaluator) (p : Policy) (q : Request) : M Decision :=
  e.combining.verdict <$> e.matching.filterAsking ask q (e.candidates p)

end Asking

/-! ## The question of a rule -/

/-- Whether the condition of a rule is to be asked: there is one, and the rule is at home in the domain of
the request and fits it. -/
structure Rule.IsAsked (r : Rule) (m : Matching) (q : Request) : Prop where
  conditional : r.condition ≠ none
  domain : ∀ d, r.domain = some d → q.context.domain? = some d.id
  patterns : m.patternsFit r q = true

/-- What a question to the condition of a rule has to be. Only where conditions see attributes they see more
than the caller's context. -/
structure Consultation.IsOf (x : Consultation) (r : Rule) (m : Matching) (q : Request) : Prop where
  condition : r.condition = some x.condition
  unchanged : m ≠ .abac → x.context = q.context
  exposed : m = .abac → ∀ k v, x.context.get? k = some v ↔ q.Exposes k v
  answer : x.answer = x.condition.holds x.context

/-- The question that a rule leads to, if its condition is asked. -/
def Matching.question? (m : Matching) (q : Request) (r : Rule) : Option Consultation :=
  Evaluator.consultation? (r, r.probe m q)

namespace Rule

variable {r : Rule} {m : Matching} {q : Request}

/-- A rule is at home in a domain unless it is of another. -/
theorem appliesIn_iff {context : Context} :
    r.appliesIn context = true ↔ ∀ d, r.domain = some d → context.domain? = some d.id := by
  unfold appliesIn
  cases r.domain <;> simp

/-- The ways a trial can end: the rule is left aside, or it fits and has no condition, or its condition is
asked and decides. -/
inductive Trial (r : Rule) (m : Matching) (q : Request) : Prop where
  | aside (unasked : ¬ r.IsAsked m q) (question : m.question? q r = none) (applies : r.appliesTo m q = false)
      (tried : ∀ (M : Type → Type) [Monad M] (ask : Condition → Context → M Bool),
        r.tryAsking ask m q = pure false)
  | fits (unasked : ¬ r.IsAsked m q) (question : m.question? q r = none) (applies : r.appliesTo m q = true)
      (tried : ∀ (M : Type → Type) [Monad M] (ask : Condition → Context → M Bool),
        r.tryAsking ask m q = pure true)
  | asked (asked : r.IsAsked m q) (x : Consultation) (right : x.IsOf r m q)
      (question : m.question? q r = some x) (applies : r.appliesTo m q = x.answer)
      (tried : ∀ (M : Type → Type) [Monad M] (ask : Condition → Context → M Bool),
        r.tryAsking ask m q = ask x.condition x.context)

/-- A condition that is asked is asked with the right context. -/
theorem isOf_conditionContext {c : Condition} (hc : r.condition = some c) (m : Matching) (q : Request) :
    (⟨c, m.conditionContext q, c.holds (m.conditionContext q)⟩ : Consultation).IsOf r m q where
  condition := hc
  unchanged := by
    intro hm
    cases m <;> first | rfl | exact absurd rfl hm
  exposed := by
    rintro rfl
    exact Matching.get?_attributeContext q
  answer := rfl

/-- Every rule comes to one of the ends that a trial can have. -/
theorem trial (r : Rule) (m : Matching) (q : Request) : r.Trial m q := by
  cases hin : r.appliesIn q.context with
  | false =>
    have hprobe : r.probe m q = .otherDomain := by simp [probe, hin]
    refine .aside (fun h => ?_) ?_ ?_ fun M _ ask => ?_
    · rw [appliesIn_iff.2 h.domain] at hin
      cases hin
    · simp [Matching.question?, hprobe, Evaluator.consultation?]
    · rw [appliesTo, hprobe]
      rfl
    · simp [tryAsking, hin]
  | true =>
  cases hfits : m.patternsFit r q with
  | false =>
    have hprobe : r.probe m q = .otherRequest := by simp [probe, hin, hfits]
    refine .aside (fun h => ?_) ?_ ?_ fun M _ ask => ?_
    · rw [h.patterns] at hfits
      cases hfits
    · simp [Matching.question?, hprobe, Evaluator.consultation?]
    · rw [appliesTo, hprobe]
      rfl
    · simp [tryAsking, hin, hfits]
  | true =>
  cases hc : r.condition with
  | none =>
    have hprobe : r.probe m q = .fits := by simp [probe, hin, hfits, hc]
    refine .fits (fun h => h.conditional hc) ?_ ?_ fun M _ ask => ?_
    · simp [Matching.question?, hprobe, Evaluator.consultation?]
    · rw [appliesTo, hprobe]
      rfl
    · simp [tryAsking, hin, hfits, hc]
  | some c =>
    have hprobe : r.probe m q = .asked (m.conditionContext q) (c.holds (m.conditionContext q)) := by
      simp [probe, hin, hfits, hc]
    refine .asked ⟨?_, appliesIn_iff.1 hin, hfits⟩ _ (isOf_conditionContext hc m q) ?_ ?_ fun M _ ask => ?_
    · rw [hc]
      exact Option.some_ne_none c
    · rw [Matching.question?, hprobe]
      obtain ⟨subject, resource, action, effect, priority, domain, condition⟩ := r
      subst hc
      rfl
    · rw [appliesTo, hprobe]
      rfl
    · simp [tryAsking, hin, hfits, hc]

/-- A rule leads to a question exactly if its condition is to be asked. -/
theorem isSome_question?_iff : (m.question? q r).isSome = true ↔ r.IsAsked m q := by
  cases r.trial m q with
  | aside hunasked hquestion | fits hunasked hquestion =>
    rw [hquestion]
    exact iff_of_false Bool.false_ne_true hunasked
  | asked hasked x _ hquestion =>
    rw [hquestion]
    exact iff_of_true rfl hasked

/-- A question that is put is about its rule, in the context that the matching lets conditions
see. -/
theorem isOf_of_question? {x : Consultation} (h : m.question? q r = some x) : x.IsOf r m q := by
  cases r.trial m q with
  | aside _ hquestion | fits _ hquestion => exact absurd (hquestion.symm.trans h) (by simp)
  | asked _ y hright hquestion =>
    obtain rfl : y = x := Option.some.inj (hquestion.symm.trans h)
    exact hright

end Rule

/-! ## Nothing but the questions on record -/

namespace Matching

/-- **A scan calls what is on record.** The rules that apply are got from the answers alone, in the same way
for every kind of call. -/
theorem exists_sift (m : Matching) (q : Request) (rules : List Rule) :
    ∃ sift : List Bool → List Rule,
      rules.filter (·.appliesTo m q) = sift ((rules.filterMap (m.question? q)).map (·.answer)) ∧
        ∀ (M : Type → Type) [Monad M] [LawfulMonad M] (ask : Condition → Context → M Bool),
          m.filterAsking ask q rules =
            sift <$> (rules.filterMap (m.question? q)).mapM fun x => ask x.condition x.context := by
  induction rules with
  | nil => exact ⟨fun _ => [], rfl, fun M _ _ ask => by simp [filterAsking]⟩
  | cons r rules ih =>
    obtain ⟨sift, hsift, hcalls⟩ := ih
    cases r.trial m q with
    | aside _ hquestion happlies htried =>
      refine ⟨sift, ?_, fun M _ _ ask => ?_⟩
      · rw [List.filterMap_cons_none hquestion, List.filter_cons, happlies, hsift]
        rfl
      · rw [List.filterMap_cons_none hquestion, ← hcalls, filterAsking, htried]
        simp
    | fits _ hquestion happlies htried =>
      refine ⟨fun answers => r :: sift answers, ?_, fun M _ _ ask => ?_⟩
      · rw [List.filterMap_cons_none hquestion, List.filter_cons, happlies, hsift]
        rfl
      · rw [List.filterMap_cons_none hquestion, filterAsking, htried, hcalls]
        simp
    | asked _ x _ hquestion happlies htried =>
      -- the first answer is for this rule, the others for the rest
      refine ⟨fun answers => if answers.headD false then r :: sift answers.tail else sift answers.tail,
        ?_, fun M _ _ ask => ?_⟩
      · rw [List.filterMap_cons_some hquestion, List.filter_cons, happlies, hsift]
        rfl
      · rw [List.filterMap_cons_some hquestion, filterAsking, htried, hcalls]
        simp only [bind_pure_comp, Functor.map_map, List.mapM_cons, map_bind]
        rfl

end Matching

namespace Evaluator

/-- What is on record as consulted are the questions of the candidates, in their order. -/
theorem consultations_eq (e : Evaluator) (p : Policy) (q : Request) :
    e.consultations p q = (e.candidates p).filterMap (e.matching.question? q) :=
  List.filterMap_map ..

/-- A decision comes from the answers on record, and whatever a call does, a decision by calls makes the
calls on record. -/
theorem exists_outcome (e : Evaluator) (p : Policy) (q : Request) :
    ∃ outcome : List Bool → Decision,
      e.decision p q = outcome ((e.consultations p q).map (·.answer)) ∧
        ∀ (M : Type → Type) [Monad M] [LawfulMonad M] (ask : Condition → Context → M Bool),
          e.decideAsking ask p q =
            outcome <$> (e.consultations p q).mapM fun x => ask x.condition x.context := by
  obtain ⟨sift, hsift, hcalls⟩ := e.matching.exists_sift q (e.candidates p)
  refine ⟨fun answers => e.combining.verdict (sift answers), ?_, fun M _ _ ask => ?_⟩
  · show _ = e.combining.verdict _
    rw [consultations_eq, ← hsift, ← matchingRules_eq, decision, Combining.verdict]
    cases e.combining.decidingRule (e.matchingRules p q) <;> rfl
  · rw [consultations_eq, decideAsking, hcalls, Functor.map_map]

/-- A call that answers by the predicate and keeps a log. -/
def logging (c : Condition) (context : Context) : StateM (List Consultation) Bool := do
  modify (· ++ [⟨c, context, c.holds context⟩])
  return c.holds context

/-- A call on record leaves its answer there, behind those before it. -/
theorem logging_run {x : Consultation} (hx : x.answer = x.condition.holds x.context)
    (log : List Consultation) : (logging x.condition x.context).run log = (x.answer, log ++ [x]) := by
  obtain ⟨condition, context, answer⟩ := x
  obtain rfl : answer = condition.holds context := hx
  rfl

/-- Logged calls one after another. -/
theorem mapM_logging_run {l : List Consultation} (h : ∀ x ∈ l, x.answer = x.condition.holds x.context)
    (log : List Consultation) :
    (l.mapM fun x => logging x.condition x.context).run log = (l.map (·.answer), log ++ l) := by
  induction l generalizing log with
  | nil =>
    rw [List.append_nil]
    rfl
  | cons x l ih =>
    obtain ⟨hx, hl⟩ := List.forall_mem_cons.1 h
    rw [List.mapM_cons, StateT.run_bind, logging_run hx]
    show ((l.mapM fun x => logging x.condition x.context) >>= fun answers => pure (x.answer :: answers)).run
      (log ++ [x]) = _
    rw [StateT.run_bind, ih hl, List.append_assoc]
    rfl

/-- **A log of the calls is the record**: predicates that are called and logged lead to the decision that is
made, and to the consultations that are on record for it. -/
theorem decideAsking_logging (e : Evaluator) (p : Policy) (q : Request) :
    (e.decideAsking logging p q).run [] = (e.decision p q, e.consultations p q) := by
  have hanswers : ∀ x ∈ e.consultations p q, x.answer = x.condition.holds x.context := by
    intro x hx
    rw [consultations_eq] at hx
    obtain ⟨r, -, hr⟩ := List.mem_filterMap.1 hx
    exact (Rule.isOf_of_question? hr).answer
  obtain ⟨outcome, hdecision, hcalls⟩ := e.exists_outcome p q
  rw [hcalls, hdecision, StateT.run_map, mapM_logging_run hanswers]
  rfl

/-! ## Which places are asked -/

/-- Whether the rule at one place is tried before the rule at another: it ranks higher or stands earlier,
where there are ranks, and otherwise it stands earlier. -/
def TriesBefore (e : Evaluator) (p : Policy) (i j : Fin p.rules.length) : Prop :=
  if e.matching = .priority ∨ e.combining = .priority then
    (p.rules.get j).priority < (p.rules.get i).priority ∨
      (p.rules.get j).priority = (p.rules.get i).priority ∧ i < j
  else i < j

/-- The places of the rules of a policy in the order they are tried. -/
def scan (e : Evaluator) (p : Policy) : List (Fin p.rules.length) :=
  if e.matching.isPriorityOrdered || e.combining.isPriorityOrdered then
    Stable.sort (fun i j => Policy.outranks (p.rules.get i) (p.rules.get j)) (List.finRange p.rules.length)
  else List.finRange p.rules.length

/-- Rules go by priority if matching or combining does. -/
theorem byPriority_iff {e : Evaluator} :
    (e.matching.isPriorityOrdered || e.combining.isPriorityOrdered) = true ↔
      e.matching = .priority ∨ e.combining = .priority := by
  simp [Matching.isPriorityOrdered, Combining.isPriorityOrdered]

/-- The rules are tried as their places are scanned. -/
theorem candidates_eq (e : Evaluator) (p : Policy) : e.candidates p = (e.scan p).map p.rules.get := by
  have hall : p.rules = (List.finRange p.rules.length).map p.rules.get := (List.map_get_finRange _).symm
  rw [candidates, scan]
  split
  next =>
    rw [← Stable.sort_map (fun _ _ => rfl), ← hall]
    rfl
  next => exact hall

/-- Every place of a policy is scanned. -/
theorem mem_scan (e : Evaluator) (p : Policy) (i : Fin p.rules.length) : i ∈ e.scan p := by
  rw [scan]
  split
  next =>
    rw [Stable.sort_eq, List.mem_insertionSort]
    exact List.mem_finRange i
  next => exact List.mem_finRange i

/-- The scan visits places in the order in which their rules are tried. -/
theorem scan_pairwise (e : Evaluator) (p : Policy) : (e.scan p).Pairwise (e.TriesBefore p) := by
  have hasc := List.pairwise_lt_finRange p.rules.length
  rw [scan]
  split
  next hranked =>
    have htrans : IsTrans (Fin p.rules.length)
        fun i j => Policy.outranks (p.rules.get i) (p.rules.get j) = true :=
      ⟨fun i j k => trans_of (Policy.outranks · ·)⟩
    have htotal : Std.Total fun i j => Policy.outranks (p.rules.get i) (p.rules.get j) = true :=
      ⟨fun i j => total_of (Policy.outranks · ·) (p.rules.get i) (p.rules.get j)⟩
    refine (Stable.sort_pairwise_of_ties hasc).imp fun {i j} h => ?_
    rw [TriesBefore, if_pos (byPriority_iff.1 hranked)]
    rcases Int.lt_or_eq_of_le (Policy.outranks_iff.1 h.1) with hlt | heq
    · exact .inl hlt
    · exact .inr ⟨heq, h.2 (Policy.outranks_iff.2 (Int.le_of_eq heq.symm))⟩
  next hunranked =>
    refine hasc.imp fun {i j} h => ?_
    rw [TriesBefore, if_neg fun hranked => hunranked (byPriority_iff.2 hranked)]
    exact h

/-- No place comes before itself, so none is visited twice. -/
theorem not_triesBefore_self (e : Evaluator) (p : Policy) (i : Fin p.rules.length) :
    ¬ e.TriesBefore p i i := by
  unfold TriesBefore
  split <;> simp

/-- The elements of a list that have an image, next to their images. -/
theorem forall₂_filterMap {α β : Type} (f : α → Option β) (l : List α) :
    List.Forall₂ (fun a b => f a = some b) (l.filter fun a => (f a).isSome) (l.filterMap f) := by
  induction l with
  | nil => exact .nil
  | cons a l ih =>
    cases h : f a with
    | none =>
      rw [List.filterMap_cons_none h, List.filter_cons_of_neg (by simp [h])]
      exact ih
    | some b =>
      rw [List.filterMap_cons_some h, List.filter_cons_of_pos (by simp [h])]
      exact .cons h ih

/-- What is on record, by the places of the rules in the policy. -/
theorem exists_places (e : Evaluator) (p : Policy) (q : Request) :
    ∃ places : List (Fin p.rules.length),
      places.Nodup ∧ places.Pairwise (e.TriesBefore p) ∧
        (∀ i, i ∈ places ↔ (p.rules.get i).IsAsked e.matching q) ∧
        List.Forall₂ (fun i x => x.IsOf (p.rules.get i) e.matching q) places (e.consultations p q) := by
  have hordered := (e.scan_pairwise p).filter fun i => (e.matching.question? q (p.rules.get i)).isSome
  refine ⟨_, ?_, hordered, fun i => ?_, ?_⟩
  · refine hordered.imp fun {i j} hbefore heq => ?_
    subst heq
    exact e.not_triesBefore_self p i hbefore
  · rw [List.mem_filter, Rule.isSome_question?_iff]
    exact and_iff_right (e.mem_scan p i)
  · rw [consultations_eq, candidates_eq, List.filterMap_map]
    have hpairs := forall₂_filterMap (fun i => e.matching.question? q (p.rules.get i)) (e.scan p)
    exact hpairs.imp fun _ _ h => Rule.isOf_of_question? h

/-- **Conditions are consulted as promised.** On record is one question for each place of the policy whose
rule has a condition, is at home in the domain of the request and fits it, and these places come in the
order in which rules are tried, each once. A question has the condition of its rule; the context is the
caller's own, or what `Request.Exposes` says where conditions see attributes.

The record is not only kept beside the decision. If conditions are calls of whatever kind, then the calls of
a decision are those on record, one after another, and the decision is made from their answers alone. -/
theorem consulted_as_promised (e : Evaluator) (p : Policy) (q : Request) :
    (∃ places : List (Fin p.rules.length),
      places.Nodup ∧ places.Pairwise (e.TriesBefore p) ∧
        (∀ i, i ∈ places ↔ (p.rules.get i).IsAsked e.matching q) ∧
        List.Forall₂ (fun i x => x.IsOf (p.rules.get i) e.matching q) places (e.consultations p q)) ∧
      ∃ outcome : List Bool → Decision,
        e.decision p q = outcome ((e.consultations p q).map (·.answer)) ∧
          ∀ (M : Type → Type) [Monad M] [LawfulMonad M] (ask : Condition → Context → M Bool),
            e.decideAsking ask p q =
              outcome <$> (e.consultations p q).mapM fun x => ask x.condition x.context :=
  ⟨e.exists_places p q, e.exists_outcome p q⟩

end Evaluator

end Clearance
