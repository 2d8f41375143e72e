import Clearance.Proofs.Decision

/-!
# Inherited rules

A policy that inherits from a base has the base's rules in front of its own. This file proves that the
decision of the two together follows from the two decisions (`decision_inheritFrom`): what decides is
what one of them would have had decide, and nothing but these two rules needs comparing.

A decision searches the rules that apply for the first of some kind, in the order of the policy or of
priority (`find?_matchingRules`). Either way what is foremost in two lists put together is foremost in
one of them, the front one where they tie (`foremost_append`): stable ordering keeps the base in front
among equals. Where denies win, the search for a deny and that for an allow compose one by one.
-/

namespace Clearance

namespace Combining

/-- Of what a base and its heir put forward, the base's, unless there is none or the heir's is
preferred. -/
def pick (prefersOwn : Rule → Rule → Bool) : Option Rule → Option Rule → Option Rule
  | none, own => own
  | some b, none => some b
  | some b, some o => if prefersOwn b o then some o else some b

/-- The strongest of two lists put together is that of the front one, unless that of the back one ranks
higher. -/
theorem strongest_append (l m : List Rule) :
    strongest (l ++ m) =
      pick (fun b o => decide (b.priority < o.priority)) (strongest l) (strongest m) := by
  have hfold : strongest (l ++ m) = m.foldl better (strongest l) := List.foldl_append
  rw [hfold]
  cases strongest l with
  | none => rfl
  | some b =>
    rw [foldl_better_some]
    cases strongest m with
    | none => rfl
    | some o =>
      by_cases hle : o.priority ≤ b.priority
      · have hlt : ¬ b.priority < o.priority := Int.not_lt.2 hle
        simp only [pick, hle, hlt, if_true, decide_false, Bool.false_eq_true, if_false]
      · have hlt : b.priority < o.priority := Int.not_le.1 hle
        simp only [pick, hle, hlt, if_true, decide_true, if_false]

end Combining

open Combining (pick)

namespace Evaluator

/-- Whether rules are tried in priority order. -/
def isRanked (e : Evaluator) : Bool := e.matching.isPriorityOrdered || e.combining.isPriorityOrdered

/-- The one of some rules that is tried first. -/
def foremost (e : Evaluator) (rules : List Rule) : Option Rule :=
  if e.isRanked then Combining.strongest rules else rules.head?

/-- The rule that decides a request, as it stands in the policy. -/
def decidingRule (e : Evaluator) (p : Policy) (q : Request) : Option Rule :=
  e.combining.decidingRule (e.matchingRules p q)

/-- Whether an heir's rule decides rather than the base's: where denies win and only one of them denies,
if it is the heir's; else if rules go by priority and the heir's ranks higher. -/
def prefersOwn (e : Evaluator) (b o : Rule) : Bool :=
  if e.combining ≠ .priority ∧ b.effect ≠ o.effect then o.effect == .deny
  else e.isRanked && decide (b.priority < o.priority)

variable {e : Evaluator} {base own : Policy} {q : Request}

/-- Where priority decides, rules are tried in its order. -/
theorem isRanked_of_rankWins (hc : e.combining = .priority) : e.isRanked = true := by
  unfold isRanked
  rw [hc]
  exact Bool.or_true _

theorem mem_of_foremost {rules : List Rule} {r : Rule} (h : e.foremost rules = some r) :
    r ∈ rules := by
  unfold foremost at h
  split at h
  next => exact (Combining.firstStrongest_of_strongest h).mem
  next => exact List.mem_of_head? h

theorem foremost_append (e : Evaluator) (l m : List Rule) :
    e.foremost (l ++ m) =
      pick (fun b o => e.isRanked && decide (b.priority < o.priority)) (e.foremost l)
        (e.foremost m) := by
  unfold foremost
  cases e.isRanked with
  | true =>
    simp only [if_true, Bool.true_and]
    exact Combining.strongest_append l m
  | false =>
    simp only [Bool.false_eq_true, if_false, Bool.false_and, List.head?_append]
    cases l.head? <;> cases m.head? <;> rfl

/-- The first of the matching rules that passes a test is the foremost of those that apply and pass. -/
theorem find?_matchingRules (e : Evaluator) (p : Policy) (q : Request) (test : Rule → Bool) :
    (e.matchingRules p q).find? test =
      e.foremost ((p.rules.filter (·.appliesTo e.matching q)).filter test) := by
  rw [matchingRules_eq, ← List.head?_filter, candidates, foremost, isRanked]
  split
  next =>
    -- ordering comes before both tests, and can as well come after them
    rw [Policy.byPriority, Stable.filter_sort, Stable.filter_sort, Combining.head?_sort]
  next => rfl

/-- Where denies win, the foremost deny decides, and the foremost allow where there is no deny. -/
theorem decidingRule_of_denyWins (hc : e.combining ≠ .priority) (p : Policy) (q : Request) :
    e.decidingRule p q =
      (e.foremost ((p.rules.filter (·.appliesTo e.matching q)).filter (·.effect == .deny)) <|>
        e.foremost ((p.rules.filter (·.appliesTo e.matching q)).filter (·.effect == .allow))) := by
  rw [← find?_matchingRules, ← find?_matchingRules, decidingRule]
  cases hcombining : e.combining with
  | standard => rfl
  | denyOverride => rfl
  | priority => exact absurd hcombining hc

/-- Where priority decides, that is the foremost rule of all that apply. -/
theorem decidingRule_of_rankWins (hc : e.combining = .priority) (p : Policy) (q : Request) :
    e.decidingRule p q = e.foremost (p.rules.filter (·.appliesTo e.matching q)) := by
  rw [decidingRule, foremost, isRanked_of_rankWins hc, if_pos rfl, ← strongest_matchingRules, hc]
  rfl

theorem effect_of_foremost {rules : List Rule} {effect : Effect} {r : Rule}
    (h : e.foremost (rules.filter (·.effect == effect)) = some r) : r.effect = effect := by
  simpa using (List.mem_filter.1 (mem_of_foremost h)).2

/-- Between rules of one effect an heir's is preferred only for its rank. -/
theorem prefersOwn_of_effect_eq {b o : Rule} (h : b.effect = o.effect) :
    e.prefersOwn b o = (e.isRanked && decide (b.priority < o.priority)) :=
  if_neg fun hboth => hboth.2 h

/-- Where denies win, of two rules that differ the one that denies is preferred. -/
theorem prefersOwn_of_effect_ne (hc : e.combining ≠ .priority) {b o : Rule} {said : Effect}
    (ho : o.effect = said) (hb : b.effect ≠ said) : e.prefersOwn b o = (said == .deny) := by
  subst ho
  exact if_pos ⟨hc, hb⟩

/-- Where denies win, what is foremost among the denials and, failing that, among the allows of two lists
is one of what is so in either list. -/
theorem pick_orElse (hc : e.combining ≠ .priority) {denyB denyO allowB allowO : Option Rule}
    (hdenyB : ∀ r, denyB = some r → r.effect = .deny) (hdenyO : ∀ r, denyO = some r → r.effect = .deny)
    (hallowB : ∀ r, allowB = some r → r.effect = .allow)
    (hallowO : ∀ r, allowO = some r → r.effect = .allow) :
    (pick (fun b o => e.isRanked && decide (b.priority < o.priority)) denyB denyO <|>
        pick (fun b o => e.isRanked && decide (b.priority < o.priority)) allowB allowO) =
      pick e.prefersOwn (denyB <|> allowB) (denyO <|> allowO) := by
  cases denyB with
  | some b =>
    have hb := hdenyB b rfl
    cases denyO with
    | some o =>
      have hsame : b.effect = o.effect := hb.trans (hdenyO o rfl).symm
      simp only [pick, prefersOwn_of_effect_eq hsame, Option.orElse_eq_orElse, Option.orElse_some]
      split <;> rfl
    | none =>
      -- the heir has an allow at best, which gives way to the base's deny
      cases allowO with
      | none => rfl
      | some o =>
        have hdenies : b.effect ≠ .allow := by
          rw [hb]
          exact Effect.noConfusion
        show some b = if e.prefersOwn b o then some o else some b
        rw [prefersOwn_of_effect_ne hc (hallowO o rfl) hdenies]
        rfl
  | none =>
    cases denyO with
    | some o =>
      -- the heir's deny prevails over whatever the base has
      cases allowB with
      | none => rfl
      | some b =>
        have hallows : b.effect ≠ .deny := by
          rw [hallowB b rfl]
          exact Effect.noConfusion
        show some o = if e.prefersOwn b o then some o else some b
        rw [prefersOwn_of_effect_ne hc (hdenyO o rfl) hallows]
        rfl
    | none =>
      cases allowB with
      | none => rfl
      | some b =>
        cases allowO with
        | none => rfl
        | some o =>
          have hsame : b.effect = o.effect := (hallowB b rfl).trans (hallowO o rfl).symm
          show (if _ then some o else some b) = if e.prefersOwn b o then some o else some b
          rw [prefersOwn_of_effect_eq hsame]

/-- What applies of an heir are the rules of the base that apply, and behind them its own. -/
theorem applying_inheritFrom (e : Evaluator) (base own : Policy) (q : Request) :
    (own.inheritFrom base).rules.filter (·.appliesTo e.matching q) =
      base.rules.filter (·.appliesTo e.matching q) ++ own.rules.filter (·.appliesTo e.matching q) :=
  List.filter_append ..

/-- **What decides for both**: of the rules that would decide for the base and for the heir alone, the
base's, unless the heir's is preferred. -/
theorem decidingRule_inheritFrom (e : Evaluator) (base own : Policy) (q : Request) :
    e.decidingRule (own.inheritFrom base) q =
      pick e.prefersOwn (e.decidingRule base q) (e.decidingRule own q) := by
  by_cases hc : e.combining = .priority
  · have hprefers : e.prefersOwn = fun b o => e.isRanked && decide (b.priority < o.priority) := by
      funext b o
      exact if_neg fun h => h.1 hc
    rw [decidingRule_of_rankWins hc, decidingRule_of_rankWins hc, decidingRule_of_rankWins hc,
      applying_inheritFrom, foremost_append, hprefers]
  · rw [decidingRule_of_denyWins hc, decidingRule_of_denyWins hc, decidingRule_of_denyWins hc,
      applying_inheritFrom, List.filter_append, List.filter_append, foremost_append, foremost_append]
    exact pick_orElse hc (fun _ => effect_of_foremost) (fun _ => effect_of_foremost)
      (fun _ => effect_of_foremost) (fun _ => effect_of_foremost)

/-- A decision names the rule that decides and how many applied, or is the default. -/
theorem decision_eq (e : Evaluator) (p : Policy) (q : Request) :
    e.decision p q =
      match e.decidingRule p q with
      | some r => .byRule r (e.decision p q).matched
      | none => .byDefault := by
  have hcounted : (e.decision p q).matched = (e.matchingRules p q).length := by
    rw [(decision_means e p q).1.counted, (matchingRules_perm e p q).length_eq]
  rw [hcounted]
  rfl

/-- A decision shows its rule without the condition. -/
theorem decision_rule (e : Evaluator) (p : Policy) (q : Request) :
    (e.decision p q).rule = (e.decidingRule p q).map (·.unconditional) := by
  rw [decision_eq]
  cases e.decidingRule p q <;> rfl

/-- An heir counts the matches of the base and its own. -/
theorem matched_inheritFrom (e : Evaluator) (base own : Policy) (q : Request) :
    (e.decision (own.inheritFrom base) q).matched =
      (e.decision base q).matched + (e.decision own q).matched := by
  rw [(decision_means e _ q).1.counted, (decision_means e base q).1.counted,
    (decision_means e own q).1.counted, applying_inheritFrom, List.length_append]

end Evaluator

/-- The decision of a policy that inherits from a base, put together from its own and the base's. -/
def Decision.inheriting (e : Evaluator) (own base : Decision) : Decision :=
  match pick e.prefersOwn base.rule own.rule with
  | some r => .byRule r (base.matched + own.matched)
  | none => .byDefault

namespace Evaluator

/-- Which of two rules is preferred can be told without their conditions. -/
theorem pick_unconditional (e : Evaluator) (b o : Option Rule) :
    pick e.prefersOwn (b.map (·.unconditional)) (o.map (·.unconditional)) =
      (pick e.prefersOwn b o).map (·.unconditional) := by
  cases b with
  | none => rfl
  | some b =>
    cases o with
    | none => rfl
    | some o =>
      have hsame : e.prefersOwn b.unconditional o.unconditional = e.prefersOwn b o := rfl
      simp only [Option.map_some, pick, hsame]
      split <;> rfl

/-- Nothing but the two decisions is needed for that of both. -/
theorem decision_eq_inheriting (e : Evaluator) (base own : Policy) (q : Request) :
    e.decision (own.inheritFrom base) q =
      (e.decision own q).inheriting e (e.decision base q) := by
  rw [decision_eq, Decision.inheriting, decision_rule, decision_rule, pick_unconditional,
    matched_inheritFrom, decidingRule_inheritFrom]
  cases pick e.prefersOwn (e.decidingRule base q) (e.decidingRule own q) <;> rfl

/-- Whether a policy has a rule of some effect that applies. -/
def Says (e : Evaluator) (p : Policy) (q : Request) (effect : Effect) : Prop :=
  ∃ r ∈ p.rules, r.appliesTo e.matching q = true ∧ r.effect = effect

/-- Whether an heir decides by rank: no rule of the base applies, or the one that decides for the heir
has strictly higher priority than the one that decides for the base. -/
def OwnPrevails (e : Evaluator) (base own : Policy) (q : Request) : Prop :=
  (∀ r ∈ base.rules, r.appliesTo e.matching q = false) ∨
    ∃ b o, e.decidingRule base q = some b ∧ e.decidingRule own q = some o ∧ b.priority < o.priority

/-- How the decision of a policy that inherits from a base goes together with its own and the base's. -/
structure Composes (e : Evaluator) (base own : Policy) (q : Request) : Prop where
  /-- The rules that apply add up. -/
  counted : (e.decision (own.inheritFrom base) q).matched =
    (e.decision base q).matched + (e.decision own q).matched
  ownDecides : e.combining = .priority → e.OwnPrevails base own q →
    e.decidingRule (own.inheritFrom base) q = e.decidingRule own q
  baseDecides : e.combining = .priority → ¬ e.OwnPrevails base own q →
    e.decidingRule (own.inheritFrom base) q = e.decidingRule base q
  /-- Where denies win, neither may have one that applies, and one must have an allow. -/
  allowed : e.combining ≠ .priority →
    ((e.decision (own.inheritFrom base) q).effect = .allow ↔
      (¬ e.Says base q .deny ∧ ¬ e.Says own q .deny) ∧ (e.Says base q .allow ∨ e.Says own q .allow))

variable {e : Evaluator} {base own : Policy} {q : Request}

/-- No rule decides exactly if none applies. -/
theorem decidingRule_eq_none_iff (e : Evaluator) (p : Policy) (q : Request) :
    e.decidingRule p q = none ↔ ∀ r ∈ p.rules, r.appliesTo e.matching q = false := by
  rw [decidingRule, Combining.decidingRule_eq_none_iff, matchingRules_eq_nil_iff, List.filter_eq_nil_iff]
  simp only [Bool.not_eq_true]

/-- By rank the heir's rule is preferred if it ranks strictly higher. -/
theorem prefersOwn_of_rankWins (hc : e.combining = .priority) (b o : Rule) :
    e.prefersOwn b o = decide (b.priority < o.priority) := by
  rw [prefersOwn, if_neg fun h => h.1 hc, isRanked_of_rankWins hc, Bool.true_and]

/-- Where the heir's own rules prevail, the heir decides as if it had no base. -/
theorem decidingRule_of_ownPrevails (hc : e.combining = .priority) (h : e.OwnPrevails base own q) :
    e.decidingRule (own.inheritFrom base) q = e.decidingRule own q := by
  rw [decidingRule_inheritFrom]
  rcases h with hnone | ⟨b, o, hb, ho, hlt⟩
  · rw [(decidingRule_eq_none_iff e base q).2 hnone]
    rfl
  · rw [hb, ho, pick, prefersOwn_of_rankWins hc, decide_eq_true hlt]
    rfl

/-- Where they do not, it decides as the base does. -/
theorem decidingRule_of_not_ownPrevails (hc : e.combining = .priority)
    (h : ¬ e.OwnPrevails base own q) :
    e.decidingRule (own.inheritFrom base) q = e.decidingRule base q := by
  rw [decidingRule_inheritFrom]
  cases hb : e.decidingRule base q with
  | none => exact absurd (.inl ((decidingRule_eq_none_iff e base q).1 hb)) h
  | some b =>
    cases ho : e.decidingRule own q with
    | none => rfl
    | some o =>
      have hle : ¬ b.priority < o.priority := fun hlt => h (.inr ⟨b, o, hb, ho, hlt⟩)
      rw [pick, prefersOwn_of_rankWins hc, decide_eq_false hle]
      rfl

/-- Where denies win, an heir allows what neither denies and one of the two allows. -/
theorem effect_inheritFrom_eq_allow_iff (hc : e.combining ≠ .priority) :
    e.effect (own.inheritFrom base) q = .allow ↔
      (¬ e.Says base q .deny ∧ ¬ e.Says own q .deny) ∧
        (e.Says base q .allow ∨ e.Says own q .allow) := by
  have hrules : (own.inheritFrom base).rules = base.rules ++ own.rules := rfl
  rw [← Effect.isAllow_iff, isAllow_effect_iff hc, hrules]
  unfold Says
  constructor
  · intro h
    obtain ⟨⟨r, hr, happlies⟩, hall⟩ := h
    have hnot : ∀ l : List Rule, l ⊆ base.rules ++ own.rules →
        ¬ ∃ r ∈ l, r.appliesTo e.matching q = true ∧ r.effect = .deny := by
      rintro l hl ⟨r, hr, happlies, hdeny⟩
      rw [hall r (hl hr) happlies] at hdeny
      exact absurd hdeny (by decide)
    refine ⟨⟨hnot _ (List.subset_append_left ..), hnot _ (List.subset_append_right ..)⟩, ?_⟩
    have hallow := hall r hr happlies
    rcases List.mem_append.1 hr with hr | hr
    · exact .inl ⟨r, hr, happlies, hallow⟩
    · exact .inr ⟨r, hr, happlies, hallow⟩
  · intro h
    obtain ⟨⟨hbase, hown⟩, hsome⟩ := h
    constructor
    · rcases hsome with ⟨r, hr, happlies, -⟩ | ⟨r, hr, happlies, -⟩
      · exact ⟨r, List.mem_append_left _ hr, happlies⟩
      · exact ⟨r, List.mem_append_right _ hr, happlies⟩
    · intro r hr happlies
      cases heffect : r.effect with
      | allow => rfl
      | deny =>
        rcases List.mem_append.1 hr with hr | hr
        · exact absurd ⟨r, hr, happlies, heffect⟩ hbase
        · exact absurd ⟨r, hr, happlies, heffect⟩ hown

/-- **Inheritance composes decisions.** Whatever the policies and the request, and whichever way rules
are matched and combined, the decision of a policy that inherits from a base is a function of its own
decision and the base's. The rules that apply add up. By rank the base's rule decides, unless no rule of
the base applies or the heir's ranks strictly higher. Where denies win, the answer is yes if neither has
a deny that applies and one of them has an allow. -/
theorem decision_inheritFrom (e : Evaluator) (base own : Policy) (q : Request) :
    e.decision (own.inheritFrom base) q =
        (e.decision own q).inheriting e (e.decision base q) ∧
      e.Composes base own q :=
  ⟨decision_eq_inheriting e base own q,
    { counted := matched_inheritFrom e base own q
      ownDecides := decidingRule_of_ownPrevails
      baseDecides := decidingRule_of_not_ownPrevails
      allowed := effect_inheritFrom_eq_allow_iff }⟩

/-- Everybody may read documents. -/
def houseRule : Policy := .ofRules [.allow "*" "doc:*" "read"]

/-- A guest may do nothing, by a rule of some rank. -/
def guestRule (p : Priority) : Policy := .ofRules [(Rule.deny "guest" "*" "*").withPriority p]

def guestReads : Request :=
  { subject := ⟨"guest", .empty⟩, resource := some (.ofId "doc:1"), action := ⟨"read"⟩ }

/-- By rank a rule of the base wins a tie, and only a tie. -/
theorem houseRule_wins_ties :
    ({ combining := .priority } : Evaluator).decision ((guestRule .default).inheritFrom houseRule)
        guestReads = .byRule (.allow "*" "doc:*" "read") 2 ∧
      ({ combining := .priority } : Evaluator).decision ((guestRule 2).inheritFrom houseRule)
        guestReads = .byRule ((Rule.deny "guest" "*" "*").withPriority 2) 2 :=
  ⟨(decision_inheritFrom ..).1.trans rfl, (decision_inheritFrom ..).1.trans rfl⟩

end Evaluator

end Clearance
