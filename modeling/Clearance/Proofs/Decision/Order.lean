import Clearance.Proofs.Decision.Inherited

/-!
# Where the order of rules does not matter

Rules are scanned as they stand in the policy or in priority order. This file says which answers that
choice cannot change (`order_free`), and there are two reasons for it.

Where denies win, the effect of a decision and the number of rules that it counts come from which rules
apply, and not from where they stand (`sameOutcome_of_perm`). So a policy can be shuffled at will, and
each of the two scans is as good as the other.

Where priority decides, order counts among rules of one priority. But there the fold over the rules as
they stand keeps the very rule that stable ordering moves to the front (`decidingRule_eq_first`).
-/

namespace Clearance

theorem Effect.eq_of_allow_iff {a b : Effect} (h : a = .allow ↔ b = .allow) : a = b := by
  cases a <;> cases b <;> simp_all

/-- Whether two decisions have one effect and count equally many rules. -/
def Decision.SameOutcome (d d' : Decision) : Prop := d.effect = d'.effect ∧ d.matched = d'.matched

namespace Evaluator

variable {e e' : Evaluator} {p p' : Policy} {q : Request}

/-- Scanning by priority is another order and no other test. -/
theorem appliesTo_acl_eq_priority (r : Rule) (q : Request) :
    r.appliesTo .acl q = r.appliesTo .priority q := rfl

/-- Where denies win, decisions come out alike if the same rules apply, in whatever order. -/
theorem sameOutcome_of_perm (hc : e.combining ≠ .priority) (hc' : e'.combining ≠ .priority)
    (h : (p.rules.filter (·.appliesTo e.matching q)).Perm
      (p'.rules.filter (·.appliesTo e'.matching q))) :
    (e.decision p q).SameOutcome (e'.decision p' q) := by
  have heffect : e.effect p q = .allow ↔ e'.effect p' q = .allow := by
    rw [effect_eq_allow_iff_of_applying e p q hc, effect_eq_allow_iff_of_applying e' p' q hc']
    simp only [ne_eq, List.eq_nil_iff_forall_not_mem, h.mem_iff]
  refine ⟨Effect.eq_of_allow_iff heffect, ?_⟩
  rw [(decision_means e p q).1.counted, (decision_means e' p' q).1.counted, h.length_eq]

/-- Where priority decides, the fold over the rules that apply, as they stand in the policy, keeps the
first of them in priority order. -/
theorem decidingRule_eq_first (hc : e.combining = .priority) (p : Policy) (q : Request) :
    e.decidingRule p q = e.combining.decidingRule (p.rules.filter (·.appliesTo e.matching q)) ∧
      e.decidingRule p q = (p.byPriority.filter (·.appliesTo e.matching q)).head? := by
  constructor
  · rw [decidingRule, hc]
    exact strongest_matchingRules e p q
  · rw [List.head?_filter]
    exact decidingRule_eq_find? hc p q

/-- Where priority decides, a decision depends on which rules apply and not on what else there is to the
way of matching. -/
theorem decision_congr_of_rankWins (hc : e.combining = .priority) (hc' : e'.combining = .priority)
    (happlies : ∀ r : Rule, r.appliesTo e.matching q = r.appliesTo e'.matching q) (p : Policy) :
    e.decidingRule p q = e'.decidingRule p q ∧ e.decision p q = e'.decision p q := by
  have hdeciding : e.decidingRule p q = e'.decidingRule p q := by
    rw [(decidingRule_eq_first hc p q).2, (decidingRule_eq_first hc' p q).2]
    simp only [happlies]
  refine ⟨hdeciding, ?_⟩
  rw [decision_eq e p q, decision_eq e' p q, hdeciding, (decision_means e p q).1.counted,
    (decision_means e' p q).1.counted]
  simp only [happlies]

/-- What the order of the rules of a policy leaves as it is in the answer to a request. -/
structure OrderFree (p : Policy) (q : Request) : Prop where
  /-- Where denies win, the rules can stand in any order. -/
  shuffled : ∀ (e : Evaluator) (p' : Policy), e.combining ≠ .priority → p'.rules.Perm p.rules →
    (e.decision p' q).SameOutcome (e.decision p q)
  /-- However rules are combined, they can be scanned as they stand or by priority. -/
  scanned : ∀ (c : Combining) (a a' : Audit),
    (decision ⟨.acl, c, a⟩ p q).SameOutcome (decision ⟨.priority, c, a'⟩ p q)
  /-- Where priority decides, either scan finds the same rule and says the same of it. -/
  found : ∀ a a' : Audit,
    decidingRule ⟨.acl, .priority, a⟩ p q = decidingRule ⟨.priority, .priority, a'⟩ p q ∧
      decision ⟨.acl, .priority, a⟩ p q = decision ⟨.priority, .priority, a'⟩ p q
  /-- The strongest of the rules that apply, as they stand, is the first of them in priority order. -/
  folded : ∀ e : Evaluator, e.combining = .priority →
    e.decidingRule p q = e.combining.decidingRule (p.rules.filter (·.appliesTo e.matching q)) ∧
      e.decidingRule p q = (p.byPriority.filter (·.appliesTo e.matching q)).head?

/-- **The order of a scan does not decide where it should not.** Where denies win, every permutation of
the rules has the same effect and the same count. Whichever way rules are combined, so have the scan of
a policy as it stands and the scan by priority, and where priority decides they find the same rule. -/
theorem order_free (p : Policy) (q : Request) : OrderFree p q where
  shuffled _ _ hc h := sameOutcome_of_perm hc hc (h.filter _)
  scanned c a a' := by
    by_cases hc : c = .priority
    -- here the scans list the same rules in two orders, and the counts agree because the answers do
    · subst hc
      have hsame : decision ⟨.acl, .priority, a⟩ p q = decision ⟨.priority, .priority, a'⟩ p q :=
        (decision_congr_of_rankWins rfl rfl (appliesTo_acl_eq_priority · q) p).2
      rw [hsame]
      exact ⟨rfl, rfl⟩
    · exact sameOutcome_of_perm hc hc (.refl _)
  found _ _ := decision_congr_of_rankWins rfl rfl (appliesTo_acl_eq_priority · q) p
  folded _ hc := decidingRule_eq_first hc p q

/-- Where priority decides, shuffling rules of one priority can change the answer. -/
example :
    effect { combining := .priority } ((guestRule .default).inheritFrom houseRule) guestReads =
        .allow ∧
      effect { combining := .priority } (houseRule.inheritFrom (guestRule .default)) guestReads =
        .deny := by
  decide

end Evaluator

end Clearance
