import Clearance.Evaluator
import Clearance.Proofs.Stable

/-!
# What an evaluator decides

`Rule.appliesTo` goes through a probe and `Evaluator.matchingRules` through a list of trials, so
that it is on record which conditions were asked. For the decision itself neither matters: a rule
applies if its domain, its patterns and its condition agree with the request (`appliesTo_eq`), and
the rules that apply are those of the policy that do, in the order of the candidates
(`matchingRules_eq`).

From these follow the two readings of a decision that the rest builds on. Among rules in priority
order the strongest is the first that applies (`decidingRule_eq_find?`). Where a deny takes
precedence, a request is allowed when some rule applies and all that apply allow it
(`isAllow_effect_iff`).
-/

namespace Clearance

theorem Effect.isAllow_iff {e : Effect} : e.isAllow = true ↔ e = .allow := by
  cases e <;> decide

/-- A rule applies if its domain, its patterns and its condition agree with the request. -/
theorem Rule.appliesTo_eq (r : Rule) (m : Matching) (q : Request) :
    r.appliesTo m q =
      (r.appliesIn q.context && m.patternsFit r q && r.conditionHolds (m.conditionContext q)) := by
  unfold Rule.appliesTo Rule.probe Rule.conditionHolds
  cases r.appliesIn q.context with
  | false => rfl
  | true =>
    cases m.patternsFit r q with
    | false => rfl
    | true => cases r.condition <;> rfl

/-- Without its condition a rule applies by domain and patterns alone. -/
theorem Rule.appliesTo_unconditional (r : Rule) (m : Matching) (q : Request) :
    r.unconditional.appliesTo m q = (r.appliesIn q.context && m.patternsFit r q) := by
  rw [Rule.appliesTo_eq]
  simp only [Rule.conditionHolds, Rule.unconditional, Option.all_none, Bool.and_true]
  cases m <;> rfl

namespace Policy

/-- A rule outranks another of its own priority too, so equals keep their order. -/
theorem outranks_iff {a b : Rule} : outranks a b = true ↔ b.priority ≤ a.priority :=
  decide_eq_true_iff

@[simp] theorem mem_byPriority {p : Policy} {r : Rule} : r ∈ p.byPriority ↔ r ∈ p.rules := by
  rw [byPriority, Stable.sort_eq, List.mem_insertionSort]

instance : IsTrans Rule (outranks · ·) where
  trans a b c hab hbc := by
    rw [outranks_iff] at *
    exact Int.le_trans hbc hab

instance : Std.Total (α := Rule) (outranks · ·) where
  total a b := by
    rw [outranks_iff, outranks_iff]
    exact Int.le_total b.priority a.priority

/-- In priority order no rule comes after one that ranks below it. -/
theorem byPriority_pairwise (p : Policy) : p.byPriority.Pairwise (outranks · ·) := by
  rw [byPriority, Stable.sort_eq]
  exact List.pairwise_insertionSort ..

/-- Dropping conditions does not change the order of the rules. -/
theorem byPriority_unconditional (p : Policy) :
    p.unconditional.byPriority = p.byPriority.map (·.unconditional) :=
  Stable.sort_map (fun _ _ => rfl) p.rules

end Policy

namespace Combining

/-- A rule that all others rank no higher than stays the better one. -/
theorem foldl_better_of_outranked {b : Rule} {l : List Rule}
    (h : ∀ r ∈ l, r.priority ≤ b.priority) : l.foldl better (some b) = some b := by
  induction l with
  | nil => rfl
  | cons r l ih =>
    rw [List.foldl_cons, better, if_pos (h r (List.mem_cons_self ..))]
    exact ih fun x hx => h x (List.mem_cons_of_mem _ hx)

/-- Of rules in priority order the first is the strongest. -/
theorem strongest_eq_head? {l : List Rule} (h : l.Pairwise (Policy.outranks · ·)) :
    strongest l = l.head? := by
  cases l with
  | nil => rfl
  | cons r l =>
    refine foldl_better_of_outranked fun x hx => ?_
    exact Policy.outranks_iff.1 ((List.pairwise_cons.1 h).1 x hx)

/-- Where a deny takes precedence, the answer is yes if there is a rule and all rules allow. -/
theorem effect_eq_allow_iff {c : Combining} (hc : c ≠ .priority) (matched : List Rule) :
    c.effect matched = .allow ↔ matched ≠ [] ∧ ∀ r ∈ matched, r.effect = .allow := by
  have hdeciding : c.decidingRule matched =
      (matched.find? (·.effect == .deny) <|> matched.find? (·.effect == .allow)) := by
    cases c <;> first | rfl | exact absurd rfl hc
  rw [effect, hdeciding]
  cases hd : matched.find? (·.effect == .deny) with
  | some d =>
    have hdeny : d.effect = .deny := by simpa using List.find?_some hd
    refine iff_of_false ?_ fun h => ?_
    · show d.effect ≠ .allow
      rw [hdeny]
      decide
    · have := h.2 d (List.mem_of_find?_eq_some hd)
      rw [hdeny] at this
      exact absurd this (by decide)
  | none =>
    have hallow : ∀ r ∈ matched, r.effect = .allow := by
      intro r hr
      have := List.find?_eq_none.1 hd r hr
      cases he : r.effect with
      | allow => rfl
      | deny => simp [he] at this
    cases matched with
    | nil => simp
    | cons r rest =>
      have hr := hallow r (List.mem_cons_self ..)
      have hfind : (r :: rest).find? (·.effect == .allow) = some r := by simp [hr]
      rw [hfind]
      exact iff_of_true hr ⟨List.cons_ne_nil r rest, hallow⟩

end Combining

namespace Evaluator

/-- The rules that apply, in the order in which they are tried. -/
theorem matchingRules_eq (e : Evaluator) (p : Policy) (q : Request) :
    e.matchingRules p q = (e.candidates p).filter (·.appliesTo e.matching q) := by
  unfold matchingRules trials Rule.appliesTo
  rw [List.filter_map, List.map_map]
  exact List.map_id _

/-- The rules that match are those of the policy that apply. -/
theorem mem_matchingRules {e : Evaluator} {p : Policy} {q : Request} {r : Rule} :
    r ∈ e.matchingRules p q ↔ r ∈ p.rules ∧ r.appliesTo e.matching q = true := by
  rw [matchingRules_eq, List.mem_filter, candidates]
  split <;> simp

/-- The effect of a decision is that of the rules that apply, combined. -/
theorem effect_eq (e : Evaluator) (p : Policy) (q : Request) :
    e.effect p q = e.combining.effect (e.matchingRules p q) := by
  simp only [effect, decision, Combining.effect]
  cases e.combining.decidingRule (e.matchingRules p q) <;> rfl

/-- Where priority decides, the deciding rule is the first in priority order that applies. -/
theorem decidingRule_eq_find? {e : Evaluator} (he : e.combining = .priority) (p : Policy)
    (q : Request) :
    e.combining.decidingRule (e.matchingRules p q) =
      p.byPriority.find? (·.appliesTo e.matching q) := by
  have hcandidates : e.candidates p = p.byPriority := by
    unfold candidates
    rw [he, if_pos (by simp [Combining.isPriorityOrdered])]
  rw [he, matchingRules_eq, hcandidates]
  show Combining.strongest _ = _
  rw [Combining.strongest_eq_head? (p.byPriority_pairwise.filter _), List.head?_filter]

/-- Where a deny takes precedence, a request is allowed if some rule applies and all that apply
allow it. -/
theorem isAllow_effect_iff {e : Evaluator} (he : e.combining ≠ .priority) {p : Policy}
    {q : Request} :
    (e.effect p q).isAllow = true ↔
      (∃ r ∈ p.rules, r.appliesTo e.matching q = true) ∧
        ∀ r ∈ p.rules, r.appliesTo e.matching q = true → r.effect = .allow := by
  rw [Effect.isAllow_iff, effect_eq, Combining.effect_eq_allow_iff he]
  simp only [ne_eq, List.eq_nil_iff_forall_not_mem, mem_matchingRules]
  constructor
  · intro h
    obtain ⟨hne, hall⟩ := h
    refine ⟨?_, fun r hr ha => hall r ⟨hr, ha⟩⟩
    exact Decidable.byContradiction fun hn => hne fun r ⟨hr, ha⟩ => hn ⟨r, hr, ha⟩
  · intro h
    obtain ⟨⟨r, hr, ha⟩, hall⟩ := h
    exact ⟨fun hn => hn r ⟨hr, ha⟩, fun r ⟨hr, ha⟩ => hall r hr ha⟩

end Evaluator

end Clearance
