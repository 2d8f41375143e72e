import Clearance.Proofs.Evaluator

/-!
# What a decision means

A decision comes out of a scan: rules are tried in the order of the policy or in priority order, a
fold or a search picks one, and its effect is the answer. `Decision.Means` says what it should be
without any of that, from the rules that apply in the order of the policy: a deny among them wins,
or, where priority decides, the earliest of those that rank highest (`Combining.FirstStrongest`).

`decision_means` proves it for every way of matching and of combining. What makes it independent of
the order of the scan is that ordering rules stably by priority moves the strongest to the front and
changes neither which it is (`strongest_sort`) nor how many there are.
-/

namespace Clearance

namespace Combining

/-- Whether a rule is the earliest among those of highest priority. -/
def FirstStrongest (rules : List Rule) (r : Rule) : Prop :=
  ∃ front back, rules = front ++ r :: back ∧ (∀ x ∈ front, x.priority < r.priority) ∧
    ∀ x ∈ back, x.priority ≤ r.priority

/-- A fold that begins with a rule goes on to the strongest of the list only if that ranks higher. -/
theorem foldl_better_some (b : Rule) (l : List Rule) :
    l.foldl better (some b) =
      match strongest l with
      | none => some b
      | some c => if c.priority ≤ b.priority then some b else some c := by
  -- the rule to begin with changes on the way, so the statement is about all of them
  induction l generalizing b with
  | nil => rfl
  | cons r l ih =>
    have hstrongest : strongest (r :: l) = l.foldl better (some r) := rfl
    rw [hstrongest, List.foldl_cons, better, ih r]
    split
    next hrb =>
      rw [ih b]
      cases strongest l with
      | none => exact (if_pos hrb).symm
      | some c =>
        by_cases hcr : c.priority ≤ r.priority
        · have hcb : c.priority ≤ b.priority := Int.le_trans hcr hrb
          simp only [hcr, hcb, hrb, if_true]
        · simp only [hcr, if_false]
    next hrb =>
      rw [ih r]
      cases strongest l with
      | none => exact (if_neg hrb).symm
      | some c =>
        by_cases hcr : c.priority ≤ r.priority
        · simp only [hcr, hrb, if_true, if_false]
        · have hcb : ¬ c.priority ≤ b.priority := by
            intro hle
            exact hcr (Int.le_trans hle (Int.le_of_lt (Int.not_le.1 hrb)))
          simp only [hcr, hcb, if_false]

/-- An earlier rule gives way only to one that ranks higher. -/
theorem strongest_cons (r : Rule) (l : List Rule) :
    strongest (r :: l) =
      match strongest l with
      | none => some r
      | some c => if c.priority ≤ r.priority then some r else some c :=
  foldl_better_some r l

/-- There is a strongest rule unless there is none at all. -/
theorem strongest_eq_none_iff {l : List Rule} : strongest l = none ↔ l = [] := by
  cases l with
  | nil => simp [strongest]
  | cons r l =>
    rw [strongest_cons]
    cases strongest l with
    | none => simp
    | some c =>
      dsimp only
      split <;> simp

/-- The fold picks the earliest of the rules of highest priority. -/
theorem firstStrongest_of_strongest {l : List Rule} {r : Rule} (h : strongest l = some r) :
    FirstStrongest l r := by
  induction l generalizing r with
  | nil => exact absurd h (by simp [strongest])
  | cons x l ih =>
    rw [strongest_cons] at h
    cases hl : strongest l with
    | none =>
      rw [hl] at h
      obtain rfl := Option.some.inj h
      exact ⟨[], l, rfl, by simp, by simp [strongest_eq_none_iff.1 hl]⟩
    | some c =>
      obtain ⟨front, back, rfl, hfront, hback⟩ := ih hl
      rw [hl] at h
      dsimp only at h
      split at h
      next hle =>
        -- the strongest of the rest does not rank higher, nor does anything else
        obtain rfl := Option.some.inj h
        refine ⟨[], front ++ c :: back, rfl, by simp, ?_⟩
        intro y hy
        rcases List.mem_append.1 hy with hy | hy
        · exact Int.le_trans (Int.le_of_lt (hfront y hy)) hle
        · rcases List.mem_cons.1 hy with rfl | hy
          · exact hle
          · exact Int.le_trans (hback y hy) hle
      next hlt =>
        obtain rfl := Option.some.inj h
        refine ⟨x :: front, back, rfl, ?_, hback⟩
        intro y hy
        rcases List.mem_cons.1 hy with rfl | hy
        · exact Int.not_le.1 hlt
        · exact hfront y hy

theorem FirstStrongest.mem {l : List Rule} {r : Rule} (h : FirstStrongest l r) : r ∈ l := by
  obtain ⟨front, back, rfl, -, -⟩ := h
  exact List.mem_append_right front (List.mem_cons_self ..)

/-- Nothing ranks higher. -/
theorem FirstStrongest.le {l : List Rule} {r : Rule} (h : FirstStrongest l r) :
    ∀ x ∈ l, x.priority ≤ r.priority := by
  obtain ⟨front, back, rfl, hfront, hback⟩ := h
  intro x hx
  rcases List.mem_append.1 hx with hx | hx
  · exact Int.le_of_lt (hfront x hx)
  · rcases List.mem_cons.1 hx with rfl | hx
    · exact Int.le_refl _
    · exact hback x hx

/-- Ordering by priority moves the strongest rule to the front. -/
theorem head?_sort (l : List Rule) : (Stable.sort Policy.outranks l).head? = strongest l := by
  induction l with
  | nil => rfl
  | cons r l ih =>
    show (Stable.place Policy.outranks r (Stable.sort Policy.outranks l)).head? = _
    rw [strongest_cons, ← ih]
    cases Stable.sort Policy.outranks l with
    | nil => rfl
    | cons y ys =>
      simp only [Stable.place, Policy.outranks, decide_eq_true_eq, List.head?_cons]
      split <;> rfl

/-- Which rule is the strongest does not depend on whether the rules are in priority order. -/
theorem strongest_sort (l : List Rule) : strongest (Stable.sort Policy.outranks l) = strongest l := by
  have hordered : (Stable.sort Policy.outranks l).Pairwise (Policy.outranks · ·) :=
    Policy.byPriority_pairwise (.ofRules l)
  rw [strongest_eq_head? hordered, head?_sort]

/-- Whatever resolves them, some rule decides if any applies. -/
theorem decidingRule_eq_none_iff {c : Combining} {l : List Rule} :
    c.decidingRule l = none ↔ l = [] := by
  have hfind : (l.find? (·.effect == .deny) <|> l.find? (·.effect == .allow)) = none ↔ l = [] := by
    cases l with
    | nil => simp
    | cons r l =>
      refine iff_of_false ?_ (List.cons_ne_nil r l)
      cases he : r.effect <;> simp [he]
  cases c with
  | standard => exact hfind
  | denyOverride => exact hfind
  | priority => exact strongest_eq_none_iff

/-- What decides is one of the rules that apply. -/
theorem mem_of_decidingRule {c : Combining} {l : List Rule} {r : Rule}
    (h : c.decidingRule l = some r) : r ∈ l := by
  have hfind : (l.find? (·.effect == .deny) <|> l.find? (·.effect == .allow)) = some r → r ∈ l := by
    intro h
    cases hd : l.find? (·.effect == .deny) with
    | none =>
      rw [hd] at h
      exact List.mem_of_find?_eq_some h
    | some d =>
      rw [hd] at h
      obtain rfl := Option.some.inj h
      exact List.mem_of_find?_eq_some hd
  cases c with
  | standard => exact hfind h
  | denyOverride => exact hfind h
  | priority => exact (firstStrongest_of_strongest h).mem

end Combining

/-- What a decision says about the rules that apply, in the order of the policy. -/
structure Decision.Means (d : Decision) (c : Combining) (applying : List Rule) : Prop where
  counted : d.matched = applying.length
  /-- Without a rule that applies, the answer is no. -/
  byDefault : applying = [] → d.effect = .deny ∧ d.rule = none
  /-- Otherwise one of them decides, and is shown without its condition. -/
  byRule : applying ≠ [] → ∃ r ∈ applying, d.rule = some r.unconditional ∧ r.effect = d.effect
  /-- A deny among them wins unless priority decides. -/
  denyWins : c ≠ .priority →
    (d.effect = .allow ↔ applying ≠ [] ∧ ∀ r ∈ applying, r.effect ≠ .deny)
  /-- Where priority decides, it is the earliest of those that rank highest. -/
  rankWins : c = .priority → applying ≠ [] →
    ∃ r, Combining.FirstStrongest applying r ∧ d.rule = some r.unconditional ∧ d.effect = r.effect

namespace Evaluator

variable (e : Evaluator) (p : Policy) (q : Request)

/-- The rules that apply are found in the order of the policy or stably ordered by priority. -/
theorem matchingRules_cases :
    e.matchingRules p q = p.rules.filter (·.appliesTo e.matching q) ∨
      e.matchingRules p q =
        Stable.sort Policy.outranks (p.rules.filter (·.appliesTo e.matching q)) := by
  rw [matchingRules_eq, candidates]
  split
  next =>
    exact .inr (Stable.filter_sort _ p.rules)
  next => exact .inl rfl

variable {e p q} in
/-- Policies in which the same rules apply in the same order have the same rules tried. -/
theorem matchingRules_congr {p' : Policy}
    (h : p'.rules.filter (·.appliesTo e.matching q) = p.rules.filter (·.appliesTo e.matching q)) :
    e.matchingRules p' q = e.matchingRules p q := by
  have hsort : ∀ p : Policy, p.byPriority.filter (·.appliesTo e.matching q) =
      Stable.sort Policy.outranks (p.rules.filter (·.appliesTo e.matching q)) := fun p =>
    Stable.filter_sort _ p.rules
  rw [matchingRules_eq, matchingRules_eq, candidates, candidates]
  split
  next => rw [hsort, hsort, h]
  next => exact h

variable {e p q} in
/-- A decision depends on the rules that apply and on their order only. -/
theorem decision_congr {p' : Policy}
    (h : p'.rules.filter (·.appliesTo e.matching q) = p.rules.filter (·.appliesTo e.matching q)) :
    e.decision p' q = e.decision p q := by
  simp only [decision, matchingRules_congr h]

/-- Both orders hold the same rules. -/
theorem matchingRules_perm :
    (e.matchingRules p q).Perm (p.rules.filter (·.appliesTo e.matching q)) := by
  rcases matchingRules_cases e p q with h | h
  · rw [h]
  · rw [h]
    rw [Stable.sort_eq]
    exact List.perm_insertionSort ..

/-- Whether any rule matches does not depend on the order in which they are tried. -/
theorem matchingRules_eq_nil_iff :
    e.matchingRules p q = [] ↔ p.rules.filter (·.appliesTo e.matching q) = [] := by
  have hlength := (matchingRules_perm e p q).length_eq
  rw [← List.length_eq_zero_iff, hlength, List.length_eq_zero_iff]

/-- Both orders have the same strongest rule. -/
theorem strongest_matchingRules :
    Combining.strongest (e.matchingRules p q) =
      Combining.strongest (p.rules.filter (·.appliesTo e.matching q)) := by
  rcases matchingRules_cases e p q with h | h
  · rw [h]
  · rw [h, Combining.strongest_sort]

/-- Where a deny takes precedence, the answer is yes if some rule applies and none that does denies. -/
theorem effect_eq_allow_iff_of_applying (hc : e.combining ≠ .priority) :
    e.effect p q = .allow ↔
      p.rules.filter (·.appliesTo e.matching q) ≠ [] ∧
        ∀ r ∈ p.rules.filter (·.appliesTo e.matching q), r.effect ≠ .deny := by
  have hallows : ∀ r : Rule, r.effect = .allow ↔ r.effect ≠ .deny := by
    intro r
    cases r.effect <;> decide
  have hperm := matchingRules_perm e p q
  rw [effect_eq, Combining.effect_eq_allow_iff hc, ne_eq, matchingRules_eq_nil_iff]
  simp only [hperm.mem_iff, hallows, ne_eq]

/-- Where priority decides, it is the strongest of the rules that apply. -/
theorem firstStrongest_of_decidingRule (hc : e.combining = .priority) {r : Rule}
    (h : e.combining.decidingRule (e.matchingRules p q) = some r) :
    Combining.FirstStrongest (p.rules.filter (·.appliesTo e.matching q)) r := by
  rw [hc] at h
  exact Combining.firstStrongest_of_strongest ((strongest_matchingRules e p q).symm.trans h)

/-- **What is decided follows from the rules that apply.** Whatever the way of matching and of
combining, and whichever way the rules are scanned, a decision counts the rules of the policy that
apply, says no if there are none, and is otherwise that of one of them: of any deny, or, where
priority decides, of the earliest that ranks highest. The effect alone is the same. -/
theorem decision_means :
    (e.decision p q).Means e.combining (p.rules.filter (·.appliesTo e.matching q)) ∧
      e.effect p q = (e.decision p q).effect := by
  refine ⟨?_, rfl⟩
  have hperm := matchingRules_perm e p q
  have hdeny := effect_eq_allow_iff_of_applying e p q
  unfold effect at hdeny
  cases hdeciding : e.combining.decidingRule (e.matchingRules p q) with
  | none =>
    have hdecision : e.decision p q = .byDefault := by
      simp only [decision, hdeciding]
    have hnone : p.rules.filter (·.appliesTo e.matching q) = [] :=
      (matchingRules_eq_nil_iff e p q).1 (Combining.decidingRule_eq_none_iff.1 hdeciding)
    rw [hdecision] at hdeny ⊢
    exact
      { counted := by rw [hnone]; rfl
        byDefault := fun _ => ⟨rfl, rfl⟩
        byRule := fun h => absurd hnone h
        denyWins := hdeny
        rankWins := fun _ h => absurd hnone h }
  | some r =>
    have hdecision : e.decision p q = .byRule r (e.matchingRules p q).length := by
      simp only [decision, hdeciding]
    have hmem : r ∈ p.rules.filter (·.appliesTo e.matching q) :=
      hperm.mem_iff.1 (Combining.mem_of_decidingRule hdeciding)
    rw [hdecision] at hdeny ⊢
    exact
      { counted := hperm.length_eq
        byDefault := fun h => absurd h (List.ne_nil_of_mem hmem)
        byRule := fun _ => ⟨r, hmem, rfl, rfl⟩
        denyWins := hdeny
        rankWins := fun hc _ => ⟨r, firstStrongest_of_decidingRule e p q hc hdeciding, rfl, rfl⟩ }

end Evaluator

end Clearance
