import Clearance.Analysis.Conflicts
import Clearance.Proofs.Decision
import Clearance.Proofs.Glob.Scan

/-!
# What a report of an unreachable rule is worth

An allow is reported as unreachable if a deny of its signature has a strictly higher priority. That
is meant to say that the allow never decides a request where priority decides (`Policy.IdleAt`). But
the report goes by signatures and priorities alone, and whether the deny applies to a request also
hangs on its domain and its condition (`Rule.inForce`).

`unreachable_idle_iff` says how much that matters. In a given context the report can be relied on, in
every policy that makes it, if and only if the deny is in force there whenever the allow is. In
particular a deny without domain and condition keeps the allows below it from deciding anything, and
`other_tenant_decides` shows that a deny of one tenant does not.
-/

namespace Clearance

namespace Combining

/-- No rule is strongest where another one ranks higher. -/
theorem strongest_ne_of_lt {l : List Rule} {r d : Rule} (hd : d ∈ l) (h : r.priority < d.priority) :
    strongest l ≠ some r := by
  intro hr
  exact absurd ((firstStrongest_of_strongest hr).le d hd) (Int.not_le.2 h)

/-- A fold forgets a rule to begin with that something in the list outranks. -/
theorem foldl_better_of_outranking {b d : Rule} {l : List Rule} (hd : d ∈ l)
    (h : b.priority < d.priority) : l.foldl better (some b) = strongest l := by
  rw [foldl_better_some]
  cases hl : strongest l with
  | none => exact absurd (strongest_eq_none_iff.1 hl) (List.ne_nil_of_mem hd)
  | some c =>
    have hdc : d.priority ≤ c.priority := (firstStrongest_of_strongest hl).le d hd
    have hbc : ¬ c.priority ≤ b.priority := Int.not_le.2 (Int.lt_of_lt_of_le h hdc)
    exact if_neg hbc

/-- A rule that another one outranks can be left out. -/
theorem strongest_leave_out {front back : List Rule} {r d : Rule} (hd : d ∈ front ++ back)
    (h : r.priority < d.priority) : strongest (front ++ r :: back) = strongest (front ++ back) := by
  have hsplit : ∀ l, strongest (front ++ l) = l.foldl better (strongest front) :=
    fun l => List.foldl_append
  rw [hsplit, hsplit, List.foldl_cons]
  cases hfront : strongest front with
  | none =>
    rw [strongest_eq_none_iff.1 hfront] at hd
    exact foldl_better_of_outranking hd h
  | some f =>
    rw [better]
    split
    next => rfl
    next hrf =>
      -- the rule that outranks it is behind, since it outranks all that is in front as well
      have hfr : f.priority < r.priority := Int.not_le.1 hrf
      have hfd : f.priority < d.priority := Int.lt_trans hfr h
      have hback : d ∈ back := by
        rcases List.mem_append.1 hd with hd | hd
        · exact absurd ((firstStrongest_of_strongest hfront).le d hd) (Int.not_le.2 hfd)
        · exact hd
      rw [foldl_better_of_outranking hback h, foldl_better_of_outranking hback hfd]

end Combining

namespace Rule

/-- Whether a rule is in force in a context: its domain is that of the context, and its condition
holds. -/
def inForce (r : Rule) (context : Context) : Bool := r.appliesIn context && r.conditionHolds context

/-- A rule without domain and condition is in force everywhere. -/
theorem inForce_of_plain {r : Rule} (hd : r.domain = none) (hc : r.condition = none)
    (context : Context) : r.inForce context = true := by
  simp [inForce, appliesIn, conditionHolds, hd, hc]

/-- Rules of one signature have patterns that fit the same requests. -/
theorem patternsFit_congr {r r' : Rule} (h : r.signature = r'.signature) (m : Matching)
    (q : Request) : m.patternsFit r q = m.patternsFit r' q := by
  obtain ⟨hs, hx, ha⟩ := Signature.mk.inj h
  simp only [Matching.patternsFit, hs, hx, ha]

/-- By the matching for priorities a rule applies if it is in force and its patterns fit. -/
theorem appliesTo_priority (r : Rule) (q : Request) :
    r.appliesTo .priority q = (r.inForce q.context && Matching.patternsFit .priority r q) := by
  rw [appliesTo_eq, inForce, Bool.and_right_comm]
  rfl

/-- The request for what a rule speaks of, its patterns read as plain text. -/
def verbatim (r : Rule) (context : Context) : Request :=
  { subject := { id := r.subject }, resource := r.resource.map .ofId, action := ⟨r.action⟩, context }

/-- The request that a rule spells out itself fits the rule. -/
theorem patternsFit_verbatim (r : Rule) (context : Context) :
    Matching.patternsFit .priority r (r.verbatim context) = true := by
  have hresource : Matching.resourceFits (fun p x => Glob.accepts p x.id) r.resource
      (r.resource.map .ofId) = true := by
    cases r.resource with
    | none => rfl
    | some p => exact Glob.accepts_self p
  simp only [Matching.patternsFit, verbatim, hresource, Glob.accepts_self, Bool.and_self]

end Rule

/-- Lets priority decide, over rules in priority order. -/
def Evaluator.byRank : Evaluator := { matching := .priority, combining := .priority }

namespace Policy

/-- Whether a rule has no part in the decision of a request: it does not decide, and leaving it out
does not change the effect. -/
structure IdleAt (p : Policy) (r : Rule) (q : Request) : Prop where
  decidesNot : Evaluator.byRank.combining.decidingRule (Evaluator.byRank.matchingRules p q) ≠ some r
  dispensable : ∀ front back, p.rules = front ++ r :: back →
    Evaluator.byRank.effect { p with rules := front ++ back } q = Evaluator.byRank.effect p q

theorem decidingRule_byRank (p : Policy) (q : Request) :
    Evaluator.byRank.combining.decidingRule (Evaluator.byRank.matchingRules p q) =
      Combining.strongest (p.rules.filter (·.appliesTo .priority q)) :=
  Evaluator.strongest_matchingRules Evaluator.byRank p q

/-- By rank the effect is that of the strongest rule that applies, and a denial without one. -/
theorem effect_byRank (p : Policy) (q : Request) :
    Evaluator.byRank.effect p q =
      (Combining.strongest (p.rules.filter (·.appliesTo .priority q))).elim .deny (·.effect) := by
  rw [Evaluator.effect_eq, Combining.effect, decidingRule_byRank]

/-- A rule that does not apply is idle. -/
theorem idleAt_of_not_appliesTo {p : Policy} {r : Rule} {q : Request}
    (h : r.appliesTo .priority q = false) : p.IdleAt r q where
  decidesNot hr := by
    rw [decidingRule_byRank] at hr
    have hmem := List.mem_filter.1 (Combining.firstStrongest_of_strongest hr).mem
    rw [h] at hmem
    exact absurd hmem.2 (by decide)
  dispensable front back hp := by
    rw [effect_byRank, effect_byRank, hp, List.filter_append, List.filter_append,
      List.filter_cons_of_neg (by simp [h])]

/-- A rule is idle where a rule applies that ranks higher. -/
theorem idleAt_of_outranked {p : Policy} {r d : Rule} {q : Request} (hd : d ∈ p.rules)
    (happlies : d.appliesTo .priority q = true) (hlt : r.priority < d.priority) : p.IdleAt r q where
  decidesNot := by
    rw [decidingRule_byRank]
    exact Combining.strongest_ne_of_lt (List.mem_filter.2 ⟨hd, happlies⟩) hlt
  dispensable front back hp := by
    rw [effect_byRank, effect_byRank, hp, List.filter_append, List.filter_append, List.filter_cons]
    split
    next =>
      have hne : d ≠ r := fun he => absurd (he ▸ hlt) (Int.lt_irrefl _)
      have hrest : d ∈ front ++ back := by
        rw [hp] at hd
        simpa [hne] using hd
      have hmem : d ∈ front.filter (·.appliesTo .priority q) ++
          back.filter (·.appliesTo .priority q) := by
        rw [← List.filter_append]
        exact List.mem_filter.2 ⟨hrest, happlies⟩
      rw [Combining.strongest_leave_out hmem hlt]
    next => rfl

/-- The rules of a signature are the rules of the policy that have it. -/
theorem mem_rulesOf {p : Policy} {s : Signature} {r : Rule} :
    r ∈ p.rulesOf s ↔ r ∈ p.rules ∧ r.signature = s := by
  simp [rulesOf]

/-- What is shadowed among rules of one signature: the allows below the strongest deny. -/
theorem mem_shadowed {rules : List Rule} {u : Unreachable} :
    u ∈ shadowed rules ↔
      Combining.strongest (rules.filter (·.effect == .deny)) = some u.shadow ∧
        u.rule ∈ rules ∧ u.rule.effect = .allow ∧ u.rule.priority < u.shadow.priority := by
  unfold shadowed
  cases Combining.strongest (rules.filter (·.effect == .deny)) with
  | none => simp
  | some shadow =>
    obtain ⟨rule, shadow'⟩ := u
    simp only [List.mem_map, List.mem_filter, Bool.and_eq_true, beq_iff_eq, decide_eq_true_eq,
      Unreachable.mk.injEq, Option.some.injEq]
    constructor
    · rintro ⟨_, ⟨hmem, hallow, hlt⟩, rfl, rfl⟩
      exact ⟨rfl, hmem, hallow, hlt⟩
    · rintro ⟨rfl, hmem, hallow, hlt⟩
      exact ⟨rule, ⟨hmem, hallow, hlt⟩, rfl, rfl⟩

/-- The unreachable rules of a policy are its allows below the strongest deny of their signature. -/
theorem mem_unreachable {p : Policy} {u : Unreachable} :
    u ∈ p.conflicts.unreachable ↔
      Combining.strongest ((p.rulesOf u.rule.signature).filter (·.effect == .deny)) = some u.shadow ∧
        u.rule ∈ p.rules ∧ u.rule.effect = .allow ∧ u.rule.priority < u.shadow.priority := by
  show u ∈ p.contradictions.flatMap _ ↔ _
  rw [List.mem_flatMap]
  constructor
  · rintro ⟨c, hc, hu⟩
    obtain ⟨s, -, rfl⟩ := List.mem_map.1 (List.mem_filter.1 hc).1
    obtain ⟨hstrongest, hmem, hrest⟩ := mem_shadowed.1 hu
    obtain ⟨hrule, rfl⟩ := mem_rulesOf.1 hmem
    exact ⟨hstrongest, hrule, hrest⟩
  · rintro ⟨hstrongest, hrule, hallow, hlt⟩
    have hmem : u.rule ∈ p.rulesOf u.rule.signature := mem_rulesOf.2 ⟨hrule, rfl⟩
    have hdeny := List.mem_filter.1 (Combining.firstStrongest_of_strongest hstrongest).mem
    refine ⟨⟨u.rule.signature, p.rulesOf u.rule.signature⟩, List.mem_filter.2 ⟨?_, ?_⟩,
      mem_shadowed.2 ⟨hstrongest, hmem, hallow, hlt⟩⟩
    · refine List.mem_map.2 ⟨u.rule.signature, ?_, rfl⟩
      rw [signatures, List.mem_eraseDups]
      exact List.mem_map_of_mem hrule
    · rw [contradict, Bool.and_eq_true, List.any_eq_true, List.any_eq_true]
      exact ⟨⟨u.rule, hmem, by simp [hallow]⟩, ⟨u.shadow, hdeny.1, hdeny.2⟩⟩

/-- What the report says of a pair of rules wherever it is made. -/
theorem shadow_of_mem_unreachable {p : Policy} {u : Unreachable} (h : u ∈ p.conflicts.unreachable) :
    u.shadow ∈ p.rules ∧ u.shadow.signature = u.rule.signature ∧ u.shadow.effect = .deny := by
  obtain ⟨hstrongest, -⟩ := mem_unreachable.1 h
  obtain ⟨hmem, hdeny⟩ := List.mem_filter.1 (Combining.firstStrongest_of_strongest hstrongest).mem
  obtain ⟨hrule, hsignature⟩ := mem_rulesOf.1 hmem
  exact ⟨hrule, hsignature, by simpa using hdeny⟩

/-- A rule that is reported is idle in contexts in which its shadow is in force if the rule is. -/
theorem idleAt_of_mem_unreachable {p : Policy} {u : Unreachable} (h : u ∈ p.conflicts.unreachable)
    {q : Request} (hforce : u.rule.inForce q.context = true → u.shadow.inForce q.context = true) :
    p.IdleAt u.rule q := by
  obtain ⟨-, -, -, hlt⟩ := mem_unreachable.1 h
  obtain ⟨hshadow, hsignature, -⟩ := shadow_of_mem_unreachable h
  cases happlies : u.rule.appliesTo .priority q with
  | false => exact idleAt_of_not_appliesTo happlies
  | true =>
    rw [Rule.appliesTo_priority, Bool.and_eq_true] at happlies
    refine idleAt_of_outranked hshadow ?_ hlt
    rw [Rule.appliesTo_priority, Rule.patternsFit_congr hsignature, hforce happlies.1, happlies.2]
    rfl

/-- An allow below a deny without domain and condition has no part in any decision. -/
theorem idleAt_of_plain_shadow {p : Policy} {u : Unreachable} (h : u ∈ p.conflicts.unreachable)
    (hd : u.shadow.domain = none) (hc : u.shadow.condition = none) (q : Request) :
    p.IdleAt u.rule q :=
  idleAt_of_mem_unreachable h fun _ => Rule.inForce_of_plain hd hc q.context

/-- A pair that is reported at all is reported in the policy of its two rules. -/
theorem mem_unreachable_pair {p : Policy} {u : Unreachable} (h : u ∈ p.conflicts.unreachable) :
    u ∈ (ofRules [u.rule, u.shadow]).conflicts.unreachable := by
  obtain ⟨-, -, hallow, hlt⟩ := mem_unreachable.1 h
  obtain ⟨-, hsignature, hdeny⟩ := shadow_of_mem_unreachable h
  refine mem_unreachable.2 ⟨?_, List.mem_cons_self .., hallow, hlt⟩
  simp [rulesOf, ofRules, hsignature, hallow, hdeny, Combining.strongest, Combining.better]

/-- **When a report of an unreachable rule can be relied on.** In a given context, a rule that is
reported has no part in any decision, whatever policy reports it, if and only if its shadow is in
force there whenever the rule is. -/
theorem unreachable_idle_iff (u : Unreachable) (context : Context) :
    (∀ (p : Policy) (q : Request), u ∈ p.conflicts.unreachable → q.context = context →
        p.IdleAt u.rule q) ↔
      ∀ p : Policy, u ∈ p.conflicts.unreachable →
        u.rule.inForce context = true → u.shadow.inForce context = true := by
  constructor
  · intro hidle p hu hrule
    rw [← Bool.not_eq_false]
    intro hshadow
    have hsignature := (shadow_of_mem_unreachable hu).2.1
    -- with the deny out of force, the allow alone applies to what it speaks of
    have hrules : (ofRules [u.rule, u.shadow]).rules.filter
        (·.appliesTo .priority (u.rule.verbatim context)) = [u.rule] := by
      have happlies : u.rule.appliesTo .priority (u.rule.verbatim context) = true := by
        rw [Rule.appliesTo_priority, Rule.patternsFit_verbatim, Bool.and_true]
        exact hrule
      have hnot : u.shadow.appliesTo .priority (u.rule.verbatim context) = false := by
        rw [Rule.appliesTo_priority, Bool.and_eq_false_iff]
        exact .inl hshadow
      simp [ofRules, happlies, hnot]
    refine (hidle _ (u.rule.verbatim context) (mem_unreachable_pair hu) rfl).decidesNot ?_
    rw [decidingRule_byRank, hrules]
    rfl
  · intro hforce p q hu hq
    exact idleAt_of_mem_unreachable hu (hq ▸ hforce p hu)

/-- Keeps alice from reading the document for one tenant. -/
def tenantDeny : Rule :=
  ((Rule.deny "alice" "doc" "read").withPriority 10).withDomain ⟨"tenant-a", .empty⟩

/-- Alice may read the document, except for that tenant. -/
def exceptForTenant : Policy := .ofRules [tenantDeny, .allow "alice" "doc" "read"]

/-- Alice asks to read the document, for no tenant. -/
def reading : Request := (Rule.allow "alice" "doc" "read").verbatim .empty

/-- The allow is reported as unreachable, decides where that tenant is not concerned, and would be
missed there. -/
theorem other_tenant_decides :
    { rule := .allow "alice" "doc" "read", shadow := tenantDeny } ∈
        exceptForTenant.conflicts.unreachable ∧
      Evaluator.byRank.combining.decidingRule
          (Evaluator.byRank.matchingRules exceptForTenant reading) =
        some (.allow "alice" "doc" "read") ∧
      Evaluator.byRank.effect exceptForTenant reading = .allow ∧
      Evaluator.byRank.effect (ofRules [tenantDeny]) reading = .deny :=
  ⟨List.mem_cons_self .., rfl, by decide, by decide⟩

end Policy

end Clearance
