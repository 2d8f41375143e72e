import Clearance.Proofs.Delegation.Validation
import Clearance.Proofs.Glob.Overlap
import Clearance.Proofs.PolicyStore
import Clearance.Proofs.Scope

/-!
# Handing on what a deny withholds

A delegator should not be able to hand on what an unconditional deny rule withholds from them. The
validator looks for such rules by two tests on patterns read as plain text: the rule may accept the
pair, or the pair may accept the rule's resource pattern while one of the two action patterns
accepts the other. Patterns can overlap without either test noticing. `Rule.straddles` says when:
the deny `* delete` straddles the pair `document:*`, `*`, and the deny `*:secret read` straddles
`document:*`, `read`.

`withheld_iff_straddled` proves that this is the only gap. Once a scope has passed, something in it
is withheld if and only if some live deny straddles one of its pairs. In particular a scope that no
deny straddles hands on nothing that is withheld, and `straddled_delete_passes` shows that the gap
is real.
-/

namespace Clearance

/-- A scope's context names the scope's domain. -/
theorem Scope.domain?_context (s : Scope) : s.context.domain? = s.domain := by
  unfold Scope.context Context.domain?
  cases s.domain with
  | none => rfl
  | some d => simp [Register.get?_insert, Json.asText?]

namespace Rule

open Delegation (Pair pairRequest overlap? exceptions)

/-- Whether a rule's resource and action patterns accept a resource and an action. -/
def reaches (r : Rule) (x a : String) : Bool :=
  r.resource.all (Glob.accepts · x) && Glob.accepts r.action a

/-- Whether a rule speaks of a subject in a domain. -/
def addresses (r : Rule) (subject : String) (domain : Option String) : Bool :=
  r.domain.all (domain == some ·.id) && Glob.accepts r.subject subject

/-- Whether a rule is an unconditional deny that applies when a subject asks for an action on a
resource. -/
def Withholds (r : Rule) (subject x a : String) (context : Context) : Prop :=
  r.effect = .deny ∧ r.condition = none ∧
    r.appliesTo .acl (pairRequest { id := subject } context (x, a)) = true

/-- Whether some resource and some action are accepted both by a pair and by a rule. -/
def overlaps (r : Rule) (pair : Pair) : Bool :=
  r.resource.all (Glob.overlaps pair.1) && Glob.overlaps pair.2 r.action

/-- Whether, read as plain text, a pair accepts a rule's resource and one action the other. -/
def carves (r : Rule) (pair : Pair) : Bool :=
  r.resource.all (Glob.accepts pair.1) &&
    (Glob.accepts pair.2 r.action || Glob.accepts r.action pair.2)

/-- The part that a rule carves from a pair: the rule's resource if it names one, and the narrower
of the two actions. -/
def carved (r : Rule) (pair : Pair) : Pair :=
  (r.resource.getD pair.1, if Glob.accepts pair.2 r.action then r.action else pair.2)

/-- Whether a rule overlaps with a pair although it neither reaches the pair, read as plain text,
nor carves anything from it. -/
def straddles (r : Rule) (pair : Pair) : Bool :=
  r.overlaps pair && !r.reaches pair.1 pair.2 && !r.carves pair

/-- An unconditional rule applies to a pair if it addresses the subject and its patterns reach the
pair. -/
theorem appliesTo_acl_of_unconditional {r : Rule} (hr : r.condition = none) (subject x a : String)
    (context : Context) :
    r.appliesTo .acl (pairRequest { id := subject } context (x, a)) =
      (r.addresses subject context.domain? && r.reaches x a) := by
  have hresource : Matching.resourceFits (fun p y => Glob.accepts p y.id) r.resource
      (some (Resource.ofId x)) = r.resource.all (Glob.accepts · x) := by
    cases r.resource <;> rfl
  rw [appliesTo_eq, conditionHolds, hr, Option.all_none, Bool.and_true]
  show (r.appliesIn context && (Glob.accepts r.subject subject &&
    Matching.resourceFits _ r.resource (some (Resource.ofId x)) && Glob.accepts r.action a)) = _
  rw [hresource, addresses, reaches, appliesIn]
  simp only [Bool.and_assoc]

/-- A rule withholds a pair if it is an unconditional deny that addresses the subject and reaches the
pair. -/
theorem withholds_iff {r : Rule} {subject x a : String} {context : Context} :
    r.Withholds subject x a context ↔
      r.effect = .deny ∧ r.condition = none ∧ r.addresses subject context.domain? = true ∧
        r.reaches x a = true := by
  unfold Withholds
  constructor
  · intro hparts
    obtain ⟨hdeny, hcond, h⟩ := hparts
    rw [appliesTo_acl_of_unconditional hcond, Bool.and_eq_true] at h
    exact ⟨hdeny, hcond, h⟩
  · intro hparts
    obtain ⟨hdeny, hcond, h⟩ := hparts
    exact ⟨hdeny, hcond, by rw [appliesTo_acl_of_unconditional hcond, Bool.and_eq_true]; exact h⟩

/-- A rule overlaps with a pair if it reaches something that the pair accepts. -/
theorem overlaps_iff {r : Rule} {pair : Pair} :
    r.overlaps pair = true ↔
      ∃ x a, Glob.accepts pair.1 x = true ∧ Glob.accepts pair.2 a = true ∧
        r.reaches x a = true := by
  unfold overlaps reaches
  rw [Bool.and_eq_true, Glob.overlaps_iff]
  have hresource : r.resource.all (Glob.overlaps pair.1) = true ↔
      ∃ x, Glob.accepts pair.1 x = true ∧ r.resource.all (Glob.accepts · x) = true := by
    cases r.resource with
    | none => simpa using ⟨pair.1, Glob.accepts_self pair.1⟩
    | some d => simpa using Glob.overlaps_iff pair.1 d
  rw [hresource]
  constructor
  · intro hparts
    obtain ⟨⟨x, hx, hrx⟩, a, ha, hra⟩ := hparts
    exact ⟨x, a, hx, ha, by rw [hrx, hra]; rfl⟩
  · intro hparts
    obtain ⟨x, a, hx, ha, h⟩ := hparts
    obtain ⟨hrx, hra⟩ := Bool.and_eq_true_iff.1 h
    exact ⟨⟨x, hx, hrx⟩, a, ha, hra⟩

/-- What a rule speaks of inside a pair is what it carves out of it. -/
theorem overlap?_eq (r : Rule) (pair : Pair) :
    overlap? pair r = if r.carves pair then some (r.carved pair) else none := by
  unfold overlap? carves carved
  cases r.resource with
  | none => cases Glob.accepts pair.2 r.action <;> cases Glob.accepts r.action pair.2 <;> rfl
  | some d =>
    cases h : Glob.accepts pair.1 d <;> cases Glob.accepts pair.2 r.action <;>
      cases Glob.accepts r.action pair.2 <;> simp [h]

/-- A rule reaches what it carves from a pair. -/
theorem reaches_carved {r : Rule} {pair : Pair} (h : r.carves pair = true) :
    r.reaches (r.carved pair).1 (r.carved pair).2 = true := by
  unfold carves at h
  unfold reaches carved
  obtain ⟨-, haction⟩ := Bool.and_eq_true_iff.1 h
  rw [Bool.and_eq_true]
  refine ⟨?_, ?_⟩
  · cases r.resource with
    | none => rfl
    | some d => exact Glob.accepts_self d
  · show Glob.accepts r.action (if Glob.accepts pair.2 r.action then r.action else pair.2) = true
    split
    next => exact Glob.accepts_self r.action
    next hnot => exact (Bool.or_eq_true_iff.1 haction).resolve_left hnot

/-- From a pair without metacharacters nothing is carved but the pair. -/
theorem carved_eq_of_plain {r : Rule} {pair : Pair} (h₁ : Glob.isGlob pair.1 = false)
    (h₂ : Glob.isGlob pair.2 = false) (h : r.carves pair = true) : r.carved pair = pair := by
  unfold carves at h
  unfold carved
  obtain ⟨hresource, -⟩ := Bool.and_eq_true_iff.1 h
  refine Prod.ext ?_ ?_
  · show r.resource.getD pair.1 = pair.1
    cases hr : r.resource with
    | none => rfl
    | some d =>
      rw [hr] at hresource
      exact (Glob.eq_of_accepts_of_not_isGlob h₁ hresource).symm
  · show (if Glob.accepts pair.2 r.action then r.action else pair.2) = pair.2
    split
    next hacc => exact (Glob.eq_of_accepts_of_not_isGlob h₂ hacc).symm
    next => rfl

/-- A rule straddles a pair that it overlaps and neither reaches nor carves. -/
theorem straddles_iff {r : Rule} {pair : Pair} :
    r.straddles pair = true ↔
      r.overlaps pair = true ∧ r.reaches pair.1 pair.2 = false ∧ r.carves pair = false := by
  unfold straddles
  simp only [Bool.and_eq_true, Bool.not_eq_true', and_assoc]

end Rule

namespace Delegation

open Time (Instant)

variable {w : Memory} {v : Validator} {now : Moment} {delegator : String} {scope : Scope}

/-- Where the policy gives a pair to a delegator, no deny that speaks of the delegator reaches the
pair or carves anything from it. -/
theorem not_reached_of_given {p : Policy} {context : Context} {pair : Pair} {e : Evaluator}
    (hm : e.matching = .acl) (hc : e.combining ≠ .priority)
    (hgiven : (givenByPolicy e p (pairRequest { id := delegator } context) pair).1 = true)
    {r : Rule} (hr : r ∈ p.rules) (hdeny : r.effect = .deny) (hcond : r.condition = none)
    (haddr : r.addresses delegator context.domain? = true) :
    r.reaches pair.1 pair.2 = false ∧ r.carves pair = false := by
  rw [givenByPolicy_fst, Bool.and_eq_true] at hgiven
  obtain ⟨hpair, hexceptions⟩ := hgiven
  -- an allowed question is one that the deny does not reach
  have hallowed : ∀ x : Pair,
      (e.effect p (pairRequest { id := delegator } context x)).isAllow = true →
        r.reaches x.1 x.2 = false := by
    intro x hx
    rw [Evaluator.isAllow_effect_iff hc] at hx
    rw [← Bool.not_eq_true]
    intro hreach
    have happlies : r.appliesTo e.matching (pairRequest { id := delegator } context x) = true := by
      rw [hm, Rule.appliesTo_acl_of_unconditional hcond, haddr, hreach]
      rfl
    rw [hx.2 r hr happlies] at hdeny
    exact absurd hdeny (by decide)
  have hreach := hallowed pair hpair
  -- what the deny carves from the pair has been asked about too, and allowed
  refine ⟨hreach, ?_⟩
  rw [← Bool.not_eq_true]
  intro hcarves
  have hcarved := Rule.reaches_carved hcarves
  by_cases hglob : (Glob.isGlob pair.1 || Glob.isGlob pair.2) = true
  · have hmem : r.carved pair ∈ exceptions p pair := by
      unfold exceptions
      rw [if_pos hglob]
      refine List.mem_filterMap.2 ⟨r, List.mem_filter.2 ⟨hr, by simp [hdeny]⟩, ?_⟩
      rw [Rule.overlap?_eq, if_pos hcarves]
    rw [hallowed _ (List.all_eq_true.1 hexceptions _ hmem)] at hcarved
    exact absurd hcarved (by decide)
  · rw [Bool.not_eq_true, Bool.or_eq_false_iff] at hglob
    rw [Rule.carved_eq_of_plain hglob.1 hglob.2 hcarves, hreach] at hcarved
    exact absurd hcarved (by decide)

/-- In a scope that has passed, every live deny that speaks of the delegator misses every pair. -/
theorem not_reached_of_check_ok (hm : v.evaluator.matching = .acl)
    (hc : v.evaluator.combining ≠ .priority) (hv : v.redelegation = false)
    (hok : (Attempt.on (v.check Memory.backend now { id := delegator } scope) w).1 = .ok ())
    {r : Rule} (hlive : w.policies.IsLive r) (hdeny : r.effect = .deny)
    (hcond : r.condition = none) (haddr : r.addresses delegator scope.domain = true)
    {pair : Pair} (hpair : pair ∈ scope.pairs) :
    r.reaches pair.1 pair.2 = false ∧ r.carves pair = false := by
  have hholds := Validator.check_ok_iff.1 hok pair hpair
  unfold Validator.holds Validator.heldByDelegation at hholds
  rw [hv, if_neg (by decide), List.any_nil, Bool.or_false] at hholds
  rw [← scope.domain?_context] at haddr
  refine not_reached_of_given hm hc hholds ?_ hdeny hcond haddr
  rw [PolicyStore.mem_policiesFor]
  refine ⟨hlive, ?_⟩
  unfold PolicyStore.concerns Matching.subjectOrRoleFits
  rw [(Bool.and_eq_true_iff.1 haddr).2, Bool.or_true]

/-- **A deny that straddles a pair is the only thing that slips through.** When a scope has passed
on the strength of the policies alone, with deny taking precedence, then some action on some
resource in the scope is withheld from the delegator by a live unconditional deny if and only if
such a deny straddles a pair of the scope. -/
theorem withheld_iff_straddled (hm : v.evaluator.matching = .acl)
    (hc : v.evaluator.combining = .standard ∨ v.evaluator.combining = .denyOverride)
    (hv : v.redelegation = false)
    (hok : (Attempt.on (v.check Memory.backend now { id := delegator } scope) w).1 = .ok ())
    {context : Context} (hcontext : context.domain? = scope.domain) :
    (∃ x a, scope.includes x a = true ∧
        ∃ r, w.policies.IsLive r ∧ r.Withholds delegator x a context) ↔
      ∃ r, w.policies.IsLive r ∧ r.effect = .deny ∧ r.condition = none ∧
        r.addresses delegator scope.domain = true ∧
        ∃ pair ∈ scope.pairs, r.straddles pair = true := by
  have hpriority : v.evaluator.combining ≠ .priority := by
    rcases hc with h | h <;> rw [h] <;> decide
  constructor
  · intro hparts
    obtain ⟨x, a, hin, r, hlive, hwithholds⟩ := hparts
    obtain ⟨hdeny, hcond, haddr, hreach⟩ := Rule.withholds_iff.1 hwithholds
    rw [hcontext] at haddr
    obtain ⟨pair, hpair, hx, ha⟩ := Scope.includes_iff.1 hin
    have hmiss := not_reached_of_check_ok hm hpriority hv hok hlive hdeny hcond haddr hpair
    refine ⟨r, hlive, hdeny, hcond, haddr, pair, hpair, ?_⟩
    exact Rule.straddles_iff.2 ⟨Rule.overlaps_iff.2 ⟨x, a, hx, ha, hreach⟩, hmiss⟩
  · intro hparts
    obtain ⟨r, hlive, hdeny, hcond, haddr, pair, hpair, hstraddles⟩ := hparts
    obtain ⟨x, a, hx, ha, hreach⟩ := Rule.overlaps_iff.1 (Rule.straddles_iff.1 hstraddles).1
    rw [← hcontext] at haddr
    exact ⟨x, a, Scope.includes_iff.2 ⟨pair, hpair, hx, ha⟩, r, hlive,
      Rule.withholds_iff.2 ⟨hdeny, hcond, haddr, hreach⟩⟩

/-- A memory with one live policy, by which alice may do anything to documents except for what a
further rule says. -/
def exceptFor (r : Rule) : Memory :=
  { policies := PolicyStore.empty.put "main" (.ofRules [.allow "alice" "document:*" "*", r]) false }

/-- The deny is live among the policies of the example. -/
theorem isLive_exceptFor (r : Rule) : (exceptFor r).policies.IsLive r :=
  ⟨"main", .ofRules [.allow "alice" "document:*" "*", r], rfl, .tail _ (.head _)⟩

/-- Goes by the policies alone. -/
def byPolicy : Validator := { evaluator := { matching := .acl }, redelegation := false }

/-- Whether alice may hand on, by the policies alone, what she may do but for a rule. -/
def passes (r : Rule) (scope : Scope) : Prop :=
  (Attempt.on (byPolicy.check Memory.backend (second 0) { id := "alice" } scope)
    (exceptFor r)).1 = .ok ()

/-- The secret part of the documents goes along although it may not be read. -/
theorem withheld_secret :
    passes (.deny "alice" "*:secret" "read") ⟨["document:*"], ["read"], none⟩ ∧
      ∃ x a, Scope.includes ⟨["document:*"], ["read"], none⟩ x a = true ∧
        ∃ r, (exceptFor (.deny "alice" "*:secret" "read")).policies.IsLive r ∧
          r.Withholds "alice" x a .empty := by
  have hok : passes (.deny "alice" "*:secret" "read") ⟨["document:*"], ["read"], none⟩ :=
    Validator.check_ok_iff.2 (by decide +kernel)
  refine ⟨hok, (withheld_iff_straddled rfl (.inl rfl) rfl hok rfl).2 ?_⟩
  exact ⟨.deny "alice" "*:secret" "read", isLive_exceptFor _, rfl, rfl, by decide,
    ("document:*", "read"), by decide, by decide⟩

/-- Everything on documents can be handed on by someone who may not delete anything. -/
theorem straddled_delete_passes :
    passes (.deny "alice" "*" "delete") ⟨["document:*"], ["*"], none⟩ ∧
      Scope.includes ⟨["document:*"], ["*"], none⟩ "document:1" "delete" = true ∧
      ∃ r, (exceptFor (.deny "alice" "*" "delete")).policies.IsLive r ∧
        r.Withholds "alice" "document:1" "delete" .empty :=
  ⟨Validator.check_ok_iff.2 (by decide +kernel), by decide, .deny "alice" "*" "delete",
    isLive_exceptFor _, rfl, rfl, by decide⟩

end Delegation

end Clearance
