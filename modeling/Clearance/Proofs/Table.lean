import Clearance.Proofs.Evaluator
import Clearance.Table

/-!
# A table decides as the policy does

A table is made from a policy by leaving things out: rules confined to a domain, rules whose
patterns have occurred before, everything behind an entry that fits every request, and all
conditions. This file proves that none of it is missed: `evaluate_eq_effect` says that the table
answers every request as an evaluator does that lets priority decide, on the policy without its
conditions, in a context that names no domain.

The middle is `find?_place`. Placing rules one after another keeps the first that fits as long as
no rule with an occurred signature fits (`Settled`): a rule confined to a domain is skipped on both
sides and settles nothing, a repeated one cannot fit, and an entry that fits everything is itself
the first that fits, so it does not matter that the table ends there. Whether an entry fits depends
on its signature only (`Entry.accepts_congr`), which is why a signature that has been placed and
did not fit is settled.
-/

namespace Clearance

namespace Glob

theorem accepts_star (value : String) : accepts "*" value = true := rfl

/-- A pattern that is no glob accepts itself alone. -/
theorem accepts_of_not_isGlob {pattern : String} (h : isGlob pattern = false) (value : String) :
    accepts pattern value = decide (pattern = value) := by
  unfold accepts
  split
  next hp =>
    subst hp
    exact absurd h (by decide)
  next => simp [h]

end Glob

namespace Guard

/-- The guard of a pattern accepts what the pattern accepts. -/
theorem accepts_ofPattern_some (pattern value : String) :
    (ofPattern (some pattern)).accepts value = Glob.accepts pattern value := by
  show (if pattern = "*" then any else
    if Glob.isGlob pattern then glob pattern else exact pattern).accepts value = _
  split
  next hp =>
    subst hp
    exact (Glob.accepts_star value).symm
  next =>
    split
    next => rfl
    next hg =>
      rw [Glob.accepts_of_not_isGlob (by simpa using hg)]
      rfl

theorem accepts_ofPattern_none (value : String) : (ofPattern none).accepts value = true := rfl

theorem accepts_of_isAny {g : Guard} (h : g.isAny = true) (value : String) :
    g.accepts value = true := by
  obtain rfl : g = any := by simpa [isAny] using h
  rfl

end Guard

namespace Entry

/-- An entry that is open fits every request. -/
theorem accepts_of_isOpen {e : Entry} (h : e.isOpen = true) (s x a : String) :
    e.accepts s x a = true := by
  simp only [isOpen, Bool.and_eq_true] at h
  obtain ⟨⟨hs, hx⟩, ha⟩ := h
  simp only [accepts, Guard.accepts_of_isAny hs, Guard.accepts_of_isAny hx,
    Guard.accepts_of_isAny ha, Bool.and_self]

/-- Rules of one signature have entries that fit the same requests. -/
theorem accepts_congr {r r' : Rule} (h : r.signature = r'.signature) (s x a : String) :
    (ofRule r).accepts s x a = (ofRule r').accepts s x a := by
  obtain ⟨hs, hx, ha⟩ := Signature.mk.inj h
  simp only [accepts, ofRule, hs, hx, ha]

/-- The entry of a rule fits where the patterns of the rule do. -/
theorem accepts_ofRule {m : Matching} (hm : m = .acl ∨ m = .abac ∨ m = .priority) (r : Rule)
    (s x a : String) (context : Context) :
    (ofRule r).accepts s x a =
      m.patternsFit r
        { subject := { id := s }, resource := some (.ofId x), action := ⟨a⟩, context } := by
  have hresource : (Guard.ofPattern r.resource).accepts x =
      Matching.resourceFits (fun p y => Glob.accepts p y.id) r.resource (some (.ofId x)) := by
    cases r.resource with
    | none => exact Guard.accepts_ofPattern_none x
    | some p => exact Guard.accepts_ofPattern_some p x
  unfold accepts ofRule
  rw [Guard.accepts_ofPattern_some, Guard.accepts_ofPattern_some, hresource]
  rcases hm with rfl | rfl | rfl <;> rfl

end Entry

namespace Table

/-- No rule whose signature has occurred fits the request. -/
def Settled (seen : List Signature) (s x a : String) : Prop :=
  ∀ r : Rule, r.signature ∈ seen → (Entry.ofRule r).accepts s x a = false

/-- What does not fit is settled with its signature. -/
theorem Settled.cons {seen : List Signature} {s x a : String} (h : Settled seen s x a) {r : Rule}
    (hr : (Entry.ofRule r).accepts s x a = false) : Settled (r.signature :: seen) s x a := by
  intro r' hr'
  rcases List.mem_cons.1 hr' with he | hm
  · rw [Entry.accepts_congr he, hr]
  · exact h r' hm

/-- Placing rules keeps the first one without a domain that fits. -/
theorem find?_place {seen : List Signature} {s x a : String} (h : Settled seen s x a)
    (rules : List Rule) :
    ((place seen rules).filterMap (·.2.asEntry)).find? (·.accepts s x a) =
      (rules.find? fun r => r.domain.isNone && (Entry.ofRule r).accepts s x a).map .ofRule := by
  induction rules generalizing seen with
  | nil => rfl
  | cons r rest ih =>
    unfold place
    cases hd : r.domain with
    | some d =>
      -- a rule confined to a domain is passed over on both sides, and nothing gets settled
      rw [List.find?_cons_of_neg (by simp [hd])]
      exact ih h
    | none =>
      dsimp only
      split
      next hseen =>
        -- an earlier rule of the signature did not fit, so neither does this one
        rw [List.find?_cons_of_neg (by simp [h r (by simpa using hseen)])]
        exact ih h
      next =>
        cases hfit : (Entry.ofRule r).accepts s x a with
        | true =>
          rw [List.find?_cons_of_pos (by simp [hd, hfit])]
          show List.find? _ (Entry.ofRule r :: _) = some (Entry.ofRule r)
          rw [List.find?_cons, hfit]
        | false =>
          -- an entry that accepts everything would have fitted, so the table does not end here
          have hopen : ¬ (Entry.ofRule r).isOpen = true := fun ho => by
            rw [Entry.accepts_of_isOpen ho] at hfit
            exact absurd hfit (by decide)
          rw [List.find?_cons_of_neg (by simp [hfit]), if_neg hopen]
          show List.find? _ (Entry.ofRule r :: _) = _
          rw [List.find?_cons, hfit]
          exact ih (h.cons hfit)

/-- The table decides as the first rule in priority order that has no domain and fits. -/
theorem evaluate_eq_find? (p : Policy) (s x a : String) :
    (ofPolicy p).evaluate s x a =
      (p.byPriority.find? fun r => r.domain.isNone && (Entry.ofRule r).accepts s x a).elim
        .deny (·.effect) := by
  have hnone : Settled [] s x a := fun r hr => absurd hr (List.not_mem_nil)
  unfold evaluate ofPolicy Policy.placements
  rw [find?_place hnone]
  cases p.byPriority.find? _ <;> rfl

end Table

/-- Where the context names no domain, a rule applies there if it has none. -/
theorem Rule.appliesIn_of_no_domain {context : Context}
    (h : ∀ d, context.get? domainKey ≠ some (.str d)) (r : Rule) :
    r.appliesIn context = r.domain.isNone := by
  have hdomain : context.domain? = none := by
    unfold Context.domain?
    cases hg : context.get? domainKey with
    | none => rfl
    | some j => cases j <;> first | rfl | exact absurd hg (h _)
  unfold Rule.appliesIn
  rw [hdomain]
  cases r.domain <;> rfl

/-- **A table answers as the policy does**: for every request without a domain, whatever else its
context holds, the table of a policy and an evaluator that lets priority decide give the policy
without its conditions the same effect. -/
theorem Table.evaluate_eq_effect (p : Policy) (e : Evaluator)
    (hm : e.matching = .acl ∨ e.matching = .abac ∨ e.matching = .priority)
    (hc : e.combining = .priority) (s x a : String) (context : Context)
    (hdomain : ∀ d, context.get? domainKey ≠ some (.str d)) :
    (Table.ofPolicy p).evaluate s x a =
      e.effect p.unconditional
        { subject := { id := s }, resource := some (.ofId x), action := ⟨a⟩, context } := by
  have happlies : ∀ r : Rule,
      r.unconditional.appliesTo e.matching
          { subject := { id := s }, resource := some (.ofId x), action := ⟨a⟩, context } =
        (r.domain.isNone && (Entry.ofRule r).accepts s x a) := fun r => by
    rw [Rule.appliesTo_unconditional, Entry.accepts_ofRule hm r s x a context,
      Rule.appliesIn_of_no_domain hdomain]
  rw [Table.evaluate_eq_find?, Evaluator.effect_eq, Combining.effect,
    Evaluator.decidingRule_eq_find? hc, Policy.byPriority_unconditional, List.find?_map]
  simp only [Function.comp_def, happlies]
  cases p.byPriority.find? _ <;> rfl

/-- A policy with a rule in a domain, a signature that comes twice, a condition that never holds, a
rule without a resource, and an allow that outranks only some of them. -/
def layered : Policy :=
  .ofRules [
    (Rule.allow "user:*" "document:*" "read").withPriority 5,
    ((Rule.deny "*" "*" "*").withPriority 9).withDomain ⟨"eu", .empty⟩,
    (Rule.deny "user:*" "document:*" "read").withPriority 5,
    ((Rule.deny "user:mallory" "*" "*").withPriority 7).withCondition ⟨0, fun _ => false⟩,
    .onAny "*" "*" .deny]

/-- A domain that is not a text is no domain. -/
theorem layered_allows_reading :
    (∀ d, (Register.empty.insert domainKey (.bool true) : Context).get? domainKey ≠
        some (.str d)) ∧
      Evaluator.effect { matching := .abac, combining := .priority } layered.unconditional
          { subject := { id := "user:1" }
            resource := some (.ofId "document:7")
            action := ⟨"read"⟩
            context := Register.empty.insert domainKey (.bool true) } = .allow := by
  have hdomain : ∀ d, (Register.empty.insert domainKey (.bool true) : Context).get? domainKey ≠
      some (.str d) := by
    intro d
    rw [Register.get?_insert]
    simp
  refine ⟨hdomain, ?_⟩
  rw [← Table.evaluate_eq_effect _ _ (.inr (.inl rfl)) rfl _ _ _ _ hdomain]
  decide

end Clearance
