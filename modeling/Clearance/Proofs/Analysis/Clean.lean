import Clearance.Proofs.Analysis.Unreachable

/-!
# What a clean report is worth

A report knows nothing of requests: it compares rules of one signature. For rules with patterns that is
no guarantee, since rules of different signatures can apply to one request. Where every rule speaks of one
request only (`Rule.IsConcrete`), the rules that apply to a request are all of the signature that the
request has itself (`signature_of_appliesTo`). A report without findings that bear on decisions then says
that they agree, and rules that agree give the same answer however they are combined
(`effect_eq_of_agreed`). So the choice of a way to combine rules does not matter
(`effect_eq_of_clean`), whatever their priorities, domains and conditions.
-/

namespace Clearance

/-- Whether a rule speaks of one request only: it names a resource, and no pattern of it stands for more
than itself. -/
def Rule.IsConcrete (r : Rule) : Prop :=
  ∃ resource, r.resource = some resource ∧
    ∀ pattern ∈ [r.subject, resource, r.action], '*' ∉ pattern.toList ∧ '?' ∉ pattern.toList

/-- What a request is about by the names in it. -/
def Request.signature (q : Request) : Signature :=
  ⟨q.subject.id, q.resource.map (·.id), q.action.name⟩

/-- The ways of matching that go by the ids of subject and resource and the name of the action. -/
def Matching.GoesByIds (m : Matching) : Prop := m = .acl ∨ m = .abac ∨ m = .priority

/-- A rule that speaks of one request has the signature of a request to which it applies. -/
theorem Rule.IsConcrete.signature_of_appliesTo {r : Rule} (hr : r.IsConcrete) {m : Matching}
    (hm : m.GoesByIds) {q : Request} (h : r.appliesTo m q = true) : r.signature = q.signature := by
  obtain ⟨x, hx, hplain⟩ := hr
  have heq : ∀ pattern ∈ [r.subject, x, r.action], ∀ value,
      Glob.accepts pattern value = true → pattern = value := fun pattern hmem value haccepts =>
    Glob.eq_of_accepts_of_not_isGlob (Glob.not_isGlob_iff.2 (hplain pattern hmem)) haccepts
  have hfit : (Glob.accepts r.subject q.subject.id &&
      Matching.resourceFits (fun p y => Glob.accepts p y.id) r.resource q.resource &&
      Glob.accepts r.action q.action.name) = true := by
    rw [Rule.appliesTo_eq, Bool.and_eq_true, Bool.and_eq_true] at h
    rcases hm with rfl | rfl | rfl <;> exact h.1.2
  simp only [Bool.and_eq_true] at hfit
  obtain ⟨⟨hsubject, hresource⟩, haction⟩ := hfit
  have hresource' : r.resource = q.resource.map (·.id) := by
    rw [hx] at hresource ⊢
    cases hq : q.resource with
    | none =>
      rw [hq] at hresource
      exact absurd hresource (by simp [Matching.resourceFits])
    | some y =>
      rw [hq] at hresource
      exact congrArg some (heq x (by simp) y.id hresource)
  rw [Rule.signature, Request.signature, heq r.subject (by simp) _ hsubject, hresource',
    heq r.action (by simp) _ haction]

namespace Combining

variable {c c' : Combining} {matched matched' : List Rule}

/-- What all rules say is what they come to. -/
theorem effect_of_unanimous {said : Effect} (hne : matched ≠ [])
    (h : ∀ r ∈ matched, r.effect = said) : c.effect matched = said := by
  rw [effect]
  cases hdeciding : c.decidingRule matched with
  | none => exact absurd (decidingRule_eq_none_iff.1 hdeciding) hne
  | some r => exact h r (mem_of_decidingRule hdeciding)

/-- Rules that agree come to the same in any order and however they are combined. -/
theorem effect_eq_of_agreed (hperm : matched'.Perm matched)
    (h : ∀ r ∈ matched, ∀ r' ∈ matched, r.effect = r'.effect) :
    c'.effect matched' = c.effect matched := by
  cases matched with
  | nil =>
    rw [List.perm_nil.1 hperm, effect, effect, decidingRule_eq_none_iff.2 rfl,
      decidingRule_eq_none_iff.2 rfl]
  | cons r rest =>
    have hsaid : ∀ x ∈ r :: rest, x.effect = r.effect := fun x hx => h x hx r (List.mem_cons_self ..)
    have hne' : matched' ≠ [] := fun hnil => by
      rw [hnil] at hperm
      exact absurd (List.nil_perm.1 hperm) (List.cons_ne_nil r rest)
    rw [effect_of_unanimous (List.cons_ne_nil r rest) hsaid,
      effect_of_unanimous hne' fun x hx => hsaid x (hperm.mem_iff.1 hx)]

end Combining

namespace Policy

variable {p : Policy}

/-- Without findings that bear on decisions, rules of one signature agree. -/
theorem effect_eq_of_signature_eq (hclean : p.conflicts.bearOnDecisions = false) {r r' : Rule}
    (hr : r ∈ p.rules) (hr' : r' ∈ p.rules) (hs : r.signature = r'.signature) :
    r.effect = r'.effect := by
  have hnone : p.contradictions = [] := by
    unfold Conflicts.bearOnDecisions at hclean
    rw [Bool.or_eq_false_iff, Bool.not_eq_false'] at hclean
    exact List.isEmpty_iff.1 hclean.1
  have hagree : contradict (p.rulesOf r.signature) = false := by
    have hmem : r.signature ∈ p.signatures := by
      rw [signatures, List.mem_eraseDups]
      exact List.mem_map_of_mem hr
    have hfound := List.filter_eq_nil_iff.1 hnone _ (List.mem_map_of_mem hmem)
    exact Bool.eq_false_iff.2 hfound
  have hboth : ∀ x ∈ p.rulesOf r.signature, ∀ y ∈ p.rulesOf r.signature,
      ¬ (x.effect = .allow ∧ y.effect = .deny) := by
    rintro x hx y hy ⟨hallow, hdeny⟩
    rw [contradict, Bool.and_eq_false_iff, List.any_eq_false, List.any_eq_false] at hagree
    rcases hagree with hagree | hagree
    · exact hagree x hx (by simp [hallow])
    · exact hagree y hy (by simp [hdeny])
  have hmem := mem_rulesOf.2 ⟨hr, rfl⟩
  have hmem' := mem_rulesOf.2 ⟨hr', hs.symm⟩
  cases he : r.effect <;> cases he' : r'.effect
  · rfl
  · exact absurd ⟨he, he'⟩ (hboth r hmem r' hmem')
  · exact absurd ⟨he', he⟩ (hboth r' hmem' r hmem)
  · rfl

/-- **A clean report means that the way of combining rules does not matter**, for rules that speak of one
request each. Two evaluators that match in the same way, by ids, answer every request alike if the report
on the policy holds nothing that bears on decisions. -/
theorem effect_eq_of_clean (hconcrete : ∀ r ∈ p.rules, r.IsConcrete)
    (hclean : p.conflicts.bearOnDecisions = false) {e e' : Evaluator} (hids : e.matching.GoesByIds)
    (hsame : e'.matching = e.matching) (q : Request) : e'.effect p q = e.effect p q := by
  have hperm : (e'.matchingRules p q).Perm (e.matchingRules p q) := by
    have hafter := e'.matchingRules_perm p q
    rw [hsame] at hafter
    exact hafter.trans (e.matchingRules_perm p q).symm
  rw [Evaluator.effect_eq, Evaluator.effect_eq]
  refine Combining.effect_eq_of_agreed hperm fun r hr r' hr' => ?_
  obtain ⟨hmem, happlies⟩ := Evaluator.mem_matchingRules.1 hr
  obtain ⟨hmem', happlies'⟩ := Evaluator.mem_matchingRules.1 hr'
  refine effect_eq_of_signature_eq hclean hmem hmem' ?_
  rw [(hconcrete r hmem).signature_of_appliesTo hids happlies,
    (hconcrete r' hmem').signature_of_appliesTo hids happlies']

/-- Alice may read the document for a tenant, or with a badge, and may not write it. -/
def badgePolicy : Policy := .ofRules
  [((Rule.allow "alice" "doc" "read").withDomain { id := "tenant-a" }).withPriority 3,
    (Rule.allow "alice" "doc" "read").withCondition ⟨0, (·.contains "badge")⟩,
    (Rule.deny "alice" "doc" "write").withPriority 7]

/-- Alice asks to read the document and shows her badge. -/
def badgeRequest : Request :=
  (Rule.allow "alice" "doc" "read").verbatim (Register.empty.insert "badge" (.bool true))

/-- Nothing contradicts, so it does not matter whether denials or priorities decide when she asks. -/
theorem badge_decided_alike :
    (∀ r ∈ badgePolicy.rules, r.IsConcrete) ∧
      badgePolicy.conflicts.bearOnDecisions = false ∧
      Evaluator.effect { matching := .priority } badgePolicy badgeRequest =
        Evaluator.byRank.effect badgePolicy badgeRequest ∧
      Evaluator.byRank.effect badgePolicy badgeRequest = .allow := by
  have hconcrete : ∀ r ∈ badgePolicy.rules, r.IsConcrete := by
    simp [badgePolicy, ofRules, Rule.withPriority, Rule.withDomain,
      Rule.withCondition, Rule.deny, Rule.allow, Rule.on, Rule.IsConcrete]
  have hclean : badgePolicy.conflicts.bearOnDecisions = false := by decide
  have hids : Evaluator.byRank.matching.GoesByIds := .inr (.inr rfl)
  exact ⟨hconcrete, hclean, effect_eq_of_clean hconcrete hclean hids rfl badgeRequest, by decide⟩

end Policy

end Clearance
