import Clearance.Proofs.Decision

/-!
# What added rules do to a decision

A policy is changed by putting rules into it, at its end, in front or anywhere between (`Grown`). Two
kinds of rules can be added without a second look at what is there already.

Rules of other tenants are never heard: `decision_of_grown_foreign` says that a decision stays what it
is, with its rule, its count and its reason. They do not apply, and a decision depends on the rules that
apply and on their order only (`decision_congr`).

Rules that say what the answer already is do not change the answer: `effect_of_grown`. Where a deny wins
this is plain. Where priority decides, the strongest of the grown list is the one from before or an added
rule (`strongest_of_grown`), and either way says the same.
-/

namespace Clearance

/-- Whether the second list is the first one with elements of a kind put in, in any places. -/
inductive Grown {α : Type} (P : α → Prop) : List α → List α → Prop
  | nil : Grown P [] []
  | keep (x : α) {l l' : List α} (h : Grown P l l') : Grown P (x :: l) (x :: l')
  | add {x : α} (hx : P x) {l l' : List α} (h : Grown P l l') : Grown P l (x :: l')

namespace Grown

variable {α : Type} {P : α → Prop} {l l' m m' : List α}

/-- A list to which nothing is added is a grown one. -/
theorem refl (l : List α) : Grown P l l := by
  induction l with
  | nil => exact .nil
  | cons x l ih => exact .keep x ih

/-- A list of added elements only has grown from nothing. -/
theorem of_forall (h : ∀ x ∈ l, P x) : Grown P [] l := by
  induction l with
  | nil => exact .nil
  | cons x l ih =>
    obtain ⟨hx, hl⟩ := List.forall_mem_cons.1 h
    exact .add hx (ih hl)

/-- Lists grow one behind the other. -/
theorem append (h : Grown P l l') (h' : Grown P m m') : Grown P (l ++ m) (l' ++ m') := by
  induction h with
  | nil => exact h'
  | keep x _ ih => exact .keep x ih
  | add hx _ ih => exact .add hx ih

theorem subset (h : Grown P l l') : l ⊆ l' := by
  induction h with
  | nil => exact List.Subset.refl []
  | keep x _ ih => exact List.cons_subset_cons x ih
  | add _ _ ih => exact fun y hy => List.mem_cons_of_mem _ (ih hy)

/-- What is in the grown list was there before or is of the kind. -/
theorem mem_or {x : α} (h : Grown P l l') (hx : x ∈ l') : x ∈ l ∨ P x := by
  induction h with
  | nil => exact .inl hx
  | keep y _ ih =>
    rcases List.mem_cons.1 hx with rfl | hx
    · exact .inl (List.mem_cons_self ..)
    · exact (ih hx).imp_left (List.mem_cons_of_mem y)
  | add hy _ ih =>
    rcases List.mem_cons.1 hx with rfl | hx
    · exact .inr hy
    · exact ih hx

/-- What passes a test has grown by added elements too. -/
theorem filter (h : Grown P l l') (p : α → Bool) : Grown P (l.filter p) (l'.filter p) := by
  induction h with
  | nil => exact .nil
  | keep x _ ih =>
    rw [List.filter_cons, List.filter_cons]
    split
    next => exact .keep x ih
    next => exact ih
  | add hx _ ih =>
    rw [List.filter_cons]
    split
    next => exact .add hx ih
    next => exact ih

/-- A list that holds nothing of the kind has not grown. -/
theorem eq_of_forall_not (h : Grown P l l') (hnot : ∀ x ∈ l', ¬ P x) : l' = l := by
  induction h with
  | nil => rfl
  | keep x _ ih => rw [ih fun y hy => hnot y (List.mem_cons_of_mem x hy)]
  | add hx _ _ => exact absurd hx (hnot _ (List.mem_cons_self ..))

/-- A test that nothing of the kind passes picks the same from both lists. -/
theorem filter_eq (h : Grown P l l') {p : α → Bool} (hp : ∀ x, P x → p x = false) :
    l'.filter p = l.filter p := by
  refine (h.filter p).eq_of_forall_not fun x hx hkind => ?_
  have hpass := (List.mem_filter.1 hx).2
  rw [hp x hkind] at hpass
  exact absurd hpass (by decide)

end Grown

/-! ## Rules of other tenants -/

/-- Whether a rule is confined to a domain that a context does not name. A context that names none is
outside every domain. -/
def Rule.IsForeign (context : Context) (r : Rule) : Prop :=
  ∃ d, r.domain = some d ∧ context.domain? ≠ some d.id

/-- A rule of another tenant never applies, whatever its patterns. -/
theorem Rule.IsForeign.not_appliesTo {r : Rule} {q : Request} (h : r.IsForeign q.context)
    (m : Matching) : r.appliesTo m q = false := by
  obtain ⟨d, hdomain, hother⟩ := h
  have hout : r.appliesIn q.context = false := by
    unfold Rule.appliesIn
    rw [hdomain, Option.all_some, beq_eq_false_iff_ne]
    exact hother
  rw [Rule.appliesTo_eq, hout, Bool.false_and, Bool.false_and]

namespace Evaluator

variable {e : Evaluator} {p p' : Policy} {q : Request}

/-- **Tenants do not influence each other's decisions.** Whatever rules of domains other than that of
the request a policy is given, and wherever they are put, the decision stays the same as a whole: its
effect, its rule, its count and its reason. Read from right to left, it may as well lose them. -/
theorem decision_of_grown_foreign (h : Grown (Rule.IsForeign q.context) p.rules p'.rules) :
    e.decision p' q = e.decision p q :=
  decision_congr (h.filter_eq fun _ hr => hr.not_appliesTo e.matching)

/-- The first tenant's rule. -/
def tenantRule : Rule := (Rule.allow "alice" "doc:*" "read").withDomain { id := "tenant-a" }

/-- What another tenant forbids, to everyone and before all others. -/
def rivalDeny : Rule :=
  ((Rule.onAny "*" "*" .deny).withPriority 100).withDomain { id := "tenant-b" }

/-- What a third one allows. -/
def rivalAllow : Rule := (Rule.allow "*" "doc:*" "*").withDomain { id := "tenant-c" }

/-- Alice asks to read a document of the first tenant. -/
def tenantRequest : Request :=
  { subject := { id := "alice" }, resource := some (.ofId "doc:1"), action := ⟨"read"⟩
    context := Register.empty.insert domainKey (.str "tenant-a") }

/-- Matches by roles as well, and lets priority decide. -/
def byRolesAndRank : Evaluator := { matching := .rbac, combining := .priority }

/-- A request of one tenant is decided by its one rule, whatever the others have put around it. -/
theorem decision_amid_rivals :
    Grown (Rule.IsForeign tenantRequest.context) (Policy.ofRules [tenantRule]).rules
        (Policy.ofRules [rivalDeny, tenantRule, rivalAllow]).rules ∧
      byRolesAndRank.decision (.ofRules [rivalDeny, tenantRule, rivalAllow]) tenantRequest =
        byRolesAndRank.decision (.ofRules [tenantRule]) tenantRequest ∧
      byRolesAndRank.decision (.ofRules [tenantRule]) tenantRequest = .byRule tenantRule 1 := by
  have hdeny : rivalDeny.IsForeign tenantRequest.context := ⟨_, rfl, by decide⟩
  have hallow : rivalAllow.IsForeign tenantRequest.context := ⟨_, rfl, by decide⟩
  have hgrown := Grown.add hdeny (.keep tenantRule (.add hallow .nil))
  exact ⟨hgrown, decision_of_grown_foreign hgrown, rfl⟩

end Evaluator

/-! ## Rules that say what the answer already is -/

namespace Combining

/-- The strongest rule of a grown list is the one from before, or one that was added and ranks no lower
than any from before. -/
theorem strongest_of_grown {P : Rule → Prop} {l l' : List Rule} (h : Grown P l l') :
    strongest l' = strongest l ∨
      ∃ r, strongest l' = some r ∧ P r ∧ ∀ x ∈ l, x.priority ≤ r.priority := by
  induction h with
  | nil => exact .inl rfl
  | @keep x l l' hrest ih =>
    rw [strongest_cons, strongest_cons]
    rcases ih with ih | ⟨r, hr, hkind, hle⟩
    · rw [ih]
      exact .inl rfl
    · rw [hr]
      dsimp only
      split
      next hrx =>
        -- what is in front ranks no lower than the added rule, so nor than what it ranks no lower than
        have hx : strongest (x :: l) = some x :=
          foldl_better_of_outranked fun y hy => Int.le_trans (hle y hy) hrx
        rw [strongest_cons] at hx
        exact .inl hx.symm
      next hrx =>
        refine .inr ⟨r, rfl, hkind, List.forall_mem_cons.2 ⟨?_, hle⟩⟩
        exact Int.le_of_lt (Int.not_le.1 hrx)
  | @add x hx l l' hrest ih =>
    rw [strongest_cons]
    cases hl' : strongest l' with
    | none =>
      have hnone : l' = [] := strongest_eq_none_iff.1 hl'
      have hbefore : l = [] := List.subset_nil.1 (hnone ▸ hrest.subset)
      exact .inr ⟨x, rfl, hx, by simp [hbefore]⟩
    | some c =>
      dsimp only
      split
      next hcx =>
        refine .inr ⟨x, rfl, hx, fun y hy => ?_⟩
        exact Int.le_trans ((firstStrongest_of_strongest hl').le y (hrest.subset hy)) hcx
      next => exact hl' ▸ ih

end Combining

namespace Evaluator

variable {e : Evaluator} {p p' : Policy} {q : Request} {said : Effect}

/-- Where a deny wins, further rules that say what the answer is leave it. -/
theorem effect_of_grown_of_denyWins (hc : e.combining ≠ .priority) (h : e.effect p q = said)
    (hgrown : Grown (·.effect = said) p.rules p'.rules) : e.effect p' q = said := by
  have happlying := hgrown.filter (·.appliesTo e.matching q)
  have hbefore := effect_eq_allow_iff_of_applying e p q hc
  have hafter := effect_eq_allow_iff_of_applying e p' q hc
  cases said with
  | allow =>
    obtain ⟨hne, hall⟩ := hbefore.1 h
    refine hafter.2 ⟨fun hnil => hne (List.subset_nil.1 (hnil ▸ happlying.subset)), fun r hr => ?_⟩
    rcases happlying.mem_or hr with hr | hr
    · exact hall r hr
    · rw [hr]
      decide
  | deny =>
    cases heffect : e.effect p' q with
    | deny => rfl
    | allow =>
      -- then none of the added denials applies, and the same rules do as before
      obtain ⟨hne, hall⟩ := hafter.1 heffect
      rw [happlying.eq_of_forall_not hall] at hne hall
      rw [hbefore.2 ⟨hne, hall⟩] at h
      exact absurd h (by decide)

/-- Where priority decides, they do as well. -/
theorem effect_of_grown_of_rankWins (hc : e.combining = .priority) (h : e.effect p q = said)
    (hgrown : Grown (·.effect = said) p.rules p'.rules) : e.effect p' q = said := by
  have heffect : ∀ p : Policy, e.effect p q =
      (Combining.strongest (p.rules.filter (·.appliesTo e.matching q))).elim .deny (·.effect) := by
    intro p
    rw [effect_eq, hc, ← strongest_matchingRules]
    rfl
  rw [heffect] at h ⊢
  rcases Combining.strongest_of_grown (hgrown.filter (·.appliesTo e.matching q)) with
    hsame | ⟨r, hr, hsays, -⟩
  · rw [hsame]
    exact h
  · rw [hr]
    exact hsays

/-- **Rules that say what the answer already is do not change the answer**, whichever way rules are
matched and combined, and whatever their patterns, priorities, domains and conditions. So an allowed
request stays allowed under further allows, and a denied one denied under further denials: put in
anywhere, put at the end, or inherited from a base of such rules. -/
theorem effect_of_grown (h : e.effect p q = said) :
    (∀ p' : Policy, Grown (·.effect = said) p.rules p'.rules → e.effect p' q = said) ∧
      (∀ r : Rule, r.effect = said → e.effect (p.addRule r) q = said) ∧
      ∀ base : Policy, (∀ r ∈ base.rules, r.effect = said) →
        e.effect (p.inheritFrom base) q = said := by
  have hany : ∀ p' : Policy, Grown (·.effect = said) p.rules p'.rules → e.effect p' q = said := by
    intro p' hgrown
    by_cases hc : e.combining = .priority
    · exact effect_of_grown_of_rankWins hc h hgrown
    · exact effect_of_grown_of_denyWins hc h hgrown
  refine ⟨hany, fun r hr => hany _ ?_, fun base hbase => hany _ ?_⟩
  · have hend : Grown (·.effect = said) (p.rules ++ []) (p.rules ++ [r]) :=
      (Grown.refl p.rules).append (.of_forall (by simpa using hr))
    rwa [List.append_nil] at hend
  · exact (Grown.of_forall hbase).append (.refl p.rules)

/-- A request that the first tenant's rule allows stays allowed below an allow of highest rank, in
front, at the end or inherited. -/
theorem allowed_under_allows :
    byRolesAndRank.effect (.ofRules [tenantRule]) tenantRequest = .allow ∧
      byRolesAndRank.effect (.ofRules [.allow "alice" "*" "*", tenantRule]) tenantRequest = .allow ∧
      byRolesAndRank.effect ((Policy.ofRules [tenantRule]).addRule (.allow "alice" "*" "*"))
        tenantRequest = .allow ∧
      byRolesAndRank.effect ((Policy.ofRules [tenantRule]).inheritFrom (.ofRules [.allow "*" "*" "*"]))
        tenantRequest = .allow := by
  have hbefore : byRolesAndRank.effect (.ofRules [tenantRule]) tenantRequest = .allow := by decide
  obtain ⟨hany, hend, hbase⟩ := effect_of_grown hbefore
  have hfront : Grown (·.effect = .allow) [tenantRule] [.allow "alice" "*" "*", tenantRule] :=
    .add (by rfl) (.refl [tenantRule])
  refine ⟨hbefore, hany _ hfront, hend _ rfl, hbase _ fun r hr => ?_⟩
  rw [List.mem_singleton.1 hr]
  rfl

end Evaluator

end Clearance
