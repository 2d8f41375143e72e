import Clearance.Proofs.Analysis.Unreachable
import Mathlib.Data.List.Perm.Basic

/-!
# What a report on a policy holds

A report is put together group by group: the signatures without their repetitions, the rules of each, the
strongest deny of a group, the priorities in falling order. `Conflicts.AreExact` says what it comes to
without any grouping, from single rules and how they stand in the policy: which signatures are disputed
and where they first occur, which allows some deny overrules and which of those denies is named, and
which priorities are shared. `conflicts_exact` says that this is what every report holds.

The unreachable rules need the most care, because they are collected from the groups in an order that is
not that of the policy. What keeps them from being lost or repeated is that groups of distinct keys that
cover a list are a rearrangement of it (`flatMap_filter_perm`).
-/

namespace Clearance

/-! ## Lists without repetitions, and groups -/

section Groups

variable {α β : Type} [DecidableEq β]

/-- Leaving out other elements does not change which of two comes first. -/
theorem idxOf_lt_of_filter {p : β → Bool} {a b : β} {l : List β} (ha : p a = true) (hb : p b = true)
    (h : (l.filter p).idxOf a < (l.filter p).idxOf b) : l.idxOf a < l.idxOf b := by
  induction l with
  | nil => exact absurd h (Nat.lt_irrefl _)
  | cons x l ih =>
    by_cases hx : p x = true
    · rw [List.filter_cons_of_pos hx, List.idxOf_cons, List.idxOf_cons] at h
      rw [List.idxOf_cons, List.idxOf_cons]
      grind
    · have hxa : x ≠ a := fun he => hx (he ▸ ha)
      have hxb : x ≠ b := fun he => hx (he ▸ hb)
      rw [List.filter_cons_of_neg hx] at h
      rw [List.idxOf_cons_ne _ hxa, List.idxOf_cons_ne _ hxb]
      exact Nat.succ_lt_succ (ih h)

/-- What is left of a list without its repetitions stands in the order in which it first occurs. -/
theorem pairwise_idxOf_eraseDups : ∀ l : List β,
    l.eraseDups.Pairwise fun a b => l.idxOf a < l.idxOf b
  | [] => .nil
  | x :: l => by
    have hne : ∀ b ∈ (l.filter fun b => !b == x).eraseDups, b ≠ x := by
      intro b hb
      have hkept := (List.mem_filter.1 (List.mem_eraseDups.1 hb)).2
      simpa using hkept
    rw [List.eraseDups_cons]
    refine List.pairwise_cons.2 ⟨fun b hb => ?_, ?_⟩
    · rw [List.idxOf_cons_self, List.idxOf_cons_ne _ (hne b hb).symm]
      exact Nat.succ_pos _
    · refine (pairwise_idxOf_eraseDups (l.filter fun b => !b == x)).imp_of_mem ?_
      intro a b ha hb hlt
      rw [List.idxOf_cons_ne _ (hne a ha).symm, List.idxOf_cons_ne _ (hne b hb).symm]
      refine Nat.succ_lt_succ (idxOf_lt_of_filter ?_ ?_ hlt)
      · simpa using hne a ha
      · simpa using hne b hb
termination_by l => l.length
decreasing_by exact Nat.lt_succ_of_le (List.length_filter_le ..)

/-- Without its repetitions a list has every element once. -/
theorem nodup_eraseDups (l : List β) : l.eraseDups.Nodup := by
  refine (pairwise_idxOf_eraseDups l).imp ?_
  rintro a _ hlt rfl
  exact Nat.lt_irrefl _ hlt

/-- Groups of distinct keys that cover a list are a rearrangement of it. -/
theorem flatMap_filter_perm {key : α → β} {keys : List β} {l : List α} (hdistinct : keys.Nodup)
    (hcover : ∀ a ∈ l, key a ∈ keys) : (keys.flatMap fun k => l.filter (key · == k)).Perm l := by
  induction keys generalizing l with
  | nil =>
    obtain rfl : l = [] := List.eq_nil_iff_forall_not_mem.2 fun a ha =>
      absurd (hcover a ha) List.not_mem_nil
    exact .rfl
  | cons k keys ih =>
    obtain ⟨hk, hkeys⟩ := List.nodup_cons.1 hdistinct
    -- the other groups are those of what the first group leaves
    have hothers : (keys.flatMap fun k' => l.filter (key · == k')) =
        keys.flatMap fun k' => (l.filter (!key · == k)).filter (key · == k') := by
      refine List.flatMap_congr fun k' hk' => ?_
      rw [List.filter_filter]
      refine List.filter_congr fun a _ => ?_
      by_cases ha : key a = k'
      · have hne : k' ≠ k := fun he => hk (he ▸ hk')
        simp [ha, hne]
      · simp [ha]
    have hrest : ∀ a ∈ l.filter (!key · == k), key a ∈ keys := by
      intro a ha
      obtain ⟨hin, hne⟩ := List.mem_filter.1 ha
      exact (List.mem_cons.1 (hcover a hin)).resolve_left (by simpa using hne)
    rw [List.flatMap_cons, hothers]
    exact ((ih hkeys hrest).append_left _).trans (List.filter_append_perm (key · == k) l)

end Groups

/-! ## What the findings should be -/

/-- Whether a rule keeps another from ever deciding: it denies what the other is about and ranks higher. -/
def Rule.Overrules (d r : Rule) : Prop :=
  d.effect = .deny ∧ d.signature = r.signature ∧ r.priority < d.priority

instance (d r : Rule) : Decidable (d.Overrules r) := inferInstanceAs (Decidable (_ ∧ _ ∧ _))

namespace Policy

/-- How many rules stand before the first of a signature. -/
def firstAt (p : Policy) (s : Signature) : Nat := (p.rules.map (·.signature)).idxOf s

/-- Whether a policy both allows and denies what a signature is about. -/
def Disputes (p : Policy) (s : Signature) : Prop :=
  (∃ r ∈ p.rules, r.signature = s ∧ r.effect = .allow) ∧
    ∃ r ∈ p.rules, r.signature = s ∧ r.effect = .deny

/-- Whether a policy allows something by a rule that another one overrules. -/
def AllowsInVain (p : Policy) (r : Rule) : Prop := r.effect = .allow ∧ ∃ d ∈ p.rules, d.Overrules r

instance (p : Policy) (r : Rule) : Decidable (p.AllowsInVain r) := inferInstanceAs (Decidable (_ ∧ _))

end Policy

/-- Whether findings are all that there is to be found in a policy, and nothing else. -/
structure Conflicts.AreExact (c : Conflicts) (p : Policy) : Prop where
  /-- Signatures come in the order in which they first occur, and so none comes twice. -/
  inOrder : c.contradictions.Pairwise fun x y => p.firstAt x.signature < p.firstAt y.signature
  disputed : ∀ s, (∃ x ∈ c.contradictions, x.signature = s) ↔ p.Disputes s
  ofSignature : ∀ x ∈ c.contradictions, x.rules = p.rules.filter (·.signature = x.signature)
  /-- Each occurrence of a rule counts once. -/
  inVain : (c.unreachable.map (·.rule)).Perm (p.rules.filter (p.AllowsInVain ·))
  /-- Of the rules that overrule, it is the first of the highest priority. -/
  shadowed : ∀ u ∈ c.unreachable,
    Combining.FirstStrongest (p.rules.filter (·.Overrules u.rule)) u.shadow
  falling : c.collisions.Pairwise fun x y => y.priority < x.priority
  shared : ∀ n : Priority,
    (∃ x ∈ c.collisions, x.priority = n) ↔ 2 ≤ (p.rules.filter (·.priority = n)).length
  ofPriority : ∀ x ∈ c.collisions, x.rules = p.rules.filter (·.priority = x.priority)

namespace Combining

/-- The first of the highest priority stays so where others are left out. -/
theorem FirstStrongest.filter {l : List Rule} {r : Rule} (h : FirstStrongest l r) {keep : Rule → Bool}
    (hr : keep r = true) : FirstStrongest (l.filter keep) r := by
  obtain ⟨front, back, rfl, hfront, hback⟩ := h
  refine ⟨front.filter keep, back.filter keep, ?_, ?_, ?_⟩
  · rw [List.filter_append, List.filter_cons_of_pos hr]
  · intro x hx
    exact hfront x (List.mem_filter.1 hx).1
  · intro x hx
    exact hback x (List.mem_filter.1 hx).1

end Combining

namespace Policy

variable {p : Policy} {s : Signature}

/-! ## Contradictions -/

/-- The rules of a signature contradict each other if it is disputed in the policy. -/
theorem contradict_rulesOf : contradict (p.rulesOf s) = true ↔ p.Disputes s := by
  rw [contradict, Bool.and_eq_true, List.any_eq_true, List.any_eq_true]
  simp only [mem_rulesOf, beq_iff_eq, Disputes, and_assoc]

/-- A contradiction is found for each disputed signature, with all rules of that. -/
theorem mem_contradictions {x : Contradiction} :
    x ∈ p.contradictions ↔ p.Disputes x.signature ∧ x.rules = p.rulesOf x.signature := by
  rw [contradictions, List.mem_filter, List.mem_map]
  constructor
  · rintro ⟨⟨s, -, rfl⟩, hboth⟩
    exact ⟨contradict_rulesOf.1 hboth, rfl⟩
  · rintro ⟨hdisputed, hrules⟩
    refine ⟨⟨x.signature, ?_, ?_⟩, hrules ▸ contradict_rulesOf.2 hdisputed⟩
    · obtain ⟨⟨r, hr, hs, -⟩, -⟩ := hdisputed
      rw [signatures, List.mem_eraseDups]
      exact List.mem_map.2 ⟨r, hr, hs⟩
    · rw [← hrules]

/-- Contradictions come in the order in which their signatures first occur. -/
theorem contradictions_inOrder (p : Policy) :
    p.contradictions.Pairwise fun x y => p.firstAt x.signature < p.firstAt y.signature := by
  unfold contradictions
  refine List.Pairwise.filter _ (List.pairwise_map.2 ?_)
  exact pairwise_idxOf_eraseDups (p.rules.map (·.signature))

/-- No signature is reported as disputed twice. -/
theorem nodup_disputed (p : Policy) : (p.contradictions.map (·.signature)).Nodup := by
  refine List.pairwise_map.2 (p.contradictions_inOrder.imp ?_)
  intro x y hlt he
  exact Nat.lt_irrefl _ (he ▸ hlt)

/-! ## Unreachable rules -/

/-- What overrules a rule is what is stronger than it among the denies of its signature. -/
theorem overruling_eq (p : Policy) (r : Rule) :
    p.rules.filter (·.Overrules r) =
      ((p.rulesOf r.signature).filter (·.effect == .deny)).filter
        fun d => decide (r.priority < d.priority) := by
  rw [rulesOf, List.filter_filter, List.filter_filter]
  refine List.filter_congr fun d _ => ?_
  rw [Bool.eq_iff_iff]
  simp only [decide_eq_true_eq, Bool.and_eq_true, beq_iff_eq]
  unfold Rule.Overrules
  tauto

/-- A rule is overruled if the strongest deny of its signature ranks higher. -/
theorem overruled_iff {r shadow : Rule}
    (h : Combining.strongest ((p.rulesOf r.signature).filter (·.effect == .deny)) = some shadow) :
    (∃ d ∈ p.rules, d.Overrules r) ↔ r.priority < shadow.priority := by
  have hfirst := Combining.firstStrongest_of_strongest h
  constructor
  · rintro ⟨d, hd, hover⟩
    have hin : d ∈ p.rules.filter (·.Overrules r) := List.mem_filter.2 ⟨hd, by simpa using hover⟩
    rw [overruling_eq] at hin
    exact Int.lt_of_lt_of_le hover.2.2 (hfirst.le d (List.mem_filter.1 hin).1)
  · intro hlt
    have hin : shadow ∈ p.rules.filter (·.Overrules r) := by
      rw [overruling_eq]
      exact List.mem_filter.2 ⟨hfirst.mem, by simpa using hlt⟩
    obtain ⟨hmem, hover⟩ := List.mem_filter.1 hin
    exact ⟨shadow, hmem, by simpa using hover⟩

/-- What a disputed signature has that is unreachable is what it allows in vain. -/
theorem map_rule_shadowed (h : p.Disputes s) :
    (shadowed (p.rulesOf s)).map (·.rule) =
      (p.rules.filter (p.AllowsInVain ·)).filter (·.signature == s) := by
  unfold shadowed
  cases hstrongest : Combining.strongest ((p.rulesOf s).filter (·.effect == .deny)) with
  | none =>
    -- the deny of a disputed signature is there to be found
    obtain ⟨-, d, hd, hs, hdeny⟩ := h
    have hin : d ∈ (p.rulesOf s).filter (·.effect == .deny) :=
      List.mem_filter.2 ⟨mem_rulesOf.2 ⟨hd, hs⟩, by simpa using hdeny⟩
    rw [Combining.strongest_eq_none_iff.1 hstrongest] at hin
    exact absurd hin List.not_mem_nil
  | some shadow =>
    dsimp only
    rw [List.map_map, rulesOf, List.filter_filter, List.filter_filter]
    refine (List.map_id _).trans (List.filter_congr fun r _ => ?_)
    rw [Bool.eq_iff_iff]
    simp only [Bool.and_eq_true, beq_iff_eq, decide_eq_true_eq]
    unfold AllowsInVain
    constructor
    · rintro ⟨⟨hallow, hlt⟩, rfl⟩
      exact ⟨rfl, hallow, (overruled_iff hstrongest).2 hlt⟩
    · rintro ⟨rfl, hallow, hover⟩
      exact ⟨⟨hallow, (overruled_iff hstrongest).1 hover⟩, rfl⟩

/-- Where an allow is in vain, its signature is disputed: the deny that overrules it has the same. -/
theorem disputes_of_allowsInVain {r : Rule} (hr : r ∈ p.rules) (h : p.AllowsInVain r) :
    p.Disputes r.signature := by
  obtain ⟨hallow, d, hd, hdeny, hs, -⟩ := h
  exact ⟨⟨r, hr, rfl, hallow⟩, d, hd, hs, hdeny⟩

/-- The unreachable rules are those that are allowed in vain, each as often as it occurs. -/
theorem unreachable_perm (p : Policy) :
    (p.conflicts.unreachable.map (·.rule)).Perm (p.rules.filter (p.AllowsInVain ·)) := by
  have hgroups : p.conflicts.unreachable.map (·.rule) =
      (p.contradictions.map (·.signature)).flatMap fun s =>
        (p.rules.filter (p.AllowsInVain ·)).filter (·.signature == s) := by
    rw [List.flatMap_map]
    refine List.map_flatMap.trans (List.flatMap_congr fun x hx => ?_)
    obtain ⟨hdisputed, hrules⟩ := mem_contradictions.1 hx
    rw [hrules, map_rule_shadowed hdisputed]
  rw [hgroups]
  refine flatMap_filter_perm p.nodup_disputed fun r hr => ?_
  obtain ⟨hmem, hvain⟩ := List.mem_filter.1 hr
  have hdisputed := disputes_of_allowsInVain hmem (by simpa using hvain)
  exact List.mem_map.2 ⟨⟨_, p.rulesOf r.signature⟩, mem_contradictions.2 ⟨hdisputed, rfl⟩, rfl⟩

/-! ## Collisions -/

/-- A collision is found for each priority that rules share, with all rules of that. -/
theorem mem_collisions {x : Collision} :
    x ∈ p.collisions ↔ x.rules = p.rules.filter (·.priority == x.priority) ∧ 2 ≤ x.rules.length := by
  rw [collisions, List.mem_filter, List.mem_map, decide_eq_true_eq]
  constructor
  · rintro ⟨⟨n, -, rfl⟩, hmany⟩
    exact ⟨rfl, hmany⟩
  · rintro ⟨hrules, hmany⟩
    refine ⟨⟨x.priority, ?_, ?_⟩, hmany⟩
    · -- a priority that is shared is in use
      obtain ⟨r, hr⟩ := List.exists_mem_of_length_pos (Nat.lt_of_lt_of_le Nat.zero_lt_two hmany)
      rw [hrules] at hr
      obtain ⟨hmem, hn⟩ := List.mem_filter.1 hr
      rw [priorities, Stable.sort_eq, List.mem_insertionSort, List.mem_eraseDups]
      exact List.mem_map.2 ⟨r, hmem, by simpa using hn⟩
    · rw [← hrules]

/-- The priorities of a policy are gone through from the highest down, each once. -/
theorem priorities_falling (p : Policy) : p.priorities.Pairwise fun a b => b < a := by
  have hsort : p.priorities = (p.rules.map (·.priority)).eraseDups.insertionSort (· ≥ ·) := by
    rw [priorities, Stable.sort_eq]
    simp only [decide_eq_true_eq, ge_iff_le]
  have hsorted : p.priorities.Pairwise (· ≥ ·) := by
    rw [hsort]
    exact List.pairwise_insertionSort ..
  have hdistinct : p.priorities.Nodup := by
    rw [hsort]
    exact (List.perm_insertionSort ..).nodup_iff.2 (nodup_eraseDups (p.rules.map (·.priority)))
  refine (hsorted.and hdistinct).imp fun hab => ?_
  exact Int.lt_iff_le_and_ne.2 ⟨hab.1, hab.2.symm⟩

/-- Collisions come from the highest priority down. -/
theorem collisions_falling (p : Policy) :
    p.collisions.Pairwise fun x y => y.priority < x.priority := by
  unfold collisions
  exact List.Pairwise.filter _ (List.pairwise_map.2 p.priorities_falling)

/-! ## The report -/

/-- **The report on a policy is exact.** It names the disputed signatures in the order in which they first
occur, each with all its rules as they stand in the policy. It names every rule that allows in vain, as
often as it occurs, with the first of the strongest denies that overrule it. And it names the priorities
that rules share, highest first, each with all its rules. Nothing else is in it. -/
theorem conflicts_exact (p : Policy) : p.conflicts.AreExact p where
  inOrder := p.contradictions_inOrder
  disputed s := by
    constructor
    · rintro ⟨x, hx, rfl⟩
      exact (mem_contradictions.1 hx).1
    · intro hdisputed
      exact ⟨⟨s, p.rulesOf s⟩, mem_contradictions.2 ⟨hdisputed, rfl⟩, rfl⟩
  ofSignature x hx := (mem_contradictions.1 hx).2
  inVain := p.unreachable_perm
  shadowed u hu := by
    obtain ⟨hstrongest, -, -, hlt⟩ := mem_unreachable.1 hu
    rw [overruling_eq]
    exact (Combining.firstStrongest_of_strongest hstrongest).filter (by simpa using hlt)
  falling := p.collisions_falling
  shared n := by
    constructor
    · rintro ⟨x, hx, rfl⟩
      obtain ⟨hrules, hmany⟩ := mem_collisions.1 hx
      exact hrules ▸ hmany
    · intro hmany
      exact ⟨⟨n, p.rules.filter (·.priority = n)⟩, mem_collisions.2 ⟨rfl, hmany⟩, rfl⟩
  ofPriority x hx := (mem_collisions.1 hx).1

end Policy

end Clearance
