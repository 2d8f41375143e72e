import Clearance.Proofs.Analysis.Unreachable
import Clearance.Proofs.Table.Order

/-!
# Which rules have a place in a table

Rules are placed one after another in priority order, and two of the steps depend on what has been placed
before. `contribution_eq_some_iff` says which rules contribute an entry without going through the steps: a
rule without a domain does, unless it comes behind a rule without a domain that has its signature or fits
every request (`Rule.DeadBehind`). It does not matter there whether the rule in front has been placed
itself. If not, a third rule in front of both has left it out, which leaves out the rule behind as well.
The one thing to know of the signatures that have occurred is that none of them fits every request, or the
table would have ended.

Everything about the entries follows (`wellFormed_ofPolicy`), and so does what the table has in common
with the report on the policy: an allow that is reported as unreachable comes behind a deny of its own
signature, so it contributes nothing where that deny is not confined to a domain.
-/

namespace Clearance

/-- Whether the patterns of a signature fit every request. -/
def Signature.IsOpen (s : Signature) : Prop :=
  s.subject = "*" ∧ (s.resource = none ∨ s.resource = some "*") ∧ s.action = "*"

/-- Whether in a table a rule leaves nothing for another to decide that comes behind it: it has no domain,
and it has the patterns of the other or patterns that fit everything. -/
def Rule.Buries (r r' : Rule) : Prop :=
  r.domain = none ∧ (r.signature = r'.signature ∨ r.signature.IsOpen)

/-- Whether one of the rules in front leaves a rule nothing to decide. -/
def Rule.DeadBehind (r : Rule) (front : List Rule) : Prop := ∃ x ∈ front, x.Buries r

theorem Rule.deadBehind_cons {r x : Rule} {front : List Rule} :
    r.DeadBehind (x :: front) ↔ x.Buries r ∨ r.DeadBehind front := by
  simp [DeadBehind]

namespace Guard

/-- A pattern guards nothing if it is missing or a star. -/
theorem isAny_ofPattern {pattern : Option String} :
    (ofPattern pattern).isAny = true ↔ pattern = none ∨ pattern = some "*" := by
  cases pattern with
  | none => simp [ofPattern, isAny]
  | some p =>
    rw [ofPattern, isAny, beq_iff_eq]
    by_cases hp : p = "*"
    · simp [hp]
    · cases Glob.isGlob p <;> simp [hp]

end Guard

/-- The entry of a rule fits every request if the patterns of the rule do. -/
theorem Entry.isOpen_ofRule {r : Rule} : (ofRule r).isOpen = true ↔ r.signature.IsOpen := by
  simp only [isOpen, ofRule, Bool.and_eq_true, Guard.isAny_ofPattern, Signature.IsOpen, Rule.signature,
    Option.some.injEq, reduceCtorEq, false_or, and_assoc]

/-- The entry that the rule at a place of priority order contributes to the table, if it does. -/
def Policy.contribution (p : Policy) (i : Nat) : Option Entry := p.placements[i]?.bind (·.2.asEntry)

namespace Table

/-- Whether a table is what it should be of a policy: its entries come from rules in priority order, and
only dead rules have none. -/
structure WellFormed (t : Table) (p : Policy) : Prop where
  ranked : p.IsRanking p.byPriority
  /-- The entries are contributed place by place. -/
  contributed : t.entries = (List.range p.rules.length).filterMap p.contribution
  ofRule : ∀ i e, p.contribution i = some e →
    ∃ r, p.byPriority[i]? = some r ∧ r.domain = none ∧ e = .ofRule r
  distinct : ∀ (i j : Nat) (r r' : Rule), i < j → p.byPriority[i]? = some r → p.byPriority[j]? = some r' →
    (p.contribution i).isSome → (p.contribution j).isSome → r.signature ≠ r'.signature
  falling : t.entries.Pairwise fun e e' => e'.priority ≤ e.priority
  openLast : ∀ e ∈ t.entries.dropLast, e.isOpen = false
  /-- What has no entry is what could not have decided. -/
  dead : ∀ (i : Nat) (r : Rule), p.byPriority[i]? = some r → r.domain = none →
    (p.contribution i = none ↔ r.DeadBehind (p.byPriority.take i))
  /-- Nothing is contributed by what the report on the policy calls unreachable. -/
  unreachable : (∀ r ∈ p.rules, r.domain = none) → ∀ u ∈ p.conflicts.unreachable,
    ∀ i, p.byPriority[i]? = some u.rule → p.contribution i = none

/-! ## One place -/

/-- What becomes of the first of some rules, and with which signatures placing goes on. -/
theorem place_cons (seen : List Signature) (x : Rule) (rest : List Rule) :
    (x.domain ≠ none ∧ ∃ d, place seen (x :: rest) = (x, .confined d) :: place seen rest) ∨
      (x.domain = none ∧ x.signature ∈ seen ∧
        place seen (x :: rest) = (x, .repeated) :: place seen rest) ∨
      (x.domain = none ∧ x.signature ∉ seen ∧ x.signature.IsOpen ∧
        place seen (x :: rest) = [(x, .placed (.ofRule x))]) ∨
      (x.domain = none ∧ x.signature ∉ seen ∧ ¬ x.signature.IsOpen ∧
        place seen (x :: rest) = (x, .placed (.ofRule x)) :: place (x.signature :: seen) rest) := by
  cases hd : x.domain with
  | some d => exact .inl ⟨by simp, d.id, by simp [place, hd]⟩
  | none =>
    by_cases hin : x.signature ∈ seen
    · exact .inr (.inl ⟨rfl, hin, by simp [place, hd, hin]⟩)
    · by_cases hopen : x.signature.IsOpen
      · have hentry := Entry.isOpen_ofRule.2 hopen
        exact .inr (.inr (.inl ⟨rfl, hin, hopen, by simp [place, hd, hin, hentry]⟩))
      · have hentry := mt Entry.isOpen_ofRule.1 hopen
        exact .inr (.inr (.inr ⟨rfl, hin, hopen, by simp [place, hd, hin, hentry]⟩))

/-- The rule at a place has an entry if it has no domain, its signature has not occurred before, and it is
not dead behind the rules in front. The induction is on the rules, for any signatures that have occurred
as long as none of them fits every request. -/
theorem place_eq_some_iff {seen : List Signature} (hseen : ∀ s ∈ seen, ¬ s.IsOpen) {rules : List Rule}
    {i : Nat} {e : Entry} :
    (place seen rules)[i]?.bind (·.2.asEntry) = some e ↔
      ∃ r, rules[i]? = some r ∧ r.domain = none ∧ e = .ofRule r ∧
        r.signature ∉ seen ∧ ¬ r.DeadBehind (rules.take i) := by
  induction rules generalizing seen i with
  | nil => simp [place]
  | cons x rest ih =>
    rcases place_cons seen x rest with
      ⟨hd, d, hplace⟩ | ⟨hd, hin, hplace⟩ | ⟨hd, hnew, hopen, hplace⟩ | ⟨hd, hnew, hopen, hplace⟩
    · rw [hplace]
      have hburies : ∀ r, ¬ x.Buries r := fun r hburies => hd hburies.1
      cases i with
      | zero => simp [Placement.asEntry, hd]
      | succ i =>
        simp only [List.getElem?_cons_succ, List.take_succ_cons, Rule.deadBehind_cons, hburies, false_or]
        exact ih hseen
    · rw [hplace]
      -- what a repeated rule buries has occurred as well
      have hburies : ∀ r : Rule, r.signature ∉ seen → ¬ x.Buries r := by
        rintro r hnew ⟨-, hs | hopen⟩
        · exact hnew (hs ▸ hin)
        · exact hseen _ hin hopen
      cases i with
      | zero => simp [Placement.asEntry, hin]
      | succ i =>
        simp only [List.getElem?_cons_succ, List.take_succ_cons, Rule.deadBehind_cons]
        rw [ih hseen]
        grind
    · rw [hplace]
      -- the table ends here, and nothing behind would have been alive
      have hburies : ∀ r, x.Buries r := fun r => ⟨hd, .inr hopen⟩
      cases i with
      | zero => simp [Placement.asEntry, hd, hnew, Rule.DeadBehind, eq_comm]
      | succ i => simp [Rule.deadBehind_cons, hburies]
    · rw [hplace]
      have hburies : ∀ r, x.Buries r ↔ x.signature = r.signature := by
        simp [Rule.Buries, hd, hopen]
      cases i with
      | zero => simp [Placement.asEntry, hd, hnew, Rule.DeadBehind, eq_comm]
      | succ i =>
        simp only [List.getElem?_cons_succ, List.take_succ_cons, Rule.deadBehind_cons, hburies]
        rw [ih (List.forall_mem_cons.2 ⟨hopen, hseen⟩)]
        grind

variable {p : Policy} {i : Nat} {e : Entry} {r : Rule}

/-- **What contributes an entry**: the rules without a domain that are not dead. -/
theorem contribution_eq_some_iff :
    p.contribution i = some e ↔
      ∃ r, p.byPriority[i]? = some r ∧ r.domain = none ∧ e = .ofRule r ∧
        ¬ r.DeadBehind (p.byPriority.take i) := by
  have hseen : ∀ s ∈ ([] : List Signature), ¬ s.IsOpen := fun s hs => absurd hs List.not_mem_nil
  unfold Policy.contribution Policy.placements
  rw [place_eq_some_iff hseen]
  simp

/-- A rule below one of its signature has an entry where the other is confined to a domain. -/
example :
    (Policy.ofRules [
      ((Rule.deny "alice" "doc" "read").withPriority 10).withDomain ⟨"tenant-a", .empty⟩,
      Rule.allow "alice" "doc" "read"]).contribution 1 =
      some (.ofRule (Rule.allow "alice" "doc" "read")) := by decide

/-- A rule contributes an entry if it has no domain and is not dead behind those in front of it. -/
theorem isSome_contribution_iff (hr : p.byPriority[i]? = some r) :
    (p.contribution i).isSome ↔ r.domain = none ∧ ¬ r.DeadBehind (p.byPriority.take i) := by
  rw [Option.isSome_iff_exists]
  simp [contribution_eq_some_iff, hr]

/-- A rule that contributes is not buried by one that contributes in front of it. -/
theorem not_buries_of_contribution {j : Nat} {r' : Rule} (hij : i < j) (hr : p.byPriority[i]? = some r)
    (hr' : p.byPriority[j]? = some r') (hj : (p.contribution j).isSome) : ¬ r.Buries r' := by
  intro hburies
  refine ((isSome_contribution_iff hr').1 hj).2 ⟨r, ?_, hburies⟩
  exact List.mem_of_getElem? ((List.getElem?_take_of_lt hij).trans hr)

/-! ## All places -/

/-- Every rule has at most one entry. -/
theorem length_place_le (seen : List Signature) (rules : List Rule) :
    (place seen rules).length ≤ rules.length := by
  induction rules generalizing seen with
  | nil => exact Nat.le_refl 0
  | cons x rest ih =>
    rcases place_cons seen x rest with
      ⟨-, d, hplace⟩ | ⟨-, -, hplace⟩ | ⟨-, -, -, hplace⟩ | ⟨-, -, -, hplace⟩ <;> rw [hplace]
    · exact Nat.succ_le_succ (ih seen)
    · exact Nat.succ_le_succ (ih seen)
    · exact Nat.succ_le_succ (Nat.zero_le _)
    · exact Nat.succ_le_succ (ih (x.signature :: seen))

/-- What a list comes to is what its places come to, with any number of empty places behind. -/
theorem filterMap_range_getElem? {α β : Type} (f : α → Option β) {l : List α} {n : Nat}
    (h : l.length ≤ n) : (List.range n).filterMap (fun i => l[i]?.bind f) = l.filterMap f := by
  induction l generalizing n with
  | nil => simp
  | cons x l ih =>
    obtain ⟨n, rfl⟩ := Nat.exists_eq_add_of_lt (Nat.lt_of_lt_of_le (Nat.succ_pos _) h)
    rw [Nat.zero_add, List.range_succ_eq_map, List.filterMap_cons, List.filterMap_map, List.filterMap_cons]
    have hrest : (List.range n).filterMap ((fun i => (x :: l)[i]?.bind f) ∘ Nat.succ) = l.filterMap f :=
      ih (by simpa using h)
    rw [hrest]
    rfl

/-- The entries are what the rules contribute, in the order of rank. -/
theorem entries_eq (p : Policy) :
    (ofPolicy p).entries = (List.range p.rules.length).filterMap p.contribution := by
  have hlength : p.placements.length ≤ p.rules.length := by
    refine Nat.le_trans (length_place_le [] p.byPriority) (Nat.le_of_eq ?_)
    rw [Policy.byPriority, Stable.sort_eq, List.length_insertionSort]
  exact (filterMap_range_getElem? (·.2.asEntry) hlength).symm

/-- What is so of any two rules that contribute, one behind the other, is so of the entries. -/
theorem entries_pairwise {R : Entry → Entry → Prop}
    (h : ∀ (i j : Nat) (r r' : Rule), i < j → p.byPriority[i]? = some r → p.byPriority[j]? = some r' →
      ¬ r.Buries r' → r.domain = none → R (.ofRule r) (.ofRule r')) :
    (ofPolicy p).entries.Pairwise R := by
  rw [entries_eq, List.pairwise_filterMap]
  refine List.Pairwise.imp ?_ List.pairwise_lt_range
  intro i j hij e he e' he'
  obtain ⟨r, hr, hd, rfl, -⟩ := contribution_eq_some_iff.1 he
  obtain ⟨r', hr', -, rfl, -⟩ := contribution_eq_some_iff.1 he'
  exact h _ _ r r' hij hr hr' (not_buries_of_contribution hij hr hr' (by rw [he']; rfl)) hd

/-- What stands further back ranks no higher. -/
theorem priority_le_of_lt {j : Nat} {r' : Rule} (hij : i < j) (hr : p.byPriority[i]? = some r)
    (hr' : p.byPriority[j]? = some r') : r'.priority ≤ r.priority := by
  obtain ⟨hi, rfl⟩ := List.getElem?_eq_some_iff.1 hr
  obtain ⟨hj, rfl⟩ := List.getElem?_eq_some_iff.1 hr'
  exact List.pairwise_iff_getElem.1 p.byPriority_falling i j hi hj hij

/-- All but the last of a list are such as have something behind them. -/
theorem forall_mem_dropLast {α : Type} {q : α → Prop} {l : List α} (h : l.Pairwise fun a _ => q a) :
    ∀ a ∈ l.dropLast, q a := by
  intro a ha
  have hne : l ≠ [] := by
    rintro rfl
    exact absurd ha List.not_mem_nil
  rw [← List.dropLast_append_getLast hne] at h
  exact (List.pairwise_append.1 h).2.2 a ha _ (List.mem_singleton_self _)

/-- An allow that is reported as unreachable comes behind its shadow. -/
theorem deadBehind_of_mem_unreachable {u : Unreachable} (hu : u ∈ p.conflicts.unreachable)
    (hd : u.shadow.domain = none) (hi : p.byPriority[i]? = some u.rule) :
    u.rule.DeadBehind (p.byPriority.take i) := by
  obtain ⟨-, -, -, hlt⟩ := Policy.mem_unreachable.1 hu
  obtain ⟨hmem, hs, -⟩ := Policy.shadow_of_mem_unreachable hu
  refine ⟨u.shadow, ?_, hd, .inl hs⟩
  obtain ⟨j, hj⟩ := List.getElem?_of_mem (Policy.mem_byPriority.2 hmem)
  have hji : j < i := by
    refine Nat.lt_of_not_le fun hij => ?_
    rcases Nat.eq_or_lt_of_le hij with rfl | hij
    · have hsame : u.rule = u.shadow := Option.some.inj (hi.symm.trans hj)
      exact Int.lt_irrefl _ (hsame ▸ hlt)
    · exact absurd hlt (Int.not_lt.2 (priority_le_of_lt hij hi hj))
  exact List.mem_of_getElem? ((List.getElem?_take_of_lt hji).trans hj)

/-- **A table is well formed and drops only dead rules.** Its entries come from rules in priority order,
which have different signatures and no domain, and only the last entry may fit every request. A rule
without a domain contributes an entry unless it comes behind one that has its signature or fits every
request. Where no rule has a domain, what the report on the policy calls unreachable has no entry. -/
theorem wellFormed_ofPolicy (p : Policy) : (ofPolicy p).WellFormed p where
  ranked := Policy.isRanking_iff.2 rfl
  contributed := entries_eq p
  ofRule i e he := by
    obtain ⟨r, hr, hd, rfl, -⟩ := contribution_eq_some_iff.1 he
    exact ⟨r, hr, hd, rfl⟩
  distinct i j r r' hij hr hr' hi hj hs :=
    not_buries_of_contribution hij hr hr' hj ⟨((isSome_contribution_iff hr).1 hi).1, .inl hs⟩
  falling := entries_pairwise fun i j r r' hij hr hr' _ _ => priority_le_of_lt hij hr hr'
  openLast := by
    refine forall_mem_dropLast (entries_pairwise fun i j r r' hij hr hr' hburies hd => ?_)
    rw [← Bool.not_eq_true, Entry.isOpen_ofRule]
    exact fun hopen => hburies ⟨hd, .inr hopen⟩
  dead i r hr hd := by
    rw [← Option.not_isSome_iff_eq_none, isSome_contribution_iff hr]
    simp [hd]
  unreachable hnone u hu i hi := by
    have hd : u.shadow.domain = none := hnone _ (Policy.shadow_of_mem_unreachable hu).1
    have hdead := deadBehind_of_mem_unreachable hu hd hi
    refine Option.not_isSome_iff_eq_none.1 fun hsome => ?_
    exact ((isSome_contribution_iff hi).1 hsome).2 hdead

end Table

end Clearance
