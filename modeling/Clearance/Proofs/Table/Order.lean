import Clearance.Proofs.Evaluator
import Clearance.Table.Source

/-!
# Priority order is all that a table sees

Priority order is determined by two things: no rule comes after one that ranks below it, and the rules
of each priority stand as they do in the policy. `Policy.IsRanking` says so without sorting anything, and
exactly one list of rules has both properties (`isRanking_iff`), because two lists that fall in priority
and agree on each priority agree from the front on (`Stable.eq_of_filter_eq`).

So it does not matter to the table of a policy, its name or its printed text how rules of different
priorities are mixed, nor what the policy is called or extends (`table_of_sameRanks`).
-/

namespace Clearance

namespace Stable

variable {α : Type} {key : α → Int} {l l' : List α}

/-- A list has what another has if each key has the same elements in both. -/
theorem mem_of_filter_eq (h : ∀ k, l.filter (key · == k) = l'.filter (key · == k)) {a : α}
    (ha : a ∈ l) : a ∈ l' := by
  have hkept : a ∈ l.filter (key · == key a) := List.mem_filter.2 ⟨ha, beq_self_eq_true _⟩
  rw [h] at hkept
  exact (List.mem_filter.1 hkept).1

/-- Lists in which a key never grows are equal if each key has the same elements in the same order. -/
theorem eq_of_filter_eq (hl : l.Pairwise fun a b => key b ≤ key a)
    (hl' : l'.Pairwise fun a b => key b ≤ key a)
    (h : ∀ k, l.filter (key · == k) = l'.filter (key · == k)) : l = l' := by
  induction l generalizing l' with
  | nil =>
    cases l' with
    | nil => rfl
    | cons b l' =>
      have hin := mem_of_filter_eq (fun k => (h k).symm) (List.mem_cons_self (a := b))
      exact absurd hin List.not_mem_nil
  | cons a l ih =>
    cases l' with
    | nil => exact absurd (mem_of_filter_eq h List.mem_cons_self) List.not_mem_nil
    | cons b l' =>
      obtain ⟨ha, hfalls⟩ := List.pairwise_cons.1 hl
      obtain ⟨hb, hfalls'⟩ := List.pairwise_cons.1 hl'
      -- each head is in the other list, where nothing has a greater key than the head
      have hba : key b ≤ key a := by
        rcases List.mem_cons.1 (mem_of_filter_eq (fun k => (h k).symm) List.mem_cons_self) with rfl | hin
        · exact Int.le_refl _
        · exact ha b hin
      have hab : key a ≤ key b := by
        rcases List.mem_cons.1 (mem_of_filter_eq h List.mem_cons_self) with rfl | hin
        · exact Int.le_refl _
        · exact hb a hin
      have hkey : key a = key b := Int.le_antisymm hab hba
      have hheads := h (key a)
      rw [List.filter_cons_of_pos (by simp), List.filter_cons_of_pos (by simp [hkey])] at hheads
      obtain ⟨rfl, htails⟩ := List.cons.inj hheads
      have hrest : ∀ k, l.filter (key · == k) = l'.filter (key · == k) := by
        intro k
        by_cases hk : key a = k
        · exact hk ▸ htails
        · have hcons := h k
          rwa [List.filter_cons_of_neg (by simpa using hk),
            List.filter_cons_of_neg (by simpa using hk)] at hcons
      rw [ih hfalls hfalls' hrest]

end Stable

namespace Policy

/-- The rules of one priority, as they stand in the policy. -/
def rank (p : Policy) (k : Priority) : List Rule := p.rules.filter (·.priority == k)

/-- Whether a list has the rules of a policy with the highest priority first, and those of each priority
as they stand in the policy. -/
structure IsRanking (p : Policy) (l : List Rule) : Prop where
  perm : l.Perm p.rules
  falling : l.Pairwise fun a b => b.priority ≤ a.priority
  ties : ∀ k : Priority, l.filter (·.priority == k) = p.rank k

/-- Whether two policies have the same rules of each priority in the same order. -/
def SameRanks (p p' : Policy) : Prop := ∀ k : Priority, p.rank k = p'.rank k

variable {p p' : Policy}

/-- Priority order leaves the rules of one priority as they stand. -/
theorem filter_byPriority (p : Policy) (k : Priority) :
    p.byPriority.filter (·.priority == k) = p.rank k := by
  rw [byPriority, Stable.filter_sort, Stable.sort_eq]
  -- what is left is sorted as it stands, since all of it ranks alike
  refine List.Pairwise.insertionSort_eq (List.pairwise_of_forall_mem_list fun a ha b hb => ?_)
  have hak : a.priority = k := beq_iff_eq.1 (List.mem_filter.1 ha).2
  have hbk : b.priority = k := beq_iff_eq.1 (List.mem_filter.1 hb).2
  exact outranks_iff.2 (Int.le_of_eq (hbk.trans hak.symm))

/-- Rules in priority order do not rise. -/
theorem byPriority_falling (p : Policy) :
    p.byPriority.Pairwise fun a b => b.priority ≤ a.priority :=
  p.byPriority_pairwise.imp outranks_iff.1

/-- **Priority order is unique**: it is the one list with the rules of the policy that falls in priority
and keeps the order of the policy among equals. -/
theorem isRanking_iff {l : List Rule} : p.IsRanking l ↔ l = p.byPriority := by
  constructor
  · intro h
    refine Stable.eq_of_filter_eq h.falling p.byPriority_falling fun k => ?_
    rw [h.ties, filter_byPriority]
  · rintro rfl
    refine ⟨?_, p.byPriority_falling, p.filter_byPriority⟩
    rw [byPriority, Stable.sort_eq]
    exact List.perm_insertionSort ..

/-- Policies whose ranks are the same have one order of priority. -/
theorem SameRanks.byPriority_eq (h : p.SameRanks p') : p.byPriority = p'.byPriority :=
  Stable.eq_of_filter_eq p.byPriority_falling p'.byPriority_falling fun k => by
    rw [filter_byPriority, filter_byPriority, h k]

end Policy

namespace Table

/-- **A table follows from priority order alone.** That order is the only one of the rules that falls in
priority and keeps equals as they stand. Policies that agree on the rules of each priority, whatever else
there is to them, have the same entries, the same name and the same text in every module. -/
theorem table_of_sameRanks :
    (∀ (p : Policy) (l : List Rule), p.IsRanking l ↔ l = p.byPriority) ∧
      ∀ p p' : Policy, p.SameRanks p' →
        (ofPolicy p).entries = (ofPolicy p').entries ∧ (ofPolicy p).id = (ofPolicy p').id ∧
          ∀ wanted fallback : String,
            (ofPolicy p).source (moduleName wanted fallback) =
              (ofPolicy p').source (moduleName wanted fallback) := by
  refine ⟨fun p l => Policy.isRanking_iff, fun p p' h => ?_⟩
  have htable : ofPolicy p = ofPolicy p' := by
    simp only [ofPolicy, Policy.placements, h.byPriority_eq]
  rw [htable]
  exact ⟨rfl, rfl, fun _ _ => rfl⟩

/-- An amendment that mixes rules of two priorities. -/
def mixed : Policy :=
  (Policy.named "amendment" [
    (Rule.allow "user:*" "doc:*" "read").withPriority 5,
    Rule.deny "*" "*" "*",
    (Rule.deny "user:7" "doc:*" "*").withPriority 5,
    Rule.allow "admin" "*" "*"]).extending "charter"

/-- The same rules, by priority and without a name. -/
def unmixed : Policy :=
  .ofRules [
    Rule.deny "*" "*" "*",
    Rule.allow "admin" "*" "*",
    (Rule.allow "user:*" "doc:*" "read").withPriority 5,
    (Rule.deny "user:7" "doc:*" "*").withPriority 5]

/-- The amendment and the same rules sorted by hand have one identifier and one text. -/
theorem mixed_same_table :
    mixed.SameRanks unmixed ∧ (ofPolicy mixed).id = (ofPolicy unmixed).id ∧
      (ofPolicy mixed).source (moduleName "type" "rules") =
        (ofPolicy unmixed).source (moduleName "type" "rules") := by
  have hranks : mixed.SameRanks unmixed := by
    intro k
    by_cases hhigh : (5 : Int) = k
    · subst hhigh
      rfl
    · by_cases hlow : (1 : Int) = k
      · subst hlow
        rfl
      · simp [Policy.rank, mixed, unmixed, Policy.extending, Policy.named, Policy.ofRules,
          Rule.withPriority, Rule.allow, Rule.deny, Rule.on, Priority.default, hhigh, hlow]
  obtain ⟨-, hid, hsource⟩ := table_of_sameRanks.2 mixed unmixed hranks
  exact ⟨hranks, hid, hsource "type" "rules"⟩

end Table

end Clearance
