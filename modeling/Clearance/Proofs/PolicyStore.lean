import Clearance.PolicyStore

/-!
# Every live policy contributes

The rules that are loaded for a subject come from walking the live policies in an order that puts
bases first. This file shows that the walk passes no live policy by (`mem_contributions`), so a
rule is among the loaded ones exactly if it stands in some live policy (`mem_liveRules`).

The walk keeps a list of names that still wait. A name leaves that list only when it contributes,
which is all that `mem_contributionsFrom` needs: a waiting name that is asked for either heads its
own line or was taken up by an earlier one.
-/

namespace Clearance

namespace Register

variable {α : Type}

theorem mem_keys {r : Register α} {k : String} : k ∈ r.keys ↔ (r.get? k).isSome := by
  unfold keys get?
  rw [List.mem_map, Option.isSome_iff_exists]
  constructor
  · intro h
    obtain ⟨⟨k, v⟩, he, rfl⟩ := h
    exact ⟨v, (Entries.get?_eq_some_iff r.ordered).2 he⟩
  · intro h
    obtain ⟨v, hv⟩ := h
    exact ⟨(k, v), Entries.mem_of_get? hv, rfl⟩

end Register

namespace PolicyStore

/-- A rule of some live policy. -/
def IsLive (s : PolicyStore) (r : Rule) : Prop := ∃ name p, s.get? name = some p ∧ r ∈ p.rules

/-- What is live is what can be got. -/
theorem get?_live (s : PolicyStore) (name : String) : s.live.get? name = s.get? name := by
  unfold live get?
  rw [Register.get?_map, Register.get?_filter]
  cases s.filed.get? name with
  | none => rfl
  | some f =>
    obtain ⟨p, trashed⟩ := f
    cases trashed <;> rfl

/-- A policy that has not contributed is in its own lineage. -/
theorem self_mem_lineage {live : Register Policy} {waiting : List String} {name : String}
    (h : name ∈ waiting) : name ∈ lineage live waiting name := by
  unfold lineage
  rw [if_pos h]
  exact List.mem_cons_self ..

/-- A waiting name that is asked for contributes. -/
theorem mem_contributionsFrom {live : Register Policy} {waiting names : List String}
    {name : String} (hw : name ∈ waiting) (hn : name ∈ names) :
    name ∈ contributionsFrom live waiting names := by
  induction names generalizing waiting with
  | nil => exact absurd hn List.not_mem_nil
  | cons first rest ih =>
    simp only [contributionsFrom, List.mem_append, List.mem_reverse]
    by_cases hline : name ∈ lineage live waiting first
    · exact .inl hline
    · have hne : name ≠ first := fun he => hline (he ▸ self_mem_lineage (he ▸ hw))
      refine .inr (ih ?_ ((List.mem_cons.1 hn).resolve_left hne))
      exact List.mem_filter.2 ⟨hw, by simpa using hline⟩

/-- Every live policy contributes. -/
theorem mem_contributions {live : Register Policy} {name : String} (h : name ∈ live.keys) :
    name ∈ contributions live :=
  mem_contributionsFrom h h

/-- The rules that are loaded are those of the live policies. -/
theorem mem_liveRules {s : PolicyStore} {r : Rule} : r ∈ s.liveRules ↔ s.IsLive r := by
  unfold liveRules IsLive
  rw [List.mem_flatMap]
  simp only [get?_live]
  constructor
  · intro h
    obtain ⟨name, -, hr⟩ := h
    cases hp : s.get? name with
    | none => simp [hp] at hr
    | some p => exact ⟨name, p, hp, by simpa [hp] using hr⟩
  · intro h
    obtain ⟨name, p, hp, hr⟩ := h
    refine ⟨name, mem_contributions (Register.mem_keys.2 ?_), by simpa [hp] using hr⟩
    simp [get?_live, hp]

/-- The rules loaded for a subject are the live ones that can apply to it. -/
theorem mem_policiesFor {s : PolicyStore} {subject : Subject} {r : Rule} :
    r ∈ (s.policiesFor subject).rules ↔ s.IsLive r ∧ concerns subject r = true := by
  show r ∈ s.liveRules.filter (concerns subject) ↔ _
  rw [List.mem_filter, mem_liveRules]

end PolicyStore

end Clearance
