import Clearance.Proofs.Decision
import Clearance.Proofs.PolicyStore
import Mathlib.Data.List.Nodup

/-!
# Loading policies for a subject loses nothing

What is loaded for a subject is a part of what is live: rules that name neither the subject nor one of
its roles are left out. `decision_policiesFor` says that nobody can tell from a decision, whichever way
rules are matched and combined.

Two things make it so. No rule applies to a request unless it concerns the subject
(`concerns_of_appliesTo`), so the test that leaves rules out is no stricter than any way of matching. And
leaving out rules that do not apply keeps those that do in their order, which is all that a decision
depends on (`decision_filter`).

The rules that are live are all of them, each as often as it stands in a live policy: the walk that puts
bases first passes every name exactly once (`contributions_perm`).
-/

namespace Clearance

namespace Evaluator

/-- Leaving out rules that do not apply changes nothing about a decision. -/
theorem decision_filter (e : Evaluator) (q : Request) {rules : List Rule} {keep : Rule → Bool}
    (h : ∀ r ∈ rules, r.appliesTo e.matching q = true → keep r = true) :
    e.decision (.ofRules (rules.filter keep)) q = e.decision (.ofRules rules) q := by
  refine decision_congr ?_
  show (rules.filter keep).filter _ = rules.filter _
  rw [List.filter_filter]
  refine List.filter_congr fun r hr => ?_
  cases happlies : r.appliesTo e.matching q with
  | false => rfl
  | true => exact h r hr happlies

end Evaluator

namespace PolicyStore

variable {live : Register Policy} {waiting names : List String} {name x : String}

/-- A line holds names that wait. -/
theorem mem_waiting_of_mem_lineage (h : x ∈ lineage live waiting name) : x ∈ waiting := by
  fun_induction lineage live waiting name with
  | case1 waiting name hname ih =>
    rcases List.mem_cons.1 h with rfl | h
    · exact hname
    · split at h
      next base _ => exact List.mem_of_mem_erase (ih base h)
      next => exact absurd h List.not_mem_nil
  | case2 waiting name hname => exact absurd h List.not_mem_nil

/-- A line holds each name once: the one that heads it no longer waits for the rest. -/
theorem nodup_lineage (h : waiting.Nodup) : (lineage live waiting name).Nodup := by
  fun_induction lineage live waiting name with
  | case1 waiting name hname ih =>
    split
    next base _ =>
      refine List.nodup_cons.2 ⟨fun hmem => ?_, ih base (h.erase name)⟩
      exact (h.mem_erase_iff.1 (mem_waiting_of_mem_lineage hmem)).1 rfl
    next => exact List.nodup_singleton name
  | case2 waiting name hname => exact .nil

/-- Only what has not contributed yet contributes. -/
theorem mem_waiting_of_mem_contributionsFrom (h : x ∈ contributionsFrom live waiting names) :
    x ∈ waiting := by
  induction names generalizing waiting with
  | nil => exact absurd h List.not_mem_nil
  | cons first rest ih =>
    rcases List.mem_append.1 h with h | h
    · exact mem_waiting_of_mem_lineage (List.mem_reverse.1 h)
    · exact (List.mem_filter.1 (ih h)).1

/-- Nothing contributes twice. -/
theorem nodup_contributionsFrom (h : waiting.Nodup) :
    (contributionsFrom live waiting names).Nodup := by
  induction names generalizing waiting with
  | nil => exact .nil
  | cons first rest ih =>
    refine List.nodup_append.2 ⟨List.nodup_reverse.2 (nodup_lineage h), ih (h.filter _), ?_⟩
    -- what contributes later still waits when this line has been taken up
    rintro x hline _ hrest rfl
    have hwaits := (List.mem_filter.1 (mem_waiting_of_mem_contributionsFrom hrest)).2
    simp [List.mem_reverse.1 hline] at hwaits

/-- Every live policy contributes exactly once. -/
theorem contributions_perm (live : Register Policy) : (contributions live).Perm live.keys :=
  (List.perm_ext_iff_of_nodup (nodup_contributionsFrom live.nodup_keys) live.nodup_keys).2 fun _ =>
    ⟨mem_waiting_of_mem_contributionsFrom, mem_contributions⟩

/-- The policies on file that are not in the trash, by name. -/
def onFile (s : PolicyStore) : List (String × FiledPolicy) := s.filed.entries.filter (!·.2.trashed)

theorem entries_live (s : PolicyStore) :
    s.live.entries = s.onFile.map fun f => (f.1, f.2.policy) := rfl

/-- What is on file under a name is what is filed there and not in the trash. -/
theorem mem_onFile {s : PolicyStore} {f : FiledPolicy} :
    (name, f) ∈ s.onFile ↔ s.filed.get? name = some f ∧ f.trashed = false := by
  rw [onFile, List.mem_filter, Bool.not_eq_true']
  exact and_congr_left' (Entries.get?_eq_some_iff s.filed.ordered).symm

/-- The rules that are loaded are those of the policies on file that are not in the trash, each as often
as it stands there. -/
theorem liveRules_perm (s : PolicyStore) :
    s.liveRules.Perm (s.onFile.flatMap (·.2.policy.rules)) := by
  have hrules : ∀ e ∈ s.live.entries, ((s.live.get? e.1).map (·.rules)).getD [] = e.2.rules := by
    intro e he
    have hget : s.live.get? e.1 = some e.2 := (Entries.get?_eq_some_iff s.live.ordered).2 he
    rw [hget]
    rfl
  unfold liveRules
  refine ((contributions_perm s.live).flatMap_right _).trans ?_
  rw [Register.keys, List.flatMap_map]
  refine List.Perm.of_eq ?_
  rw [List.flatMap_def, List.map_congr_left hrules, entries_live, List.map_map, List.flatMap_def]
  rfl

/-- Whichever way rules are matched, one that applies concerns the subject. -/
theorem concerns_of_appliesTo {r : Rule} {m : Matching} {q : Request}
    (h : r.appliesTo m q = true) : concerns q.subject r = true := by
  rw [Rule.appliesTo_eq, Bool.and_eq_true, Bool.and_eq_true] at h
  obtain ⟨⟨-, hfit⟩, -⟩ := h
  unfold concerns Matching.subjectOrRoleFits
  rw [Bool.or_eq_true]
  cases m with
  | rbac =>
    simp only [Matching.patternsFit, Bool.and_eq_true] at hfit
    exact Bool.or_eq_true_iff.1 hfit.1.1
  | _ =>
    simp only [Matching.patternsFit, Bool.and_eq_true] at hfit
    exact .inr hfit.1.1

/-- A decision on the rules loaded for the subject is the decision on all live rules. -/
theorem decision_loaded (s : PolicyStore) (e : Evaluator) (q : Request) :
    e.decision (s.policiesFor q.subject) q = e.decision (.ofRules s.liveRules) q :=
  e.decision_filter q fun _ _ => concerns_of_appliesTo

/-- **Loading policies per subject loses nothing.** Whatever is on file and whichever way rules are
matched and combined, a request is decided on the rules loaded for its subject just as it is on all
rules of all policies on file that are not in the trash, of which those are a part in the same order. -/
theorem decision_policiesFor (s : PolicyStore) (e : Evaluator) (q : Request) :
    s.liveRules.Perm (s.onFile.flatMap (·.2.policy.rules)) ∧
      (∀ name f, (name, f) ∈ s.onFile ↔ s.filed.get? name = some f ∧ f.trashed = false) ∧
      (s.policiesFor q.subject).rules.Sublist s.liveRules ∧
      e.decision (s.policiesFor q.subject) q = e.decision (.ofRules s.liveRules) q :=
  ⟨s.liveRules_perm, fun _ _ => mem_onFile, List.filter_sublist, s.decision_loaded e q⟩

/-- Three policies on file: one for the staff, one that is about bob alone and one in the trash, which
would forbid what the first one allows. -/
def staffed : PolicyStore :=
  ((empty.put "staff" (.ofRules [.allow "nurse" "chart" "read", .deny "eve" "*" "*"]) false).put
    "bob" (.ofRules [.deny "bob" "chart" "read"]) false).put
    "old" (.ofRules [.deny "alice" "chart" "read"]) true

/-- A nurse reads a chart. -/
def chartRead : Request where
  subject := ({ id := "alice" } : Subject).withRoles ["nurse"]
  resource := some (.ofId "chart")
  action := ⟨"read"⟩

/-- Rules speak of roles, and a deny wins. -/
def byRoles : Evaluator := { matching := .rbac, combining := .standard }

/-- Of three live rules one is loaded, and the decision is the one on all three. -/
theorem staffed_decided :
    staffed.liveRules.map (·.subject) = ["bob", "nurse", "eve"] ∧
      (staffed.policiesFor chartRead.subject).rules.map (·.subject) = ["nurse"] ∧
      (byRoles.decision (staffed.policiesFor chartRead.subject) chartRead).effect = .allow ∧
      (byRoles.decision (.ofRules staffed.liveRules) chartRead).effect = .allow := by
  have hloaded : (byRoles.decision (staffed.policiesFor chartRead.subject) chartRead).effect = .allow := by
    decide +kernel
  obtain ⟨-, -, -, hsame⟩ := decision_policiesFor staffed byRoles chartRead
  exact ⟨by decide +kernel, by decide +kernel, hloaded, hsame ▸ hloaded⟩

end PolicyStore

end Clearance
