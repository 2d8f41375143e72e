import Clearance.Proofs.PolicyStore.Loading
import Clearance.Proofs.PolicyStore.Trash
import Mathlib.Logic.Relation

/-!
# Bases come first

Loading policies follows each live policy to the one it extends, from there to the next, and so on, and
takes up what has not contributed yet, the last base first. `extends_resolved` says what comes of it on
any graph of policies: every live policy contributes its rules once, as a block, and after those of its
base, unless the base leads back to it.

A policy extends one other at most, so a line that starts with a policy runs on through its bases and
stops where one is missing or no longer waits. If a base does not wait when its policy is taken up, then
either it has contributed before, which is as it should be, or it stands further up on the same line,
and then it leads back to the policy (`before_of_mem_lineage`).
-/

namespace Clearance.PolicyStore

open Relation (ReflTransGen)

section Walk

variable {live : Register Policy} {waiting names : List String} {name x base : String}

/-- Whether a policy is followed to another. -/
def LeadsTo (live : Register Policy) (name base : String) : Prop := liveBase? live name = some base

/-- A line holds only what the policy that heads it leads to. -/
theorem leadsTo_of_mem_lineage (h : x ∈ lineage live waiting name) :
    ReflTransGen (LeadsTo live) name x := by
  fun_induction lineage live waiting name with
  | case1 waiting name hname ih =>
    rcases List.mem_cons.1 h with rfl | h
    · exact .refl
    · split at h
      next base hbase => exact .head hbase (ih base h)
      next => exact absurd h List.not_mem_nil
  | case2 waiting name hname => exact absurd h List.not_mem_nil

/-- On a line a policy is followed by its base if that still waits, and does not lead back. -/
theorem before_of_mem_lineage (hbase : LeadsTo live x base)
    (hnot : ¬ ReflTransGen (LeadsTo live) base x) (hx : x ∈ lineage live waiting name)
    (hwaits : base ∈ waiting) : [x, base].Sublist (lineage live waiting name) := by
  fun_induction lineage live waiting name with
  | case1 waiting name hname ih =>
    by_cases hhead : x = name
    · -- the policy heads the line, so its base is the next to be taken up
      subst hhead
      have hne : base ≠ x := by
        intro he
        rw [he] at hnot
        exact hnot .refl
      have hnext : base ∈ waiting.erase x := (List.mem_erase_of_ne hne).2 hwaits
      unfold LeadsTo at hbase
      rw [hbase]
      exact (List.singleton_sublist.2 (self_mem_lineage hnext)).cons_cons x
    · have hx := (List.mem_cons.1 hx).resolve_left hhead
      cases hnext : liveBase? live name with
      | none =>
        simp only [hnext] at hx
        exact absurd hx List.not_mem_nil
      | some next =>
        simp only [hnext] at hx ⊢
        -- the head leads to the policy, so it is not the base
        have hne : base ≠ name := by
          intro he
          rw [he] at hnot
          exact hnot (.head hnext (leadsTo_of_mem_lineage hx))
        exact (ih next hx ((List.mem_erase_of_ne hne).2 hwaits)).cons name
  | case2 waiting name hname => exact absurd hx List.not_mem_nil

/-- A base that waits contributes before its policy, unless it leads back to it. -/
theorem before_of_mem_contributionsFrom (hbase : LeadsTo live x base)
    (hnot : ¬ ReflTransGen (LeadsTo live) base x) (hx : x ∈ contributionsFrom live waiting names)
    (hwaits : base ∈ waiting) : [base, x].Sublist (contributionsFrom live waiting names) := by
  induction names generalizing waiting with
  | nil => exact absurd hx List.not_mem_nil
  | cons first rest ih =>
    simp only [contributionsFrom] at hx ⊢
    by_cases hline : x ∈ lineage live waiting first
    · have hbefore := (before_of_mem_lineage hbase hnot hline hwaits).reverse
      exact hbefore.trans (List.sublist_append_left ..)
    · have hrest := (List.mem_append.1 hx).resolve_left (mt List.mem_reverse.1 hline)
      by_cases hearly : base ∈ lineage live waiting first
      · -- the base is on this line, and the policy comes later
        exact (List.singleton_sublist.2 (List.mem_reverse.2 hearly)).append
          (List.singleton_sublist.2 hrest)
      · have hstill : base ∈ waiting.filter (!(lineage live waiting first).contains ·) :=
          List.mem_filter.2 ⟨hwaits, by simpa using hearly⟩
        exact (ih hrest hstill).trans (List.sublist_append_right ..)

end Walk

/-- The rules of the live policy of a name. -/
def rulesOf (s : PolicyStore) (name : String) : List Rule := ((s.get? name).map (·.rules)).getD []

/-- Whether the live policy of a name extends another, which need not be on file. -/
def Extends (s : PolicyStore) (name base : String) : Prop :=
  ∃ p, s.get? name = some p ∧ p.base = some base

/-- Whether an order of names puts the live policies together as it should. -/
structure Resolves (s : PolicyStore) (order : List String) : Prop where
  once : order.Nodup
  all : ∀ name, name ∈ order ↔ s.HoldsLive name
  /-- A base comes before the policy that extends it, unless the policy can be reached from the base. -/
  baseFirst : ∀ name base, s.Extends name base → s.HoldsLive base →
    ¬ ReflTransGen s.Extends base name → [base, name].Sublist order

section Resolves

variable {s : PolicyStore} {name base : String}

/-- The live policies are those that are filed and not in the trash. -/
theorem mem_keys_live : name ∈ s.live.keys ↔ s.HoldsLive name := by
  rw [Register.mem_keys, get?_live, Option.isSome_iff_exists]
  rfl

/-- A policy is followed to the one it extends, if that is live. -/
theorem leadsTo_iff : LeadsTo s.live name base ↔ s.Extends name base ∧ s.HoldsLive base := by
  unfold LeadsTo liveBase? Extends
  rw [get?_live, Option.filter_eq_some_iff, Option.bind_eq_some_iff, ← mem_keys_live,
    Register.mem_keys]
  rfl

/-- The contributions are the policies that should contribute, in the order in which they should. -/
theorem resolves_contributions (s : PolicyStore) : s.Resolves (contributions s.live) where
  once := nodup_contributionsFrom s.live.nodup_keys
  all := fun name => by rw [(contributions_perm s.live).mem_iff, mem_keys_live]
  baseFirst := by
    intro name base hextends hlive hnot
    have hname : s.HoldsLive name := by
      obtain ⟨p, hp, -⟩ := hextends
      exact ⟨p, hp⟩
    -- what is followed from the base are links, so it does not lead back either
    have hnot' : ¬ ReflTransGen (LeadsTo s.live) base name := fun hback =>
      hnot (ReflTransGen.mono (fun _ _ h => (leadsTo_iff.1 h).1) _ _ hback)
    exact before_of_mem_contributionsFrom (leadsTo_iff.2 ⟨hextends, hlive⟩) hnot'
      (mem_contributions (mem_keys_live.2 hname)) (mem_keys_live.2 hlive)

/-- The live rules are those of the contributions, one after another. -/
theorem liveRules_eq (s : PolicyStore) : s.liveRules = (contributions s.live).flatMap s.rulesOf := by
  unfold liveRules rulesOf
  simp only [get?_live]

/-- What is loaded depends on the live policies and their names only. -/
theorem live_congr {s' : PolicyStore} (h : ∀ name, s'.get? name = s.get? name) :
    s'.live = s.live := by
  refine Register.ext_get? fun name => ?_
  rw [get?_live, get?_live, h]

end Resolves

/-- **The policies that extend one another are put together base first**, whatever graph they form. The
rules that are loaded are those of the live policies, each policy's once and in its own order, and those
of a base come before those of a policy that extends it, unless the base leads back to it. What concerns
a subject is picked from them as they stand. They are the same for any two stores with the same live
policies, however these came to be live. -/
theorem extends_resolved (s : PolicyStore) :
    (∃ order, s.Resolves order ∧ s.liveRules = order.flatMap s.rulesOf) ∧
      (∀ subject, (s.policiesFor subject).rules = s.liveRules.filter (concerns subject)) ∧
      ∀ s' : PolicyStore, (∀ name, s'.get? name = s.get? name) → s'.liveRules = s.liveRules := by
  refine ⟨⟨contributions s.live, s.resolves_contributions, s.liveRules_eq⟩, fun _ => rfl, ?_⟩
  intro s' h
  unfold liveRules
  rw [live_congr h]

/-- A policy of one rule, on an action of the policy's name. -/
def solo (name : String) (base : Option String) : Policy :=
  { rules := [.allow "*" "*" name], name := some name, base }

/-- A child before its base in name order, two policies that extend each other, one that extends itself
and one that extends what is in the trash. -/
def entangled : List Edit :=
  [.saveMany [solo "child" (some "zero"), solo "zero" none, solo "ping" (some "pong"),
      solo "pong" (some "ping"), solo "self" (some "self"), solo "heir" (some "late"),
      solo "late" none],
    .delete "late"]

/-- The same policies, saved in another order and some of them after a time in the trash. -/
def entangledAnew : List Edit :=
  [.save (solo "late" none), .save (solo "heir" (some "late")), .save (solo "pong" (some "ping")),
    .deleteMany ["late", "pong"], .save (solo "zero" none), .save (solo "self" (some "self")),
    .save (solo "ping" (some "pong")), .save (solo "child" none), .restore "pong",
    .save (solo "child" (some "zero"))]

/-- The live ones of them, in name order. -/
def entangledLive : List (String × Policy) :=
  [("child", solo "child" (some "zero")), ("heir", solo "heir" (some "late")),
    ("ping", solo "ping" (some "pong")), ("pong", solo "pong" (some "ping")),
    ("self", solo "self" (some "self")), ("zero", solo "zero" none)]

/-- Policies that extend each other in a circle, or themselves, contribute once, and in an order that
does not depend on how they were filed. -/
theorem entangled_resolved :
    (∀ name, (edited .empty entangledAnew).get? name = (edited .empty entangled).get? name) ∧
      (edited .empty entangledAnew).liveRules = (edited .empty entangled).liveRules ∧
      (edited .empty entangled).liveRules.map (·.action) =
        ["zero", "child", "heir", "pong", "ping", "self"] := by
  have hlive : (edited .empty entangled).live.entries = entangledLive := rfl
  have hanew : (edited .empty entangledAnew).live.entries = entangledLive := rfl
  have hsame : ∀ name,
      (edited .empty entangledAnew).get? name = (edited .empty entangled).get? name := by
    intro name
    rw [← get?_live, ← get?_live]
    exact congrArg (Entries.get? · name) (hanew.trans hlive.symm)
  obtain ⟨-, -, hcongr⟩ := extends_resolved (edited .empty entangled)
  exact ⟨hsame, hcongr _ hsame, by decide +kernel⟩

end Clearance.PolicyStore
