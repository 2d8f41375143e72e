import Clearance.Journal
import Mathlib.Data.List.Basic

/-!
# What a journal counts

A journal holds events and counts. For arguments about delegation the decisions that are counted on the
way are as good as events, because every check of a scope puts questions to the evaluator:
`Journal.counted` is what is left without them, in order. It is kept by putting journals one after
another, so what an operation counts can be said without looking at the rest of the journal.
-/

namespace Clearance

/-- By how much some counters go up in a list of counts. -/
def amountOf (p : Counter → Bool) : List (Counter × Nat) → Nat
  | [] => 0
  | e :: l => (if p e.1 then e.2 else 0) + amountOf p l

/-- What is counted of two lists adds up. -/
theorem amountOf_append (p : Counter → Bool) (l l' : List (Counter × Nat)) :
    amountOf p (l ++ l') = amountOf p l + amountOf p l' := by
  induction l with
  | nil => rw [List.nil_append, amountOf, Nat.zero_add]
  | cons e l ih => rw [List.cons_append, amountOf, amountOf, ih, Nat.add_assoc]

/-- What nothing is counted for comes to nothing. -/
theorem amountOf_eq_zero {p : Counter → Bool} {l : List (Counter × Nat)}
    (h : ∀ e ∈ l, p e.1 = false) : amountOf p l = 0 := by
  induction l with
  | nil => rfl
  | cons e l ih =>
    rw [amountOf, h e (List.mem_cons_self ..), ih fun e' he' => h e' (List.mem_cons_of_mem e he')]
    rfl

theorem amountOf_singleton (p : Counter → Bool) (c : Counter) (n : Nat) :
    amountOf p [(c, n)] = if p c then n else 0 := rfl

/-- By how much a record says that one of some counters went up. -/
def Record.amount? (p : Counter → Bool) : Record → Option Nat
  | .count c n => if p c then some n else none
  | .event _ => none

namespace Journal

/-- What is counted, other than decisions. -/
def counted (j : Journal) : List (Counter × Nat) :=
  j.filterMap fun
    | .count (.decisions _ _) _ => none
    | .count c n => some (c, n)
    | .event _ => none

/-- By how much some counters went up in all. -/
def sumOf (j : Journal) (p : Counter → Bool) : Nat :=
  (j.filterMap (·.amount? p)).foldl (· + ·) 0

/-- What two journals count is counted one after the other. -/
theorem counted_append (j k : Journal) : (j ++ k).counted = j.counted ++ k.counted :=
  List.filterMap_append

theorem foldl_add (l : List Nat) (n : Nat) : l.foldl (· + ·) n = n + l.foldl (· + ·) 0 := by
  induction l generalizing n with
  | nil => rfl
  | cons m l ih => rw [List.foldl_cons, List.foldl_cons, ih, ih (0 + m), Nat.zero_add, Nat.add_assoc]

/-- Counters that are not about decisions go up by what is counted. -/
theorem sumOf_eq_amountOf {p : Counter → Bool}
    (hp : ∀ effect matching, p (.decisions effect matching) = false) (j : Journal) :
    j.sumOf p = amountOf p j.counted := by
  induction j with
  | nil => rfl
  | cons r j ih =>
    cases r with
    | event e => exact ih
    | count c n =>
      have hsum : sumOf (.count c n :: j) p = (if p c then n else 0) + sumOf j p := by
        unfold sumOf
        by_cases hc : p c = true
        · have hr : (Record.count c n).amount? p = some n := if_pos hc
          rw [List.filterMap_cons_some hr, List.foldl_cons, foldl_add, if_pos hc, Nat.zero_add]
        · have hr : (Record.count c n).amount? p = none := if_neg hc
          rw [List.filterMap_cons_none hr, if_neg hc, Nat.zero_add]
      rw [hsum, ih]
      cases c with
      | decisions effect matching =>
        rw [hp, if_neg (by decide), Nat.zero_add]
        rfl
      | _ => rfl

/-- The total of a counter is the sum of what is counted for it. -/
theorem total_eq_sumOf (j : Journal) (c : Counter) : j.total c = j.sumOf (fun c' => c' = c) := by
  unfold total sumOf
  refine congrArg (List.foldl _ 0) (List.filterMap_congr fun r _ => ?_)
  cases r with
  | count c' n => simp only [Record.amount?, decide_eq_true_eq]
  | event e => rfl

/-- A counter that is not about decisions goes up by what is counted. -/
theorem total_eq_amountOf {c : Counter} (hc : ∀ effect matching, c ≠ .decisions effect matching)
    (j : Journal) : j.total c = amountOf (fun c' => c' = c) j.counted := by
  rw [total_eq_sumOf, sumOf_eq_amountOf]
  intro effect matching
  simpa using (hc effect matching).symm

end Journal

end Clearance
