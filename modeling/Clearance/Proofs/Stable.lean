import Clearance.Stable
import Mathlib.Data.List.Sort

/-!
# Ordering leaves equals in place

`Stable.sort` is the insertion sort of the library (`sort_eq`), of which it is known that it loses and
repeats nothing, that what comes earlier may precede what comes later, and that a list in order stays
as it is.

What is said here in addition is that leaving elements out before or after ordering comes to the same
(`filter_sort`). It follows that elements that may precede each other keep the order that they had
(`sort_pairwise_of_ties`).
-/

namespace Clearance.Stable

variable {α : Type} {le : α → α → Bool}

/-- To place an element is the library's ordered insertion. -/
theorem place_eq (x : α) (l : List α) : place le x l = l.orderedInsert (le · ·) x := by
  induction l with
  | nil => rfl
  | cons y ys ih => rw [place, List.orderedInsert_cons, ih]

/-- The sort is the library's insertion sort. -/
theorem sort_eq (l : List α) : sort le l = l.insertionSort (le · ·) := by
  induction l with
  | nil => rfl
  | cons x l ih =>
    show place le x (sort le l) = _
    rw [place_eq, ih, List.insertionSort_cons]

/-- Ordering commutes with a change of the elements that keeps how they compare. -/
theorem sort_map {β : Type} {le' : β → β → Bool} {f : α → β} (h : ∀ a b, le' (f a) (f b) = le a b)
    (l : List α) : sort le' (l.map f) = (sort le l).map f := by
  rw [sort_eq, sort_eq]
  exact (List.map_insertionSort _ _ f l fun a _ b _ => by rw [h]).symm

variable [IsTrans α (le · ·)]

/-- An element is put among what a test leaves of an ordered list as it is put into the list. -/
theorem filter_orderedInsert (p : α → Bool) (x : α) {l : List α} (h : l.Pairwise (le · ·)) :
    (l.orderedInsert (le · ·) x).filter p =
      if p x then (l.filter p).orderedInsert (le · ·) x else l.filter p := by
  induction l with
  | nil => cases hp : p x <;> simp [hp]
  | cons y ys ih =>
    obtain ⟨hy, hys⟩ := List.pairwise_cons.1 h
    by_cases hxy : le x y
    · have hx : ∀ z ∈ (y :: ys).filter p, le x z := fun z hz => by
        rcases List.mem_cons.1 (List.mem_filter.1 hz).1 with rfl | hz
        · exact hxy
        · exact trans_of (le · ·) hxy (hy z hz)
      rw [List.orderedInsert_cons, if_pos hxy, List.filter_cons]
      cases hrest : (y :: ys).filter p with
      | nil => rfl
      | cons z zs =>
        have hxz : le x z := hx z (by rw [hrest]; exact List.mem_cons_self)
        rw [List.orderedInsert_cons, if_pos hxz]
    · rw [List.orderedInsert_cons, if_neg hxy, List.filter_cons, ih hys]
      cases hp : p x <;> cases hq : p y <;> simp [hq, hxy]

variable [Std.Total (le · ·)]

/-- **Leaving elements out before or after ordering comes to the same.** -/
theorem filter_sort (p : α → Bool) (l : List α) : (sort le l).filter p = sort le (l.filter p) := by
  rw [sort_eq, sort_eq]
  induction l with
  | nil => rfl
  | cons x l ih =>
    rw [List.insertionSort_cons, filter_orderedInsert p x (List.pairwise_insertionSort ..), ih,
      List.filter_cons]
    split <;> rfl

/-- What comes earlier in an ordered list may precede what comes later, and elements that may precede
each other keep the order that they had, whichever it was. -/
theorem sort_pairwise_of_ties {R : α → α → Prop} {l : List α} (h : l.Pairwise R) :
    (sort le l).Pairwise fun a b => le a b ∧ (le b a → R a b) := by
  refine List.pairwise_iff_forall_sublist.2 fun {a b} hab => ?_
  have hordered : (sort le l).Pairwise (le · ·) := by
    rw [sort_eq]
    exact List.pairwise_insertionSort ..
  have hle : le a b := List.pairwise_iff_forall_sublist.1 hordered hab
  refine ⟨hle, fun hback => ?_⟩
  -- those that may stand in for `a` are in the order of the list before and after
  let tied (x : α) : Bool := le a x && le x a
  have hties : (sort le l).filter tied = l.filter tied := by
    rw [filter_sort, sort_eq]
    refine List.Pairwise.insertionSort_eq (List.pairwise_of_forall_mem_list fun x hx y hy => ?_)
    have hxa := (Bool.and_eq_true_iff.1 (List.mem_filter.1 hx).2).2
    have hay := (Bool.and_eq_true_iff.1 (List.mem_filter.1 hy).2).1
    exact trans_of (le · ·) hxa hay
  have haa : le a a := trans_of (le · ·) hle hback
  have hkept : [a, b].Sublist (l.filter tied) := by
    have hfilter := hab.filter tied
    rw [hties] at hfilter
    simpa [tied, haa, hle, hback] using hfilter
  exact List.pairwise_iff_forall_sublist.1 h (hkept.trans List.filter_sublist)

end Clearance.Stable
