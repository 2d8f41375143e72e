/-!
# Stable ordering

Rules of one priority, delegations of one moment and cache entries of one age keep the order
they came in. `Stable.sort` is an insertion sort that puts an element before the ones it may
precede, so among equals the earlier one stays first.
-/

namespace Clearance.Stable

universe u
variable {α : Type u} (le : α → α → Bool)

/-- Put `x` before the first element it may precede. -/
def place (x : α) : List α → List α
  | [] => [x]
  | y :: ys => if le x y then x :: y :: ys else y :: place x ys

/-- Order a list by `le`; elements that may precede each other keep their places. -/
def sort (l : List α) : List α := l.foldr (place le) []

end Clearance.Stable
