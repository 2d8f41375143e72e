import Clearance.Binary64

/-!
# JSON values

One type serves for a document as it was written and for a value that is kept. A document keeps
its members in the order and number they were written; a kept value is `Canonical`: members
filed in name order, whole numbers within 64 bits.

Whole numbers and fractions are different values, also when they are equal as numbers.
-/

namespace Clearance

inductive Json where
  | null
  | bool (b : Bool)
  | int (n : Int)
  | float (x : Binary64)
  | str (s : String)
  | arr (items : List Json)
  | obj (members : List (String × Json))
  /-- Well-formed text that stands for no value: a number past the largest fraction, or a text
  with half a surrogate pair. -/
  | unreadable
  deriving Repr

namespace Json

instance : Inhabited Json := ⟨.null⟩

mutual
/-- Structural agreement, with fractions compared by `eq`. -/
def agree (eq : Binary64 → Binary64 → Bool) : Json → Json → Bool
  | .null, .null => true
  | .bool a, .bool b => a == b
  | .int a, .int b => a == b
  | .float a, .float b => eq a b
  | .str a, .str b => a == b
  | .arr a, .arr b => agreeItems eq a b
  | .obj a, .obj b => agreeMembers eq a b
  | .unreadable, .unreadable => true
  | _, _ => false

def agreeItems (eq : Binary64 → Binary64 → Bool) : List Json → List Json → Bool
  | [], [] => true
  | a :: as, b :: bs => agree eq a b && agreeItems eq as bs
  | _, _ => false

def agreeMembers (eq : Binary64 → Binary64 → Bool) :
    List (String × Json) → List (String × Json) → Bool
  | [], [] => true
  | (k, a) :: as, (l, b) :: bs => k == l && agree eq a b && agreeMembers eq as bs
  | _, _ => false
end

/-- Whether two values are equal as a predicate sees them: the two zeros are one number. -/
def same (a b : Json) : Bool := agree Binary64.same a b

mutual
/-- Values that agree by equality of their numbers are equal. -/
theorem agree_beq_iff : ∀ a b : Json, agree (· == ·) a b = true ↔ a = b
  | a, b => by
    cases a <;> cases b <;> simp [agree, agreeItems_beq_iff, agreeMembers_beq_iff]

theorem agreeItems_beq_iff : ∀ a b : List Json, agreeItems (· == ·) a b = true ↔ a = b
  | [], b => by cases b <;> simp [agreeItems]
  | x :: a, b => by cases b <;> simp [agreeItems, agree_beq_iff x, agreeItems_beq_iff a]

theorem agreeMembers_beq_iff :
    ∀ a b : List (String × Json), agreeMembers (· == ·) a b = true ↔ a = b
  | [], b => by cases b <;> simp [agreeMembers]
  | (k, x) :: a, b => by
    rcases b with _ | ⟨⟨l, y⟩, b⟩ <;>
      simp [agreeMembers, agree_beq_iff x, agreeMembers_beq_iff a, and_assoc]
end

instance : DecidableEq Json := fun a b => decidable_of_iff _ (agree_beq_iff a b)

/-- The text of a text value. -/
def asText? : Json → Option String
  | .str s => some s
  | _ => none

/-- The items of a list value. -/
def asItems? : Json → Option (List Json)
  | .arr items => some items
  | _ => none

end Json

end Clearance
