import Clearance.Json.Decode

/-!
# What is kept of a document

A document becomes a kept value by filing the members of its objects. `isKept` says what kept values are
like, `depth` how many levels of nesting a value takes, and the two together say which values come out of
the decoder: it yields only such values (`kept_of_decodeValue`), and yields every such value from itself
(`decodeValue_self`). So a value that has been kept once is kept unchanged ever after.

The statements go along the value, with one for lists of items and one for lists of members.
-/

namespace Clearance

namespace Entries

variable {α : Type} {k : String} {v : α} {l : List (String × α)}

/-- What comes after all names is filed at the end. -/
theorem put_of_lt (h : ∀ e ∈ l, e.1 < k) : put k v l = l ++ [(k, v)] := by
  induction l with
  | nil => rfl
  | cons e l ih =>
    obtain ⟨he, hl⟩ := List.forall_mem_cons.1 h
    have hne : k ≠ e.1 := fun heq => String.lt_irrefl k (heq ▸ he)
    have hnot : ¬ k < e.1 := fun hlt => String.lt_irrefl k (String.lt_trans hlt he)
    rw [put, if_neg hnot, if_neg hne, ih hl, List.cons_append]

end Entries

namespace Register

variable {α : Type}

/-- Entries that are filed in the order of their names are listed as they were given. -/
theorem entries_insertAll (r : Register α) {l : List (String × α)}
    (h : Entries.InNameOrder (r.entries ++ l)) : (r.insertAll l).entries = r.entries ++ l := by
  induction l generalizing r with
  | nil => exact (List.append_nil r.entries).symm
  | cons e l ih =>
    have hput : (r.insert e.1 e.2).entries = r.entries ++ [e] :=
      Entries.put_of_lt fun x hx => (List.pairwise_append.1 h).2.2 x hx e (List.mem_cons_self ..)
    have hordered : Entries.InNameOrder ((r.insert e.1 e.2).entries ++ l) := by
      rw [hput, List.append_assoc]
      exact h
    show ((r.insert e.1 e.2).insertAll l).entries = _
    rw [ih _ hordered, hput, List.append_assoc]
    rfl

/-- Filing the entries of a register anew gives the register. -/
theorem ofList_entries (r : Register α) : ofList r.entries = r := by
  have hentries : (ofList r.entries).entries = r.entries := entries_insertAll empty r.ordered
  obtain ⟨entries, ordered⟩ := r
  exact Register.mk.injEq .. ▸ hentries

end Register

namespace Json

/-! ## Depth, and tests on all that is nested in a value -/

mutual
/-- How many lists and objects are nested in one another. -/
def depth : Json → Nat
  | .arr items => depthItems items + 1
  | .obj members => depthMembers members + 1
  | _ => 0

def depthItems : List Json → Nat
  | [] => 0
  | j :: items => max j.depth (depthItems items)

def depthMembers : List (String × Json) → Nat
  | [] => 0
  | (_, j) :: members => max j.depth (depthMembers members)
end

mutual
/-- Whether a value and everything nested in it pass a test. -/
def all (test : Json → Bool) : Json → Bool
  | .arr items => test (.arr items) && allItems test items
  | .obj members => test (.obj members) && allMembers test members
  | j => test j

def allItems (test : Json → Bool) : List Json → Bool
  | [] => true
  | j :: items => all test j && allItems test items

def allMembers (test : Json → Bool) : List (String × Json) → Bool
  | [] => true
  | (_, j) :: members => all test j && allMembers test members
end

variable {j : Json} {items : List Json} {members : List (String × Json)} {levels n : Nat}
  {test test' test'' : Json → Bool}

/-- A list is as deep as the deepest of its items. -/
theorem depthItems_le_iff : depthItems items ≤ n ↔ ∀ j ∈ items, j.depth ≤ n := by
  induction items with
  | nil => simp [depthItems]
  | cons j items ih => rw [depthItems, Nat.max_le, ih, List.forall_mem_cons]

/-- An object is as deep as the deepest of its members. -/
theorem depthMembers_le_iff : depthMembers members ≤ n ↔ ∀ m ∈ members, m.2.depth ≤ n := by
  induction members with
  | nil => simp [depthMembers]
  | cons m members ih => rw [depthMembers, Nat.max_le, ih, List.forall_mem_cons]

theorem allItems_iff : allItems test items = true ↔ ∀ j ∈ items, j.all test = true := by
  induction items with
  | nil => simp [allItems]
  | cons j items ih => rw [allItems, Bool.and_eq_true, ih, List.forall_mem_cons]

theorem allMembers_iff : allMembers test members = true ↔ ∀ m ∈ members, m.2.all test = true := by
  induction members with
  | nil => simp [allMembers]
  | cons m members ih => rw [allMembers, Bool.and_eq_true, ih, List.forall_mem_cons]

mutual
/-- Two tests that are passed throughout imply what they imply of each value. -/
theorem all_of_both (himp : ∀ j, test j = true → test' j = true → test'' j = true) (j : Json)
    (h : j.all test = true) (h' : j.all test' = true) : j.all test'' = true := by
  cases j with
  | arr items =>
    rw [all, Bool.and_eq_true] at h h' ⊢
    exact ⟨himp _ h.1 h'.1, allItems_of_both himp items h.2 h'.2⟩
  | obj members =>
    rw [all, Bool.and_eq_true] at h h' ⊢
    exact ⟨himp _ h.1 h'.1, allMembers_of_both himp members h.2 h'.2⟩
  | _ => exact himp _ h h'

theorem allItems_of_both (himp : ∀ j, test j = true → test' j = true → test'' j = true)
    (items : List Json) (h : allItems test items = true) (h' : allItems test' items = true) :
    allItems test'' items = true := by
  match items with
  | [] => rfl
  | j :: items =>
    rw [allItems, Bool.and_eq_true] at h h' ⊢
    exact ⟨all_of_both himp j h.1 h'.1, allItems_of_both himp items h.2 h'.2⟩

theorem allMembers_of_both (himp : ∀ j, test j = true → test' j = true → test'' j = true)
    (members : List (String × Json)) (h : allMembers test members = true)
    (h' : allMembers test' members = true) : allMembers test'' members = true := by
  match members with
  | [] => rfl
  | (_, j) :: members =>
    rw [allMembers, Bool.and_eq_true] at h h' ⊢
    exact ⟨all_of_both himp j h.1 h'.1, allMembers_of_both himp members h.2 h'.2⟩
end

/-- A test that is passed throughout is passed wherever a weaker one is. -/
theorem all_mono (himp : ∀ j, test j = true → test' j = true) (h : j.all test = true) :
    j.all test' = true :=
  all_of_both (fun j hj _ => himp j hj) j h h

/-! ## Kept values -/

/-- Whether a whole number fits 64 bits, signed or unsigned. -/
def fits (n : Int) : Bool := -(Nat.pow 2 63 : Nat) ≤ n && n < (Nat.pow 2 64 : Nat)

/-- Whether a number, if it is a whole one, fits. -/
def isSized : Json → Bool
  | .int n => fits n
  | _ => true

/-- Whether a number fits and an object has its members in name order. What stands for no value is never
kept. -/
def isKept : Json → Bool
  | .int n => fits n
  | .obj members => decide (Entries.InNameOrder members)
  | .unreadable => false
  | _ => true

theorem all_arr_iff (h : test (.arr items) = true) :
    (arr items).all test = true ↔ ∀ j ∈ items, j.all test = true := by
  rw [all, h, Bool.true_and, allItems_iff]

/-- An object passes throughout if it passes itself and its members do. -/
theorem all_obj_iff :
    (obj members).all test = true ↔
      test (.obj members) = true ∧ ∀ m ∈ members, m.2.all test = true := by
  rw [all, Bool.and_eq_true, allMembers_iff]

/-- An object is a kept value if its members are, and stand in name order. -/
theorem kept_obj_iff : (obj members).all isKept = true ↔
    Entries.InNameOrder members ∧ ∀ m ∈ members, m.2.all isKept = true := by
  rw [all_obj_iff, isKept, decide_eq_true_iff]

mutual
/-- **A kept value is what is kept of it**, as far as its nesting is followed. -/
theorem decodeValue_self (j : Json) {levels : Nat} (hkept : j.all isKept = true)
    (hdepth : j.depth ≤ levels) : decodeValue levels j = some j := by
  cases j with
  | arr items =>
    cases levels with
    | zero => exact absurd hdepth (Nat.not_succ_le_zero _)
    | succ levels =>
      have hitems := decodeItems_self items ((all_arr_iff rfl).1 hkept)
        (depthItems_le_iff.1 (Nat.le_of_succ_le_succ hdepth))
      rw [decodeValue, hitems]
      rfl
  | obj members =>
    cases levels with
    | zero => exact absurd hdepth (Nat.not_succ_le_zero _)
    | succ levels =>
      obtain ⟨hordered, hmembers⟩ := kept_obj_iff.1 hkept
      have hfiled := decodeMembers_self members .empty hmembers
        (depthMembers_le_iff.1 (Nat.le_of_succ_le_succ hdepth))
      rw [decodeValue, hfiled, Option.map_some, Register.entries_insertAll _ hordered]
      rfl
  | unreadable => exact absurd hkept (by simp [all, isKept])
  | _ => rw [decodeValue]

/-- Kept values in a list are decoded to themselves. -/
theorem decodeItems_self (items : List Json) {levels : Nat}
    (hkept : ∀ j ∈ items, j.all isKept = true) (hdepth : ∀ j ∈ items, j.depth ≤ levels) :
    decodeItems levels items = some items := by
  match items with
  | [] => rfl
  | j :: items =>
    obtain ⟨hj, hitems⟩ := List.forall_mem_cons.1 hkept
    obtain ⟨hdj, hditems⟩ := List.forall_mem_cons.1 hdepth
    rw [decodeItems, decodeValue_self j hj hdj, decodeItems_self items hitems hditems]
    rfl

/-- Kept values in an object are decoded to themselves and filed under their names. -/
theorem decodeMembers_self (members : List (String × Json)) {levels : Nat} (filed : Register Json)
    (hkept : ∀ m ∈ members, m.2.all isKept = true) (hdepth : ∀ m ∈ members, m.2.depth ≤ levels) :
    decodeMembers levels members filed = some (filed.insertAll members) := by
  match members with
  | [] => rfl
  | (k, j) :: members =>
    obtain ⟨hj, hmembers⟩ := List.forall_mem_cons.1 hkept
    obtain ⟨hdj, hdmembers⟩ := List.forall_mem_cons.1 hdepth
    rw [decodeMembers, decodeValue_self j hj hdj]
    exact decodeMembers_self members (filed.insert k j) hmembers hdmembers
end

/-- Whether a value is a kept one and nests no deeper than a number of levels. -/
def KeptWithin (levels : Nat) (j : Json) : Prop := j.all isKept = true ∧ j.depth ≤ levels

/-- What is inserted into a register of kept values leaves it one. -/
theorem keptWithin_insert {r : Register Json} {k : String} {v : Json}
    (hr : ∀ e ∈ r.entries, KeptWithin levels e.2) (hv : KeptWithin levels v) :
    ∀ e ∈ (r.insert k v).entries, KeptWithin levels e.2 := by
  intro e he
  rcases Entries.mem_put he with rfl | he
  · exact hv
  · exact hr e he

mutual
/-- **What is kept of a document is a kept value** that nests no deeper than was allowed, if the numbers
of the document fit. -/
theorem kept_of_decodeValue (j : Json) {levels : Nat} {v : Json} (hsized : j.all isSized = true)
    (h : decodeValue levels j = some v) : KeptWithin levels v := by
  cases j with
  | arr items =>
    cases levels with
    | zero => exact absurd h (by simp [decodeValue])
    | succ levels =>
      rw [decodeValue] at h
      obtain ⟨vs, hvs, rfl⟩ := Option.map_eq_some_iff.1 h
      have hkept := kept_of_decodeItems items ((all_arr_iff rfl).1 hsized) hvs
      refine ⟨(all_arr_iff rfl).2 fun v hv => (hkept v hv).1, Nat.succ_le_succ ?_⟩
      exact depthItems_le_iff.2 fun v hv => (hkept v hv).2
  | obj members =>
    cases levels with
    | zero => exact absurd h (by simp [decodeValue])
    | succ levels =>
      rw [decodeValue] at h
      obtain ⟨r, hr, rfl⟩ := Option.map_eq_some_iff.1 h
      have hkept :=
        kept_of_decodeMembers members (all_obj_iff.1 hsized).2 (by simp [Register.empty]) hr
      refine ⟨kept_obj_iff.2 ⟨r.ordered, fun e he => (hkept e he).1⟩, Nat.succ_le_succ ?_⟩
      exact depthMembers_le_iff.2 fun e he => (hkept e he).2
  | unreadable => exact absurd h (by simp [decodeValue])
  | int n =>
    rw [decodeValue] at h
    obtain rfl := Option.some.inj h
    exact ⟨hsized, Nat.zero_le _⟩
  | _ =>
    rw [decodeValue] at h
    obtain rfl := Option.some.inj h
    exact ⟨rfl, Nat.zero_le _⟩

/-- What is decoded from a list is kept, and as deep as was read. -/
theorem kept_of_decodeItems (items : List Json) {levels : Nat} {vs : List Json}
    (hsized : ∀ j ∈ items, j.all isSized = true) (h : decodeItems levels items = some vs) :
    ∀ v ∈ vs, KeptWithin levels v := by
  match items with
  | [] =>
    obtain rfl := Option.some.inj h
    simp
  | j :: items =>
    obtain ⟨hj, hitems⟩ := List.forall_mem_cons.1 hsized
    rw [decodeItems] at h
    obtain ⟨v, hv, h⟩ := Option.bind_eq_some_iff.1 h
    obtain ⟨rest, hrest, h⟩ := Option.bind_eq_some_iff.1 h
    obtain rfl := Option.some.inj h
    exact List.forall_mem_cons.2 ⟨kept_of_decodeValue j hj hv, kept_of_decodeItems items hitems hrest⟩

/-- What is decoded from an object is kept, and as deep as was read. -/
theorem kept_of_decodeMembers (members : List (String × Json)) {levels : Nat}
    {filed r : Register Json} (hsized : ∀ m ∈ members, m.2.all isSized = true)
    (hfiled : ∀ e ∈ filed.entries, KeptWithin levels e.2)
    (h : decodeMembers levels members filed = some r) :
    ∀ e ∈ r.entries, KeptWithin levels e.2 := by
  match members with
  | [] =>
    obtain rfl := Option.some.inj h
    exact hfiled
  | (k, j) :: members =>
    obtain ⟨hj, hmembers⟩ := List.forall_mem_cons.1 hsized
    rw [decodeMembers] at h
    obtain ⟨v, hv, h⟩ := Option.bind_eq_some_iff.1 h
    have hkept := keptWithin_insert hfiled (kept_of_decodeValue j hj hv) (k := k)
    exact kept_of_decodeMembers members hmembers hkept h
end

end Json

end Clearance
