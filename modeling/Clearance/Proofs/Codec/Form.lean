import Clearance.Codec.Policy
import Clearance.Proofs.Json.Kept
import Clearance.Proofs.Json.RoundTrip

/-!
# Forms that settle

A form says how values of a type are written as JSON and what is accepted for one. `Form.Lawful` are
the laws that the parts of a value hand on to the whole: what is written is sound, it is accepted for
what is kept of the value, and whatever is accepted is as it will be kept and is written no deeper than
it was read. Lists are lawful if their items are (`Form.Lawful.list`), and records if their fields are
(`Fields.cons_lawful`, `Fields.Lawful.form_lawful`).

`Form.RoundTrips` is what comes of the laws for the text of a value (`Form.Lawful.roundTrips`). It is
stated for values that are written without fractions: what a fraction reads as is a matter of rounding.
-/

namespace Clearance

open Json

/-! ## Sound values -/

namespace Json

/-- Whether a number fits, if it is a whole one. What stands for no value is not sound. -/
def isSound : Json → Bool
  | .int n => fits n
  | .unreadable => false
  | _ => true

/-- Whether a value is no fraction. -/
def isWhole : Json → Bool
  | .float _ => false
  | _ => true

/-- What is kept of a value that was read can be written. -/
theorem sound_of_kept {j : Json} (h : j.all isKept = true) : j.all isSound = true := by
  refine all_mono (fun j hj => ?_) h
  cases j with
  | int n => exact hj
  | unreadable => exact hj
  | _ => rfl

/-- A sound value without fractions is one whose text says exactly what it is. -/
theorem exact_of_sound {j : Json} (h : j.all isSound = true) (hwhole : j.all isWhole = true) :
    j.all isExact = true := by
  refine all_of_both (fun j hj hj' => ?_) j h hwhole
  cases j with
  | int n => exact hj
  | unreadable => exact hj
  | float x => exact hj'
  | _ => rfl

end Json

/-- To go inside a value takes one level of nesting. -/
theorem Json.eq_succ_of_enter {levels inner : Nat} (h : enter levels = some inner) :
    levels = inner + 1 := by
  cases levels with
  | zero => exact absurd h (by simp [enter])
  | succ n => rw [Option.some.inj h]

/-! ## Forms -/

/-- How values of a type are written, and what is accepted for one. -/
structure Form (α : Type) where
  toJson : α → Json
  decode : Decoder α

namespace Form

variable {α : Type} {f : Form α} {P : α → Prop} {k : α → α} {levels : Nat}

/-- The text of a value. -/
def text (f : Form α) (a : α) : String := (f.toJson a).write

/-- The value that a text stands for. -/
def read (f : Form α) (text : String) : Option α := (Json.read text).bind (f.decode maxLevels)

/-- **What a form is for.** A value of the kind `P` is read back from its text as what is kept of it, if
it nests no deeper than the reader follows; and any value that is read, from whatever text, is read again
from its own. Both are said of values that are written without fractions. -/
structure RoundTrips (f : Form α) (P : α → Prop) (k : α → α) : Prop where
  reads_back : ∀ a, P a → (f.toJson a).all isWhole = true → (f.toJson a).depth ≤ maxLevels →
    f.read (f.text a) = some (k a)
  settles : ∀ text a, f.read text = some a → (f.toJson a).all isWhole = true →
    f.read (f.text a) = some a

/-- The laws of a form, for values of the kind `P` of which `k` is kept. A default may be written although
nothing was read for it; the `floor` is how many levels are enough for that. -/
structure Lawful (f : Form α) (floor : Nat) (P : α → Prop) (k : α → α) : Prop where
  ne_null : ∀ a, f.toJson a ≠ .null
  sound : ∀ a, P a → (f.toJson a).all isSound = true
  reads : ∀ a levels, P a → (f.toJson a).depth ≤ levels → f.decode levels (f.toJson a) = some (k a)
  settled : ∀ j a levels, floor ≤ levels → j.all isSized = true → f.decode levels j = some a →
    P a ∧ k a = a ∧ (f.toJson a).depth ≤ levels

variable {floor : Nat}

/-- What is written is read back as what is kept. -/
theorem Lawful.read_text (h : f.Lawful floor P k) {a : α} (ha : P a)
    (hwhole : (f.toJson a).all isWhole = true) (hdepth : (f.toJson a).depth ≤ maxLevels) :
    f.read (f.text a) = some (k a) := by
  unfold read text
  rw [read_write (exact_of_sound (h.sound a ha) hwhole)]
  exact h.reads a maxLevels ha hdepth

/-- **The text of a lawful form is read back, and settles.** -/
theorem Lawful.roundTrips (h : f.Lawful floor P k) (hfloor : floor ≤ maxLevels) :
    f.RoundTrips P k where
  reads_back _ ha hwhole hdepth := h.read_text ha hwhole hdepth
  settles text a hread hwhole := by
    obtain ⟨j, hj, hdecode⟩ := Option.bind_eq_some_iff.1 hread
    obtain ⟨ha, hkept, hdepth⟩ := h.settled j a maxLevels hfloor (sized_of_read hj) hdecode
    have hback := h.read_text ha hwhole hdepth
    rwa [hkept] at hback

/-- Only the values matter that a law speaks of, not how they are described. -/
theorem Lawful.congr (h : f.Lawful floor P k) {P' : α → Prop} {k' : α → α} (hP : ∀ a, P a ↔ P' a)
    (hk : ∀ a, k a = k' a) : f.Lawful floor P' k' := by
  obtain rfl := funext fun a => propext (hP a)
  obtain rfl := funext hk
  exact h

/-! ## Texts and lists -/

def ofText : Form String := ⟨.str, decodeText⟩

theorem ofText_lawful : ofText.Lawful floor (fun _ => True) (fun s => s) where
  ne_null _ := by simp [ofText]
  sound _ _ := rfl
  reads _ _ _ _ := rfl
  settled _ _ _ _ _ _ := ⟨trivial, rfl, Nat.zero_le _⟩

/-- The form of lists of a form. -/
def list (f : Form α) : Form (List α) := ⟨fun as => .arr (as.map f.toJson), decodeList f.decode⟩

/-- A list nests one level deeper than its items. -/
theorem depth_list_le_iff {as : List α} :
    (f.list.toJson as).depth ≤ levels + 1 ↔ ∀ a ∈ as, (f.toJson a).depth ≤ levels := by
  show depthItems (as.map f.toJson) + 1 ≤ levels + 1 ↔ _
  rw [Nat.add_le_add_iff_right, depthItems_le_iff, List.forall_mem_map]

/-- Lists of lawful items are lawful, one level deeper. -/
theorem Lawful.list (h : f.Lawful floor P k) :
    f.list.Lawful (floor + 1) (fun as => ∀ a ∈ as, P a) (List.map k) where
  ne_null _ := by simp [Form.list]
  sound as has := (all_arr_iff rfl).2 (List.forall_mem_map.2 fun a ha => h.sound a (has a ha))
  reads as levels has hdepth := by
    cases levels with
    | zero => exact absurd hdepth (Nat.not_succ_le_zero _)
    | succ levels =>
      have hdepths := depth_list_le_iff.1 hdepth
      exact mapM_map as fun a ha => h.reads a levels (has a ha) (hdepths a ha)
  settled j as levels hfloor hsized hread := by
    cases j with
    | arr items =>
      obtain ⟨inner, hlevels, hitems⟩ := Option.bind_eq_some_iff.1 hread
      obtain rfl := eq_succ_of_enter hlevels
      have hsettled : ∀ a ∈ as, P a ∧ k a = a ∧ (f.toJson a).depth ≤ inner := by
        intro a ha
        obtain ⟨item, hitem, hdecode⟩ := exists_of_mapM hitems a ha
        exact h.settled item a inner (Nat.le_of_succ_le_succ hfloor)
          ((all_arr_iff rfl).1 hsized item hitem) hdecode
      refine ⟨fun a ha => (hsettled a ha).1, ?_, depth_list_le_iff.2 fun a ha => (hsettled a ha).2.2⟩
      exact (List.map_congr_left fun a ha => (hsettled a ha).2.1).trans (List.map_id as)
    | _ => exact absurd hread (by simp [Form.list, decodeList])

end Form

/-! ## Fields -/

/-- What a record writes for one of its fields, if anything, and what it reads there. -/
structure Field (α : Type) where
  write : α → Option Json
  read : Nat → Option Json → Option α

namespace Field

variable {α : Type} {f : Form α} {P : α → Prop} {k : α → α} {floor : Nat}

/-- The laws of a form for a field. -/
structure Lawful (f : Field α) (floor : Nat) (P : α → Prop) (k : α → α) : Prop where
  sound : ∀ a, P a → ∀ j ∈ f.write a, j.all isSound = true
  reads : ∀ a levels, P a → (∀ j ∈ f.write a, j.depth ≤ levels) →
    f.read levels (f.write a) = some (k a)
  settled : ∀ given a levels, floor ≤ levels → (∀ j ∈ given, j.all isSized = true) →
    f.read levels given = some a → P a ∧ k a = a ∧ ∀ j ∈ f.write a, j.depth ≤ levels

/-- A field that must be given. -/
def required (f : Form α) : Field α := ⟨fun a => some (f.toJson a), Json.required f.decode⟩

/-- A field that must be there keeps the laws of its form. -/
theorem required_lawful (h : f.Lawful floor P k) : (required f).Lawful floor P k where
  sound a ha j hj := by
    obtain rfl := Option.some.inj hj
    exact h.sound a ha
  reads a levels ha hdepth := h.reads a levels ha (hdepth _ rfl)
  settled given a levels hfloor hsized hread := by
    obtain ⟨j, rfl, hdecode⟩ := Option.bind_eq_some_iff.1 hread
    obtain ⟨ha, hkept, hdepth⟩ := h.settled j a levels hfloor (hsized j rfl) hdecode
    refine ⟨ha, hkept, fun j hj => ?_⟩
    obtain rfl := Option.some.inj hj
    exact hdepth

/-- A field that is written if there is a value for it. -/
def optional (f : Form α) : Field (Option α) :=
  ⟨fun o => o.map f.toJson, withDefault none (decodeOption f.decode)⟩

/-- A field that may be left out, and is then not written, keeps the laws of its form. -/
theorem optional_lawful (h : f.Lawful floor P fun a => a) :
    (optional f).Lawful floor (fun o => ∀ a ∈ o, P a) fun o => o where
  sound o ho j hj := by
    obtain ⟨a, rfl, rfl⟩ := Option.map_eq_some_iff.1 hj
    exact h.sound a (ho a rfl)
  reads o levels ho hdepth := by
    cases o with
    | none => rfl
    | some a =>
      have hread := h.reads a levels (ho a rfl) (hdepth _ rfl)
      have hnull := h.ne_null a
      show decodeOption f.decode levels (f.toJson a) = some (some a)
      unfold decodeOption
      split
      next heq => exact absurd heq hnull
      next => rw [hread, Option.map_some]
  settled given o levels hfloor hsized hread := by
    have hsettled : ∀ a ∈ o, P a ∧ (f.toJson a).depth ≤ levels := by
      intro a ha
      obtain rfl := Option.mem_def.1 ha
      cases given with
      | none => exact absurd hread (by simp [optional, withDefault])
      | some j =>
        have hj : decodeOption f.decode levels j = some (some a) := hread
        unfold decodeOption at hj
        split at hj
        next => exact absurd hj (by simp)
        next =>
          obtain ⟨a', hdecode, heq⟩ := Option.map_eq_some_iff.1 hj
          obtain rfl := Option.some.inj heq
          obtain ⟨ha, -, hdepth⟩ := h.settled j a' levels hfloor (hsized j rfl) hdecode
          exact ⟨ha, hdepth⟩
    refine ⟨fun a ha => (hsettled a ha).1, rfl, fun j hj => ?_⟩
    obtain ⟨a, rfl, rfl⟩ := Option.map_eq_some_iff.1 hj
    exact (hsettled a rfl).2

/-- A field that is always written and may be left out for its default. -/
def defaulting (f : Form α) (default : α) : Field α :=
  ⟨fun a => some (f.toJson a), withDefault default f.decode⟩

/-- A field with a default keeps the laws of its form if the default is lawful itself. -/
theorem defaulting_lawful (h : f.Lawful floor P fun a => a) (default : α) (hdefault : P default)
    (hfloor : (f.toJson default).depth ≤ floor) :
    (defaulting f default).Lawful floor P fun a => a where
  sound := (required_lawful h).sound
  reads := (required_lawful h).reads
  settled given a levels hlevels hsized hread := by
    cases given with
    | none =>
      obtain rfl := Option.some.inj hread
      refine ⟨hdefault, rfl, fun j hj => ?_⟩
      obtain rfl := Option.some.inj hj
      exact Nat.le_trans hfloor hlevels
    | some j => exact (required_lawful h).settled (some j) a levels hlevels hsized hread

end Field

/-! ## Records -/

namespace Json

variable {fs : List (String × Option Json)} {levels : Nat}

/-- Whether whatever is given for a list of fields passes a test, field by field. -/
def EachGiven (p : Json → Prop) : List (Option Json) → Prop
  | [] => True
  | o :: os => (∀ j ∈ o, p j) ∧ EachGiven p os

/-- What is given of some fields has a property if each field that is there has it. -/
theorem eachGiven_iff {p : Json → Prop} {os : List (Option Json)} :
    EachGiven p os ↔ ∀ o ∈ os, ∀ j ∈ o, p j := by
  induction os with
  | nil => simp [EachGiven]
  | cons o os ih => rw [EachGiven, ih, List.forall_mem_cons]

/-- The members of a record for which there is a value. -/
def given (fs : List (String × Option Json)) : List (String × Json) :=
  fs.filterMap fun f => f.2.map (f.1, ·)

/-- The members of a record have a property if what is given of its fields has it. -/
theorem forall_given_iff {p : Json → Prop} :
    (∀ m ∈ given fs, p m.2) ↔ EachGiven p (fs.map (·.2)) := by
  rw [eachGiven_iff, List.forall_mem_map]
  constructor
  · intro h f hf j hj
    exact h (f.1, j) (List.mem_filterMap.2 ⟨f, hf, by rw [Option.mem_def.1 hj, Option.map_some]⟩)
  · intro h m hm
    obtain ⟨f, hf, hm⟩ := List.mem_filterMap.1 hm
    obtain ⟨j, hj, rfl⟩ := Option.map_eq_some_iff.1 hm
    exact h f hf j hj

/-- A record nests one level deeper than what is given of its fields. -/
theorem depth_given_le_iff :
    (obj (given fs)).depth ≤ levels + 1 ↔ EachGiven (·.depth ≤ levels) (fs.map (·.2)) := by
  show depthMembers (given fs) + 1 ≤ levels + 1 ↔ _
  rw [Nat.add_le_add_iff_right, depthMembers_le_iff]
  exact forall_given_iff (p := fun j => j.depth ≤ levels)

/-- A record is sound if what is given of its fields is. -/
theorem sound_given (h : EachGiven (·.all isSound = true) (fs.map (·.2))) :
    (obj (given fs)).all isSound = true :=
  all_obj_iff.2 ⟨rfl, forall_given_iff (p := fun j => j.all isSound = true) |>.2 h⟩

/-- To look for a name among what is written is to look for it among the fields. -/
theorem filter_given (name : String) :
    (given fs).filter (·.1 == name) = given (fs.filter (·.1 == name)) := by
  induction fs with
  | nil => rfl
  | cons f fs ih =>
    obtain ⟨k, o⟩ := f
    rw [List.filter_cons]
    cases o with
    | none =>
      have hgiven : given ((k, none) :: fs) = given fs := rfl
      rw [hgiven, ih]
      split <;> rfl
    | some j =>
      have hgiven : given ((k, some j) :: fs) = (k, j) :: given fs := rfl
      rw [hgiven, List.filter_cons, ih]
      dsimp only
      split <;> rfl

/-- Among distinct names each is found once. -/
theorem filter_name (hnames : (fs.map (·.1)).Nodup) {f : String × Option Json} (hf : f ∈ fs) :
    fs.filter (·.1 == f.1) = [f] := by
  induction fs with
  | nil => exact absurd hf List.not_mem_nil
  | cons x fs ih =>
    obtain ⟨hx, hrest⟩ := List.nodup_cons.1 hnames
    rw [List.filter_cons]
    rcases List.mem_cons.1 hf with rfl | hf
    · have hnone : fs.filter (·.1 == f.1) = [] := by
        refine List.filter_eq_nil_iff.2 fun y hy => ?_
        have hne : y.1 ≠ f.1 := fun heq => hx (List.mem_map.2 ⟨y, hy, heq⟩)
        simpa using hne
      rw [if_pos (beq_self_eq_true _), hnone]
    · have hne : x.1 ≠ f.1 := fun heq => hx (List.mem_map.2 ⟨f, hf, heq.symm⟩)
      rw [if_neg (by simpa using hne), ih hrest hf]

/-- Under each name there is what was put there, if names are distinct. -/
theorem member?_given (hnames : (fs.map (·.1)).Nodup) :
    ∀ f ∈ fs, member? f.1 (given fs) = some f.2 := by
  intro f hf
  unfold member?
  rw [filter_given, filter_name hnames hf]
  obtain ⟨name, o⟩ := f
  cases o <;> rfl

/-- **The members that are written are the fields that are read**, those that were left out included. -/
theorem fields?_given {shape : Shape} {conv : Convention} (hshape : shape.names = fs.map (·.1))
    (hstrict : shape.strict = false) (hnames : shape.names.Nodup) :
    shape.fields? conv (levels + 1) (.obj (given fs)) = some (levels, fs.map (·.2)) := by
  rw [hshape] at hnames
  have hfields : (fs.map (·.1)).mapM (member? · (given fs)) = some (fs.map (·.2)) :=
    mapM_map fs (member?_given hnames)
  show (if _ then none else
    (shape.names.mapM (member? · (given fs))).bind fun fields => some (levels, fields)) = _
  rw [hstrict, hshape, hfields]
  rfl

/-- Each field is found, if only as left out. -/
theorem length_of_fields? {shape : Shape} {conv : Convention} {j : Json} {inner : Nat}
    {found : List (Option Json)} (h : shape.fields? conv levels j = some (inner, found)) :
    found.length = shape.names.length := by
  cases j with
  | obj members =>
    obtain ⟨entered, -, h⟩ := Option.bind_eq_some_iff.1 h
    split at h
    next => exact absurd h (by simp)
    next =>
      obtain ⟨fields, hfields, h⟩ := Option.bind_eq_some_iff.1 h
      obtain ⟨-, rfl⟩ := Prod.mk.inj (Option.some.inj h)
      exact length_of_mapM hfields
  | arr items =>
    obtain ⟨entered, -, h⟩ := Option.bind_eq_some_iff.1 h
    split at h
    next => exact absurd h (by simp)
    next =>
      obtain ⟨-, rfl⟩ := Prod.mk.inj (Option.some.inj h)
      rw [List.length_map, List.length_range]
  | _ => exact absurd h (by simp [Shape.fields?])

/-- What is made of the fields of a record depends on lists of as many fields as there are names. -/
theorem bind_fields?_congr {σ : Type} {shape : Shape} {conv : Convention} {j : Json}
    {next next' : Nat × List (Option Json) → Option σ}
    (h : ∀ inner found, found.length = shape.names.length → next (inner, found) = next' (inner, found)) :
    (shape.fields? conv levels j).bind next = (shape.fields? conv levels j).bind next' := by
  cases hfound : shape.fields? conv levels j with
  | none => rfl
  | some r => exact h r.1 r.2 (length_of_fields? hfound)

/-- If the numbers in an object fit, so do those in what is found there. -/
theorem sized_of_member? {members : List (String × Json)} {name : String} {o : Option Json}
    (hsized : ∀ m ∈ members, m.2.all isSized = true) (h : member? name members = some o) :
    ∀ j ∈ o, j.all isSized = true := by
  unfold member? at h
  split at h
  next =>
    obtain rfl := Option.some.inj h
    simp
  next found j hone =>
    obtain rfl := Option.some.inj h
    intro v hv
    obtain rfl := Option.some.inj hv
    have hmem : (found, j) ∈ members.filter (·.1 == name) := hone ▸ List.mem_singleton_self _
    exact hsized _ (List.mem_filter.1 hmem).1
  next => exact absurd h (by simp)

/-- **To read a record is to enter a level**, and the numbers in its fields fit if those of the document
do, whether it is given as an object or as a list. -/
theorem sized_of_fields? {shape : Shape} {conv : Convention} {j : Json} {inner : Nat}
    {found : List (Option Json)} (hsized : j.all isSized = true)
    (h : shape.fields? conv levels j = some (inner, found)) :
    levels = inner + 1 ∧ EachGiven (·.all isSized = true) found := by
  rw [eachGiven_iff]
  cases j with
  | obj members =>
    obtain ⟨entered, hentered, h⟩ := Option.bind_eq_some_iff.1 h
    split at h
    next => exact absurd h (by simp)
    next =>
      obtain ⟨fields, hfields, h⟩ := Option.bind_eq_some_iff.1 h
      obtain ⟨rfl, rfl⟩ := Prod.mk.inj (Option.some.inj h)
      refine ⟨eq_succ_of_enter hentered, fun o ho => ?_⟩
      obtain ⟨name, -, hmember⟩ := exists_of_mapM hfields o ho
      exact sized_of_member? (all_obj_iff.1 hsized).2 hmember
  | arr items =>
    obtain ⟨entered, hentered, h⟩ := Option.bind_eq_some_iff.1 h
    split at h
    next => exact absurd h (by simp)
    next =>
      obtain ⟨rfl, rfl⟩ := Prod.mk.inj (Option.some.inj h)
      refine ⟨eq_succ_of_enter hentered, fun o ho v hv => ?_⟩
      obtain ⟨i, -, rfl⟩ := List.mem_map.1 ho
      exact (all_arr_iff rfl).1 hsized v (List.mem_of_getElem? hv)
  | _ => exact absurd h (by simp [Shape.fields?])

end Json

/-- The fields of a record in declared order: their names, what is written for each, and how values for
all of them are read. -/
structure Fields (α : Type) where
  names : List String
  write : α → List (Option Json)
  read : Nat → List (Option Json) → Option α

namespace Fields

variable {α β : Type} {f : Field α} {r : Fields β} {P : α → Prop} {Q : β → Prop} {k : α → α}
  {l : β → β} {floor : Nat}

/-- The laws of a form for the fields of a record. -/
structure Lawful (r : Fields β) (floor : Nat) (P : β → Prop) (k : β → β) : Prop where
  length : ∀ b, (r.write b).length = r.names.length
  sound : ∀ b, P b → EachGiven (·.all isSound = true) (r.write b)
  reads : ∀ b levels, P b → EachGiven (·.depth ≤ levels) (r.write b) →
    r.read levels (r.write b) = some (k b)
  settled : ∀ given b levels, floor ≤ levels → EachGiven (·.all isSized = true) given →
    r.read levels given = some b → P b ∧ k b = b ∧ EachGiven (·.depth ≤ levels) (r.write b)

def nil : Fields Unit where
  names := []
  write _ := []
  read
    | _, [] => some ()
    | _, _ :: _ => none

theorem nil_lawful : nil.Lawful floor (fun _ => True) fun u => u where
  length _ := rfl
  sound _ _ := trivial
  reads _ _ _ _ := rfl
  settled _ _ _ _ _ _ := ⟨trivial, rfl, trivial⟩

/-- One field more, in front. -/
def cons (name : String) (f : Field α) (r : Fields β) : Fields (α × β) where
  names := name :: r.names
  write p := f.write p.1 :: r.write p.2
  read
    | _, [] => none
    | levels, o :: os => (f.read levels o).bind fun a => (r.read levels os).map fun b => (a, b)

/-- To read all fields and put something together is to read the first one and go on. -/
theorem map_read_cons {σ : Type} {name : String} {levels : Nat} {o : Option Json}
    {os : List (Option Json)} {whole : α × β → σ} {next : α → Option σ}
    (h : ∀ a, ((r.read levels os).map fun b => whole (a, b)) = next a) :
    ((cons name f r).read levels (o :: os)).map whole = (f.read levels o).bind next := by
  obtain rfl := funext h
  show ((f.read levels o).bind _).map whole = _
  cases f.read levels o with
  | none => rfl
  | some a => exact Option.map_map whole _ _

/-- **A record is lawful if each of its fields is.** -/
theorem cons_lawful (name : String) (hf : f.Lawful floor P k) (hr : r.Lawful floor Q l) :
    (cons name f r).Lawful floor (fun p => P p.1 ∧ Q p.2) fun p => (k p.1, l p.2) where
  length p := congrArg (· + 1) (hr.length p.2)
  sound p hp := ⟨hf.sound p.1 hp.1, hr.sound p.2 hp.2⟩
  reads p levels hp hdepth := by
    have hfirst := hf.reads p.1 levels hp.1 hdepth.1
    have hrest := hr.reads p.2 levels hp.2 hdepth.2
    show (f.read levels (f.write p.1)).bind _ = _
    rw [hfirst, Option.bind_some, hrest, Option.map_some]
  settled given p levels hfloor hsized hread := by
    cases given with
    | nil => exact absurd hread (by simp [cons])
    | cons o os =>
      obtain ⟨a, ha, hread⟩ := Option.bind_eq_some_iff.1 hread
      obtain ⟨b, hb, rfl⟩ := Option.map_eq_some_iff.1 hread
      obtain ⟨hP, hk, hdepth⟩ := hf.settled o a levels hfloor hsized.1 ha
      obtain ⟨hQ, hl, hdepths⟩ := hr.settled os b levels hfloor hsized.2 hb
      exact ⟨⟨hP, hQ⟩, Prod.ext hk hl, hdepth, hdepths⟩

/-- **The form of a record is lawful if its fields are.** The values have the parts that the fields are
about, and the record is put together from them. -/
theorem Lawful.form_lawful (h : r.Lawful floor Q l) (form : Form α) {shape : Shape} {parts : α → β}
    {whole : β → α} (hnames : shape.names = r.names) (hstrict : shape.strict = false)
    (hnodup : shape.names.Nodup)
    (htoJson : ∀ a, form.toJson a = .obj (given (r.names.zip (r.write (parts a)))))
    (hdecode : ∀ levels j, form.decode levels j = (shape.fields? .json levels j).bind fun found =>
      (r.read found.1 found.2).map whole)
    (hparts : ∀ b, parts (whole b) = b) :
    form.Lawful (floor + 1) (fun a => Q (parts a)) fun a => whole (l (parts a)) where
  ne_null a := by simp [htoJson]
  sound a ha := by
    rw [htoJson]
    refine sound_given ?_
    rw [List.map_snd_zip (Nat.le_of_eq (h.length _))]
    exact h.sound (parts a) ha
  reads a levels ha hdepth := by
    have hvalues := List.map_snd_zip (Nat.le_of_eq (h.length (parts a)))
    have hfields := List.map_fst_zip (Nat.le_of_eq (h.length (parts a)).symm)
    rw [htoJson] at hdepth ⊢
    cases levels with
    | zero => exact absurd hdepth (Nat.not_succ_le_zero _)
    | succ inner =>
      rw [depth_given_le_iff, hvalues] at hdepth
      rw [hdecode, fields?_given (hnames.trans hfields.symm) hstrict hnodup, hvalues, Option.bind_some]
      dsimp only
      rw [h.reads (parts a) inner ha hdepth, Option.map_some]
  settled j a levels hfloor hsized hread := by
    rw [hdecode] at hread
    obtain ⟨⟨inner, found⟩, hfound, hread⟩ := Option.bind_eq_some_iff.1 hread
    obtain ⟨b, hb, rfl⟩ := Option.map_eq_some_iff.1 hread
    obtain ⟨rfl, hgiven⟩ := sized_of_fields? hsized hfound
    obtain ⟨hQ, hl, hdepth⟩ := h.settled found b inner (Nat.le_of_succ_le_succ hfloor) hgiven hb
    rw [htoJson, hparts, hl, depth_given_le_iff, List.map_snd_zip (Nat.le_of_eq (h.length b))]
    exact ⟨hQ, rfl, hdepth⟩

end Fields

end Clearance
