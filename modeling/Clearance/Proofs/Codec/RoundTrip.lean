import Clearance.Codec.Delegation
import Clearance.Proofs.Codec.Form
import Clearance.Proofs.Time.Timestamp
import Clearance.Proofs.Uuid

/-!
# Rules, policies, requests and delegations are read back

For each record here is the list of its fields, each written and read in one of a few ways: a text, a
text or `null`, attributes with or without a default, a time, a list of texts, a record of another kind.
That the record is written and read by just these fields is `toJson_fields` and `decode_fields`, with one
step for each field; the laws of the record then come from those of the fields, and `forms_round_trip`
says what they come to.

What is asked of the values is what their types leave open: that kept values are kept values, priorities
have 32 bits, and times are ones that a timestamp can name.
-/

namespace Clearance

open Json
open Time (Instant)

/-! ## Parts of records -/

/-- Whether all values of a register are kept values. -/
def Attributes.AreKept (a : Attributes) : Prop := ∀ e ∈ a.entries, e.2.all isKept = true

instance (a : Attributes) : Decidable a.AreKept := inferInstanceAs (Decidable (∀ e ∈ _, _))

/-- Whether an instant is one that a timestamp can name: the calendar has its day, and if it lies in a leap
second, that is the last of its minute. -/
def Time.Instant.IsNameable (t : Instant) : Prop := t.IsRegular ∧ t.InCalendar

instance (t : Instant) : Decidable t.IsNameable := inferInstanceAs (Decidable (_ ∧ _))

/-- The years that are written with four digits are well within the calendar. -/
theorem Time.Instant.isNameable_of_year {t : Instant} (h : t.IsRegular) (hfirst : 0 ≤ t.date.year)
    (hlast : t.date.year ≤ 9999) : t.IsNameable :=
  ⟨h, Int.le_trans (by decide) hfirst, Int.le_trans hlast (by decide)⟩

/-- Whether a priority has 32 bits. -/
def Priority.InBounds (p : Priority) : Prop := Priority.least ≤ p ∧ p ≤ Priority.greatest

variable {floor : Nat}

namespace Form

def ofAttributes : Form Attributes := ⟨attributesJson, decodeRegister⟩

/-- Attributes are read back in their order, each name once, as long as their values are kept
values. -/
theorem ofAttributes_lawful : ofAttributes.Lawful floor Attributes.AreKept fun a => a where
  ne_null _ := by simp [ofAttributes, attributesJson]
  sound a ha := sound_of_kept (kept_obj_iff.2 ⟨a.ordered, ha⟩)
  reads a levels ha hdepth := by
    cases levels with
    | zero => exact absurd hdepth (Nat.not_succ_le_zero _)
    | succ levels =>
      have hdepths := depthMembers_le_iff.1 (Nat.le_of_succ_le_succ hdepth)
      show decodeMembers levels a.entries .empty = _
      rw [decodeMembers_self a.entries .empty ha hdepths]
      exact congrArg some (Register.ofList_entries a)
  settled j a levels _ hsized hread := by
    cases j with
    | obj members =>
      obtain ⟨inner, hlevels, hfiled⟩ := Option.bind_eq_some_iff.1 hread
      obtain rfl := eq_succ_of_enter hlevels
      have hkept :=
        kept_of_decodeMembers members (all_obj_iff.1 hsized).2 (by simp [Register.empty]) hfiled
      refine ⟨fun e he => (hkept e he).1, rfl, Nat.succ_le_succ ?_⟩
      exact depthMembers_le_iff.2 fun e he => (hkept e he).2
    | _ => exact absurd hread (by simp [ofAttributes, decodeRegister])

def ofEffect : Form Effect := ⟨Effect.toJson, Effect.decode⟩

theorem ofEffect_lawful : ofEffect.Lawful floor (fun _ => True) fun e => e where
  ne_null _ := by simp [ofEffect, Effect.toJson]
  sound _ _ := rfl
  reads e _ _ _ := by cases e <;> rfl
  settled _ _ _ _ _ _ := ⟨trivial, rfl, Nat.zero_le _⟩

def ofState : Form Delegation.State := ⟨Delegation.State.toJson, Delegation.State.decode⟩

theorem ofState_lawful : ofState.Lawful floor (fun _ => True) fun s => s where
  ne_null _ := by simp [ofState, Delegation.State.toJson]
  sound _ _ := rfl
  reads s _ _ _ := by cases s <;> rfl
  settled _ _ _ _ _ _ := ⟨trivial, rfl, Nat.zero_le _⟩

def ofBool : Form Bool := ⟨.bool, decodeBool⟩

theorem ofBool_lawful : ofBool.Lawful floor (fun _ => True) fun b => b where
  ne_null _ := by simp [ofBool]
  sound _ _ := rfl
  reads _ _ _ _ := rfl
  settled _ _ _ _ _ _ := ⟨trivial, rfl, Nat.zero_le _⟩

def ofPriority : Form Priority := ⟨Priority.toJson, Priority.decode⟩

/-- A priority is read back if it has 32 bits, and no other number is accepted for one. -/
theorem ofPriority_lawful : ofPriority.Lawful floor Priority.InBounds fun p => p where
  ne_null _ := by simp [ofPriority, Priority.toJson]
  sound p hp := by
    have hleast : -(Nat.pow 2 63 : Nat) ≤ Priority.least := by decide
    have hgreatest : Priority.greatest < (Nat.pow 2 64 : Nat) := by decide
    show fits p = true
    unfold fits
    rw [Bool.and_eq_true, decide_eq_true_iff, decide_eq_true_iff]
    exact ⟨Int.le_trans hleast hp.1, Int.lt_of_le_of_lt hp.2 hgreatest⟩
  reads p levels hp _ := if_pos hp
  settled j p levels _ _ hread := by
    cases j with
    | int n =>
      have hn : (if Priority.least ≤ n ∧ n ≤ Priority.greatest then some n else none) = some p := hread
      split at hn
      next h =>
        obtain rfl := Option.some.inj hn
        exact ⟨h, rfl, Nat.zero_le _⟩
      next => exact absurd hn (by simp)
    | _ => exact absurd hread (by simp [ofPriority, Priority.decode, decodeInt])

/-- Values that are written as texts by a writer and read by a reader. -/
def ofTextual {α : Type} (write : α → String) (read : String → Option α) : Form α :=
  ⟨fun a => .str (write a), fun levels j => (decodeText levels j).bind read⟩

/-- A textual form is lawful if its reader undoes its writer and reads nothing else. -/
theorem ofTextual_lawful {α : Type} {write : α → String} {read : String → Option α} {P : α → Prop}
    (hback : ∀ a, P a → read (write a) = some a) (hread : ∀ s a, read s = some a → P a) :
    (ofTextual write read).Lawful floor P fun a => a where
  ne_null _ := by simp [ofTextual]
  sound _ _ := rfl
  reads a _ ha _ := hback a ha
  settled _ a _ _ _ h := by
    obtain ⟨s, -, hs⟩ := Option.bind_eq_some_iff.1 h
    exact ⟨hread s a hs, rfl, Nat.zero_le _⟩

def ofUuid : Form Uuid := ofTextual Uuid.write Uuid.read

/-- Every id is written so that it can be read, and a text that is read as an id is one id only. -/
theorem ofUuid_lawful : ofUuid.Lawful floor (fun _ => True) fun u => u :=
  ofTextual_lawful (fun u _ => Uuid.read_write u) fun _ _ _ => trivial

def ofTime : Form Instant := ofTextual Time.Timestamp.write Time.Timestamp.read

/-- An instant is read back if a timestamp can name it, and only such instants are ever read. -/
theorem ofTime_lawful : ofTime.Lawful floor Instant.IsNameable fun t => t :=
  ofTextual_lawful (fun _ ht => Time.Timestamp.read_write_of_inCalendar ht.1 ht.2) fun _ _ h =>
    ⟨Time.Timestamp.read_isRegular h, Time.Timestamp.read_inCalendar h⟩

end Form

namespace Field

def text : Field String := required .ofText

theorem text_lawful : text.Lawful floor (fun _ => True) fun s => s := required_lawful Form.ofText_lawful

/-- A text that is written if there is one. -/
def textIfAny : Field (Option String) := optional .ofText

theorem textIfAny_lawful : textIfAny.Lawful floor (fun o => ∀ _ ∈ o, True) fun o => o :=
  optional_lawful Form.ofText_lawful

/-- A text, or `null` for none. -/
def nullableText : Field (Option String) :=
  ⟨fun o => some (textOrNull o), withDefault none (decodeOption decodeText)⟩

/-- A field that is always written, as null if it is empty, is read back as it was. -/
theorem nullableText_lawful : nullableText.Lawful floor (fun _ => True) fun o => o where
  sound o _ j hj := by
    obtain rfl := Option.some.inj hj
    cases o <;> rfl
  reads o _ _ _ := by cases o <;> rfl
  settled _ o levels _ _ _ := by
    refine ⟨trivial, rfl, fun j hj => ?_⟩
    obtain rfl := Option.some.inj hj
    cases o <;> exact Nat.zero_le levels

/-- Attributes that may be left out. -/
def attributes : Field Attributes := defaulting .ofAttributes .empty

/-- Attributes that must be there cost one level of nesting, for their default too. -/
theorem attributes_lawful (h : 1 ≤ floor) : attributes.Lawful floor Attributes.AreKept fun a => a :=
  defaulting_lawful Form.ofAttributes_lawful .empty (by simp [Attributes.AreKept, Register.empty]) h

/-- Attributes that are left out if there are none. -/
def attributesIfAny : Field Attributes :=
  ⟨fun a => if a.isEmpty then none else some (attributesJson a),
    withDefault .empty decodeRegister⟩

/-- What is written of attributes is all of them, or there are none. -/
theorem attributesIfAny_cases (a : Attributes) :
    attributesIfAny.write a = attributes.write a ∨ attributesIfAny.write a = none ∧ a = .empty := by
  obtain ⟨entries, ordered⟩ := a
  cases entries with
  | nil => exact .inr ⟨rfl, rfl⟩
  | cons e entries => exact .inl rfl

/-- Attributes that are left out if there are none are read as none when they are left out. -/
theorem attributesIfAny_lawful (h : 1 ≤ floor) :
    attributesIfAny.Lawful floor Attributes.AreKept fun a => a where
  sound a ha := by
    rcases attributesIfAny_cases a with hwrite | ⟨hwrite, -⟩
    · rw [hwrite]
      exact (attributes_lawful h).sound a ha
    · simp [hwrite]
  reads a levels ha hdepth := by
    rcases attributesIfAny_cases a with hwrite | ⟨hwrite, rfl⟩
    · rw [hwrite] at hdepth ⊢
      exact (attributes_lawful h).reads a levels ha hdepth
    · rw [hwrite]
      rfl
  settled given a levels hfloor hsized hread := by
    obtain ⟨ha, -, hdepth⟩ := (attributes_lawful h).settled given a levels hfloor hsized hread
    refine ⟨ha, rfl, ?_⟩
    rcases attributesIfAny_cases a with hwrite | ⟨hwrite, -⟩
    · rwa [hwrite]
    · simp [hwrite]

end Field

/-! ## Records -/

namespace Subject

def form : Form Subject := ⟨toJson, decode⟩

def fields : Fields (String × Attributes × Unit) :=
  .cons "id" .text <| .cons "attributes" .attributes .nil

/-- A subject is read field by field, from an object or from an array. -/
theorem decode_fields (levels : Nat) (j : Json) :
    decode levels j = (shape.fields? .json levels j).bind fun found =>
      (fields.read found.1 found.2).map fun parts => ⟨parts.1, parts.2.1⟩ := by
  refine bind_fields?_congr fun inner found hlength => ?_
  match found, hlength with
  | [id, attributes], _ =>
    symm
    exact Fields.map_read_cons fun _ => Fields.map_read_cons fun _ => rfl

/-- A subject is written field by field, without what is not given. -/
theorem toJson_fields (s : Subject) :
    s.toJson = .obj (given (fields.names.zip (fields.write (s.id, s.attributes, ())))) := rfl

/-- Subjects are read back if their attributes are kept values. -/
theorem form_lawful : form.Lawful 2 (fun s => s.attributes.AreKept) fun s => s := by
  have hfields := Fields.cons_lawful "id" Field.text_lawful <|
    Fields.cons_lawful "attributes" (Field.attributes_lawful (Nat.le_refl 1)) Fields.nil_lawful
  have hform := hfields.form_lawful form rfl rfl (by decide) toJson_fields decode_fields fun _ => rfl
  exact hform.congr (by simp) fun _ => rfl

end Subject

namespace Resource

def form : Form Resource := ⟨toJson, decode⟩

def fields : Fields (String × String × Attributes × Unit) :=
  .cons "id" .text <| .cons "type" .text <| .cons "attributes" .attributes .nil

/-- A resource is read field by field, from an object or from an array. -/
theorem decode_fields (levels : Nat) (j : Json) :
    decode levels j = (shape.fields? .json levels j).bind fun found =>
      (fields.read found.1 found.2).map fun parts => ⟨parts.1, parts.2.1, parts.2.2.1⟩ := by
  refine bind_fields?_congr fun inner found hlength => ?_
  match found, hlength with
  | [id, type, attributes], _ =>
    symm
    exact Fields.map_read_cons fun _ => Fields.map_read_cons fun _ =>
      Fields.map_read_cons fun _ => rfl

theorem toJson_fields (r : Resource) :
    r.toJson = .obj (given (fields.names.zip (fields.write (r.id, r.type, r.attributes, ())))) := rfl

/-- Resources are read back if their attributes are kept values. -/
theorem form_lawful : form.Lawful 2 (fun r => r.attributes.AreKept) fun r => r := by
  have hfields := Fields.cons_lawful "id" Field.text_lawful <|
    Fields.cons_lawful "type" Field.text_lawful <|
    Fields.cons_lawful "attributes" (Field.attributes_lawful (Nat.le_refl 1)) Fields.nil_lawful
  have hform := hfields.form_lawful form rfl rfl (by decide) toJson_fields decode_fields fun _ => rfl
  exact hform.congr (by simp) fun _ => rfl

end Resource

namespace Domain

def form : Form Domain := ⟨toJson, decode⟩

def fields : Fields (String × Attributes × Unit) :=
  .cons "id" .text <| .cons "attributes" .attributesIfAny .nil

/-- A domain is read field by field, from an object or from an array. -/
theorem decode_fields (levels : Nat) (j : Json) :
    decode levels j = (shape.fields? .json levels j).bind fun found =>
      (fields.read found.1 found.2).map fun parts => ⟨parts.1, parts.2.1⟩ := by
  refine bind_fields?_congr fun inner found hlength => ?_
  match found, hlength with
  | [id, attributes], _ =>
    symm
    exact Fields.map_read_cons fun _ => Fields.map_read_cons fun _ => rfl

/-- A domain is written field by field, and without attributes if it has none. -/
theorem toJson_fields (d : Domain) :
    d.toJson = .obj (given (fields.names.zip (fields.write (d.id, d.attributes, ())))) := by
  obtain ⟨id, entries, ordered⟩ := d
  cases entries <;> rfl

/-- Domains are read back if their attributes are kept values. -/
theorem form_lawful : form.Lawful 2 (fun d => d.attributes.AreKept) fun d => d := by
  have hfields := Fields.cons_lawful "id" Field.text_lawful <|
    Fields.cons_lawful "attributes" (Field.attributesIfAny_lawful (Nat.le_refl 1)) Fields.nil_lawful
  have hform := hfields.form_lawful form rfl rfl (by decide) toJson_fields decode_fields fun _ => rfl
  exact hform.congr (by simp) fun _ => rfl

end Domain

namespace Rule

def form : Form Rule := ⟨toJson, decode⟩

/-- Whether a rule is one that can be written: its priority has 32 bits, and the attributes of its
domain are kept values. -/
structure WellFormed (r : Rule) : Prop where
  priority : Priority.InBounds r.priority
  domain : ∀ d ∈ r.domain, d.attributes.AreKept

def fields : Fields (String × Option String × String × Effect × Priority × Option Domain × Unit) :=
  .cons "subject" .text <| .cons "resource" .nullableText <| .cons "action" .text <|
  .cons "effect" (.required .ofEffect) <| .cons "priority" (.defaulting .ofPriority .default) <|
  .cons "domain" (.optional Domain.form) .nil

/-- What a rule is made of, its condition apart. -/
def parts (r : Rule) : String × Option String × String × Effect × Priority × Option Domain × Unit :=
  (r.subject, r.resource, r.action, r.effect, r.priority, r.domain, ())

/-- A rule is read field by field; what it says of a condition is not read. -/
theorem decode_fields (levels : Nat) (j : Json) :
    decode levels j = (shape.fields? .json levels j).bind fun found =>
      (fields.read found.1 found.2).map fun (subject, resource, action, effect, priority, domain, _) =>
        { subject, resource, action, effect, priority, domain } := by
  refine bind_fields?_congr fun inner found hlength => ?_
  match found, hlength with
  | [subject, resource, action, effect, priority, domain], _ =>
    symm
    exact Fields.map_read_cons fun _ => Fields.map_read_cons fun _ =>
      Fields.map_read_cons fun _ => Fields.map_read_cons fun _ => Fields.map_read_cons fun _ =>
      Fields.map_read_cons fun _ => rfl

/-- A rule is written as its parts, without what is not given and without its condition. -/
theorem toJson_fields (r : Rule) :
    r.toJson = .obj (given (fields.names.zip (fields.write r.parts))) := by
  unfold toJson parts
  cases r.domain <;> rfl

/-- Rules are read back, but for their conditions, which have no text. -/
theorem form_lawful : form.Lawful 3 WellFormed unconditional := by
  have hfields := Fields.cons_lawful "subject" Field.text_lawful <|
    Fields.cons_lawful "resource" Field.nullableText_lawful <|
    Fields.cons_lawful "action" Field.text_lawful <|
    Fields.cons_lawful "effect" (Field.required_lawful Form.ofEffect_lawful) <|
    Fields.cons_lawful "priority" (Field.defaulting_lawful Form.ofPriority_lawful .default
      ⟨by decide, by decide⟩ (Nat.zero_le _)) <|
    Fields.cons_lawful "domain" (Field.optional_lawful Domain.form_lawful) Fields.nil_lawful
  have hform := hfields.form_lawful form rfl rfl (by decide) toJson_fields decode_fields fun _ => rfl
  refine hform.congr (fun r => ?_) fun _ => rfl
  constructor
  · rintro ⟨-, -, -, -, hpriority, hdomain, -⟩
    exact ⟨hpriority, hdomain⟩
  · rintro ⟨hpriority, hdomain⟩
    exact ⟨trivial, trivial, trivial, trivial, hpriority, hdomain, trivial⟩

end Rule

namespace Policy

def form : Form Policy := ⟨toJson, decode⟩

def fields : Fields (List Rule × Option String × Option String × Unit) :=
  .cons "rules" (.required (Form.list Rule.form)) <| .cons "name" .textIfAny <|
  .cons "extends" .textIfAny .nil

/-- A policy is read field by field, from an object or from an array. -/
theorem decode_fields (levels : Nat) (j : Json) :
    decode levels j = (shape.fields? .json levels j).bind fun found =>
      (fields.read found.1 found.2).map fun parts => ⟨parts.1, parts.2.1, parts.2.2.1⟩ := by
  refine bind_fields?_congr fun inner found hlength => ?_
  match found, hlength with
  | [rules, name, base], _ =>
    symm
    exact Fields.map_read_cons fun _ => Fields.map_read_cons fun _ =>
      Fields.map_read_cons fun _ => rfl

theorem toJson_fields (p : Policy) :
    p.toJson = .obj (given (fields.names.zip (fields.write (p.rules, p.name, p.base, ())))) := by
  obtain ⟨rules, name, base⟩ := p
  cases name <;> cases base <;> rfl

/-- Policies are read back if their rules are, without the conditions of these. -/
theorem form_lawful : form.Lawful 5 (fun p => ∀ r ∈ p.rules, r.WellFormed) unconditional := by
  have hfields := Fields.cons_lawful "rules" (Field.required_lawful Rule.form_lawful.list) <|
    Fields.cons_lawful "name" Field.textIfAny_lawful <|
    Fields.cons_lawful "extends" Field.textIfAny_lawful Fields.nil_lawful
  have hform := hfields.form_lawful form rfl rfl (by decide) toJson_fields decode_fields fun _ => rfl
  exact hform.congr (by simp) fun _ => rfl

end Policy

namespace Scope

def form : Form Scope := ⟨toJson, decode⟩

def fields : Fields (List String × List String × Option String × Unit) :=
  .cons "resources" (.required (Form.list .ofText)) <|
  .cons "actions" (.required (Form.list .ofText)) <| .cons "domain" .textIfAny .nil

/-- A scope is read field by field, from an object or from an array. -/
theorem decode_fields (levels : Nat) (j : Json) :
    decode levels j = (shape.fields? .json levels j).bind fun found =>
      (fields.read found.1 found.2).map fun parts => ⟨parts.1, parts.2.1, parts.2.2.1⟩ := by
  refine bind_fields?_congr fun inner found hlength => ?_
  match found, hlength with
  | [resources, actions, domain], _ =>
    symm
    exact Fields.map_read_cons fun _ => Fields.map_read_cons fun _ =>
      Fields.map_read_cons fun _ => rfl

theorem toJson_fields (s : Scope) :
    s.toJson =
      .obj (given (fields.names.zip (fields.write (s.resources, s.actions, s.domain, ())))) := by
  obtain ⟨resources, actions, domain⟩ := s
  cases domain <;> rfl

/-- Every scope is read back. -/
theorem form_lawful : form.Lawful 2 (fun _ => True) fun s => s := by
  have htexts := Field.required_lawful (@Form.ofText_lawful 0).list
  have hfields := Fields.cons_lawful "resources" htexts <| Fields.cons_lawful "actions" htexts <|
    Fields.cons_lawful "domain" Field.textIfAny_lawful Fields.nil_lawful
  have hform := hfields.form_lawful form rfl rfl (by decide) toJson_fields decode_fields fun _ => rfl
  refine hform.congr (by simp) fun s => ?_
  simp

end Scope

namespace Delegation

def form : Form Delegation := ⟨toJson, decode⟩

/-- Whether a delegation is one that can be written: its times can be named, and the values of its
metadata are kept values. -/
structure WellFormed (d : Delegation) : Prop where
  createdAt : d.createdAt.IsNameable
  expiresAt : ∀ t ∈ d.expiresAt, t.IsNameable
  revokedAt : ∀ t ∈ d.revokedAt, t.IsNameable
  metadata : d.metadata.AreKept

def fields : Fields (Uuid × String × String × Scope × Instant × Option Instant × Bool × State ×
    Option Instant × Attributes × Unit) :=
  .cons "id" (.required .ofUuid) <| .cons "delegator_id" .text <| .cons "delegate_id" .text <|
  .cons "scope" (.required Scope.form) <| .cons "created_at" (.required .ofTime) <|
  .cons "expires_at" (.optional .ofTime) <| .cons "is_transitive" (.required .ofBool) <|
  .cons "status" (.defaulting .ofState .active) <| .cons "revoked_at" (.optional .ofTime) <|
  .cons "metadata" .attributes .nil

/-- What a delegation is made of. -/
def parts (d : Delegation) : Uuid × String × String × Scope × Instant × Option Instant × Bool × State ×
    Option Instant × Attributes × Unit :=
  (d.id, d.delegator, d.delegate, d.scope, d.createdAt, d.expiresAt, d.transitive, d.status,
    d.revokedAt, d.metadata, ())

/-- A delegation is read field by field, with a default for whatever may be left out. -/
theorem decode_fields (levels : Nat) (j : Json) :
    decode levels j = (shape.fields? .json levels j).bind fun found =>
      (fields.read found.1 found.2).map
        fun (id, delegator, delegate, scope, createdAt, expiresAt, transitive, status, revokedAt,
          metadata, _) =>
        { id, delegator, delegate, scope, createdAt, expiresAt, transitive, status, revokedAt,
          metadata } := by
  refine bind_fields?_congr fun inner found hlength => ?_
  match found, hlength with
  | [id, delegator, delegate, scope, createdAt, expiresAt, transitive, status, revokedAt,
      metadata], _ =>
    symm
    exact Fields.map_read_cons fun _ => Fields.map_read_cons fun _ =>
      Fields.map_read_cons fun _ => Fields.map_read_cons fun _ => Fields.map_read_cons fun _ =>
      Fields.map_read_cons fun _ => Fields.map_read_cons fun _ => Fields.map_read_cons fun _ =>
      Fields.map_read_cons fun _ => Fields.map_read_cons fun _ => rfl

/-- A delegation is written as its parts, without what is not given. -/
theorem toJson_fields (d : Delegation) :
    d.toJson = .obj (given (fields.names.zip (fields.write d.parts))) := by
  unfold toJson parts
  cases d.expiresAt <;> cases d.revokedAt <;> rfl

/-- Delegations are read back if their times can be named and their metadata are kept values. -/
theorem form_lawful : form.Lawful 3 WellFormed fun d => d := by
  have hfields := Fields.cons_lawful "id" (Field.required_lawful Form.ofUuid_lawful) <|
    Fields.cons_lawful "delegator_id" Field.text_lawful <|
    Fields.cons_lawful "delegate_id" Field.text_lawful <|
    Fields.cons_lawful "scope" (Field.required_lawful Scope.form_lawful) <|
    Fields.cons_lawful "created_at" (Field.required_lawful Form.ofTime_lawful) <|
    Fields.cons_lawful "expires_at" (Field.optional_lawful Form.ofTime_lawful) <|
    Fields.cons_lawful "is_transitive" (Field.required_lawful Form.ofBool_lawful) <|
    Fields.cons_lawful "status"
      (Field.defaulting_lawful Form.ofState_lawful .active trivial (Nat.zero_le _)) <|
    Fields.cons_lawful "revoked_at" (Field.optional_lawful Form.ofTime_lawful) <|
    Fields.cons_lawful "metadata" (Field.attributes_lawful (Nat.le_succ 1)) Fields.nil_lawful
  have hform := hfields.form_lawful form rfl rfl (by decide) toJson_fields decode_fields fun _ => rfl
  refine hform.congr (fun d => ?_) fun _ => rfl
  constructor
  · rintro ⟨-, -, -, -, hcreated, hexpires, -, -, hrevoked, hmetadata, -⟩
    exact ⟨hcreated, hexpires, hrevoked, hmetadata⟩
  · rintro ⟨hcreated, hexpires, hrevoked, hmetadata⟩
    exact ⟨trivial, trivial, trivial, trivial, hcreated, hexpires, trivial, trivial, hrevoked,
      hmetadata, trivial⟩

/-- The text of a list of delegations is read as that list. -/
theorem readList_of_wellFormed {ds : List Delegation} (h : ∀ d ∈ ds, d.WellFormed)
    (hwhole : ∀ d ∈ ds, d.toJson.all isWhole = true) (hdepth : ∀ d ∈ ds, d.toJson.depth < maxLevels) :
    readList (writeList ds) = some ds := by
  have hback := form_lawful.list.read_text h
    ((all_arr_iff rfl).2 (List.forall_mem_map.2 hwhole))
    (Form.depth_list_le_iff.2 fun d hd => Nat.le_of_lt_succ (hdepth d hd))
  rwa [List.map_id'] at hback

end Delegation

/-! ## Round trips -/

/-- **Rules, policies, subjects, resources, domains, scopes and delegations are read back from their
text**, rules and those of policies without their conditions. And what is read from any text, in whatever
order its members stand, with others among them or as a list, is read again from its own. -/
theorem forms_round_trip :
    Rule.form.RoundTrips Rule.WellFormed Rule.unconditional ∧
      Policy.form.RoundTrips (fun p => ∀ r ∈ p.rules, r.WellFormed) Policy.unconditional ∧
      Subject.form.RoundTrips (fun s => s.attributes.AreKept) (fun s => s) ∧
      Resource.form.RoundTrips (fun r => r.attributes.AreKept) (fun r => r) ∧
      Domain.form.RoundTrips (fun d => d.attributes.AreKept) (fun d => d) ∧
      Scope.form.RoundTrips (fun _ => True) (fun s => s) ∧
      Delegation.form.RoundTrips Delegation.WellFormed (fun d => d) :=
  ⟨Rule.form_lawful.roundTrips (by decide), Policy.form_lawful.roundTrips (by decide),
    Subject.form_lawful.roundTrips (by decide), Resource.form_lawful.roundTrips (by decide),
    Domain.form_lawful.roundTrips (by decide), Scope.form_lawful.roundTrips (by decide),
    Delegation.form_lawful.roundTrips (by decide)⟩

/-- A delegation that ends in a leap second, with values nested in its metadata. -/
def Delegation.lease : Delegation where
  id := ⟨7⟩
  delegator := "alice"
  delegate := "bob"
  scope := { resources := ["doc:*"], actions := ["read"] }
  createdAt := ⟨1704164645, 100000000, by decide⟩
  expiresAt := some ⟨1483228799, 1500000000, by decide⟩
  transitive := true
  metadata := ⟨[("a", .obj [("b", .arr [.int (-3), .null])])], by decide⟩

/-- A subject that is given out of order, and with a member that subjects do not have. -/
def Subject.visitorText : String :=
  "\x7b\"age\": 1.5, \"attributes\": \x7b\"b\": [1], \"a\": null\x7d, \"id\": \"carol\"\x7d"

def Subject.visitor : Subject := ⟨"carol", ⟨[("a", .null), ("b", .arr [.int 1])], by decide⟩⟩

/-- A delegation and a subject with all there is to them come back from their texts. -/
theorem lease_and_visitor_round_trip :
    Delegation.form.read (Delegation.form.text .lease) = some .lease ∧
      Subject.form.read Subject.visitorText = some .visitor ∧
      Subject.form.read (Subject.form.text .visitor) = some .visitor := by
  have hread : Subject.form.read Subject.visitorText = some .visitor := by decide +kernel
  have hlease : Delegation.lease.WellFormed :=
    { createdAt := Instant.isNameable_of_year (.inl (by decide)) (by decide) (by decide)
      expiresAt := by decide
      revokedAt := by decide
      metadata := by decide }
  obtain ⟨-, -, hsubject, -, -, -, hdelegation⟩ := forms_round_trip
  exact ⟨hdelegation.reads_back _ hlease (by decide +kernel) (by decide +kernel), hread,
    hsubject.settles _ _ hread (by decide +kernel)⟩

end Clearance
