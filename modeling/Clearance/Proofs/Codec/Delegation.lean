import Clearance.Codec.Delegation
import Clearance.Proofs.Json.Echo
import Clearance.Proofs.Time.Timestamp
import Clearance.Proofs.Uuid

/-!
# What a cached list of delegations reads as

The text of a list of delegations holds whatever their parties have put into it: ids, patterns and
metadata of any kind, numbers among it that may be rounded. Still no row can be read from it that is
not the echo of one that was written, with its id and with the end that its text names
(`readList_echo`). So a cached list can bring nothing into being, and lengthen only what ends in a leap
second out of place.
-/

namespace Clearance

namespace Json

variable {members members' : List (String × Json)} {name : String} {j : Json}

/-- The members of one name are echoed by the members of that name. -/
theorem EchoesMembers.filter (h : EchoesMembers members members') (name : String) :
    EchoesMembers (members.filter (·.1 == name)) (members'.filter (·.1 == name)) := by
  induction members generalizing members' with
  | nil =>
    cases h
    exact .nil
  | cons m members ih =>
    cases h with
    | cons hj hrest =>
      rw [List.filter_cons, List.filter_cons]
      split
      next => exact .cons hj (ih hrest)
      next => exact ih hrest

/-- A text is echoed as it is; only numbers may change. -/
theorem Echoes.eq_str {s : String} (h : Echoes (.str s) j) : j = .str s := by
  cases h
  rfl

/-- A name that is written once is found once, with an echo of its value. -/
theorem member?_of_echoes (h : EchoesMembers members members')
    (hone : members.filter (·.1 == name) = [(name, j)]) :
    ∃ j', member? name members' = some (some j') ∧ Echoes j j' := by
  have hfilter := h.filter name
  rw [hone] at hfilter
  unfold member?
  generalize members'.filter (·.1 == name) = found at hfilter
  cases hfilter with
  | cons hj hrest =>
    cases hrest
    exact ⟨_, rfl, hj⟩

/-- A name that is not written is not found. -/
theorem member?_of_absent (h : EchoesMembers members members')
    (hnone : members.filter (·.1 == name) = []) : member? name members' = some none := by
  have hfilter := h.filter name
  rw [hnone] at hfilter
  unfold member?
  generalize members'.filter (·.1 == name) = found at hfilter
  cases hfilter
  rfl

end Json

open Json

namespace Delegation

variable {d d' : Delegation} {levels : Nat}

/-- Two of the fields that a row is read from. -/
theorem decode_obj {members : List (String × Json)} (h : decode levels (.obj members) = some d') :
    ∃ levels' id? end?, member? "id" members = some id? ∧
      required Uuid.decode levels' id? = some d'.id ∧
      member? "expires_at" members = some end? ∧
      withDefault none (decodeOption decodeTime) levels' end? = some d'.expiresAt := by
  unfold decode at h
  simp only [Option.bind_eq_bind, Option.bind_eq_some_iff, Shape.fields?, shape, Bool.false_and,
    Bool.false_eq_true, if_false, List.mapM_cons, List.mapM_nil, Option.pure_def,
    Option.some.injEq] at h
  obtain ⟨_, ⟨levels', -, _, ⟨id?, hid, _, ⟨_, -, _, ⟨_, -, _, ⟨_, -, _, ⟨_, -, _, ⟨end?, hend, _,
    ⟨_, -, _, ⟨_, -, _, ⟨_, -, _, ⟨_, -, _, rfl, rfl⟩, rfl⟩, rfl⟩, rfl⟩, rfl⟩, rfl⟩, rfl⟩, rfl⟩,
    rfl⟩, rfl⟩, rfl⟩, h⟩ := h
  simp only [Option.bind_eq_some_iff, Option.some.injEq] at h
  obtain ⟨id, hid', _, -, _, -, _, -, _, -, expiresAt, hend', _, -, _, -, _, -, _, -, rfl⟩ := h
  exact ⟨levels', id?, end?, hid, hid', hend, hend'⟩

/-- The members that a row is written with. -/
def members (d : Delegation) : List (String × Json) :=
  [("id", d.id.toJson), ("delegator_id", .str d.delegator), ("delegate_id", .str d.delegate),
    ("scope", d.scope.toJson), ("created_at", timeJson d.createdAt)] ++
  optionalMember "expires_at" (d.expiresAt.map timeJson) ++
  [("is_transitive", .bool d.transitive), ("status", d.status.toJson)] ++
  optionalMember "revoked_at" (d.revokedAt.map timeJson) ++ [("metadata", attributesJson d.metadata)]

theorem toJson_eq (d : Delegation) : d.toJson = .obj d.members := rfl

/-- A row is written with one id, its own. -/
theorem members_id (d : Delegation) :
    d.members.filter (·.1 == "id") = [("id", .str d.id.write)] := by
  unfold members
  cases d.expiresAt <;> cases d.revokedAt <;> simp [optionalMember, Uuid.toJson]

/-- A row is written with its end, once, if it has one. -/
theorem members_expiresAt (d : Delegation) :
    d.members.filter (·.1 == "expires_at") =
      optionalMember "expires_at" (d.expiresAt.map timeJson) := by
  unfold members
  cases d.expiresAt <;> cases d.revokedAt <;> simp [optionalMember]

theorem decodeId_str (s : String) : required Uuid.decode levels (some (.str s)) = Uuid.read s := rfl

theorem decodeEnd_str (s : String) :
    withDefault none (decodeOption decodeTime) levels (some (.str s)) =
      (Time.Timestamp.read s).map some := rfl

/-- **A row that is read has the id and the end of the row that was written**, as its text names it. -/
theorem decode_echo {j : Json} (h : Echoes d.toJson j) (hread : decode levels j = some d') :
    d'.id = d.id ∧ d'.expiresAt = d.expiresAt.map Time.Instant.written := by
  rw [toJson_eq] at h
  cases h with
  | obj h =>
    obtain ⟨levels', id?, end?, hid, hid', hexp, hexp'⟩ := decode_obj hread
    constructor
    · obtain ⟨j, hfound, hj⟩ := member?_of_echoes h (members_id d)
      obtain rfl := hj.eq_str
      obtain rfl := Option.some.inj (hfound.symm.trans hid)
      rw [decodeId_str, Uuid.read_write] at hid'
      exact (Option.some.inj hid').symm
    · have hmembers := members_expiresAt d
      cases hexpires : d.expiresAt with
      | none =>
        rw [hexpires] at hmembers
        have hfound := member?_of_absent h hmembers
        obtain rfl := Option.some.inj (hfound.symm.trans hexp)
        exact (Option.some.inj hexp').symm
      | some t =>
        rw [hexpires] at hmembers
        obtain ⟨j, hfound, hj⟩ := member?_of_echoes h hmembers
        obtain rfl := hj.eq_str
        obtain rfl := Option.some.inj (hfound.symm.trans hexp)
        rw [decodeEnd_str, Time.Timestamp.read_write_written] at hexp'
        split at hexp'
        next => exact (Option.some.inj hexp').symm
        next => exact absurd hexp' (by simp)

/-- One after another, the rows that are read are echoes of rows that were written. -/
theorem decodeItems_echo {ds ds' : List Delegation} {items : List Json}
    (h : EchoesItems (ds.map toJson) items) (hread : items.mapM (decode levels) = some ds') :
    ∀ d' ∈ ds', ∃ d ∈ ds, d'.id = d.id ∧ d'.expiresAt = d.expiresAt.map Time.Instant.written := by
  induction ds generalizing items ds' with
  | nil =>
    cases h
    obtain rfl := Option.some.inj hread
    simp
  | cons d ds ih =>
    cases h with
    | cons hj hrest =>
      rw [List.mapM_cons] at hread
      obtain ⟨first, hfirst, hread⟩ := Option.bind_eq_some_iff.1 hread
      obtain ⟨rest, hmore, hread⟩ := Option.bind_eq_some_iff.1 hread
      obtain rfl := Option.some.inj hread
      intro d' hd'
      rcases List.mem_cons.1 hd' with rfl | hd'
      · exact ⟨d, List.mem_cons_self .., decode_echo hj hfirst⟩
      · obtain ⟨row, hrow, hsame⟩ := ih hrest hmore d' hd'
        exact ⟨row, List.mem_cons_of_mem d hrow, hsame⟩

/-- **Nothing is read from the text of a list but echoes of its rows.** -/
theorem readList_echo {ds ds' : List Delegation} (h : readList (writeList ds) = some ds') :
    ∀ d' ∈ ds', ∃ d ∈ ds, d'.id = d.id ∧ d'.expiresAt = d.expiresAt.map Time.Instant.written := by
  unfold readList writeList at h
  obtain ⟨j, hread, hdecode⟩ := Option.bind_eq_some_iff.1 h
  have hecho := Echoes.of_read hread
  cases hecho with
  | arr hitems =>
    rw [decodeList] at hdecode
    obtain ⟨levels, -, hdecode⟩ := Option.bind_eq_some_iff.1 hdecode
    exact decodeItems_echo hitems hdecode

end Delegation

end Clearance
