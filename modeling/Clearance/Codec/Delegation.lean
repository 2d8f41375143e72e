import Clearance.Codec.Policy
import Clearance.Delegation.Basic
import Clearance.Json.Reader
import Clearance.Json.Writer

/-!
# JSON forms of delegations

Ids and times are texts. A delegation is written without an end if it has none, and without the
time of a revocation unless it has been revoked. `Delegation.writeList` and `Delegation.readList`
are the text that a cache keeps of what a delegate holds.
-/

namespace Clearance

open Json
open Time (Instant)

namespace Scope

def toJson (s : Scope) : Json :=
  .obj ([("resources", .arr (s.resources.map .str)), ("actions", .arr (s.actions.map .str))] ++
    optionalMember "domain" (s.domain.map .str))

def shape : Shape := { names := ["resources", "actions", "domain"], strict := false }

def decode : Decoder Scope := fun levels j => do
  let (levels, fields) ← shape.fields? .json levels j
  match fields with
  | [resources, actions, domain] =>
    some
      { resources := ← required (decodeList decodeText) levels resources
        actions := ← required (decodeList decodeText) levels actions
        domain := ← withDefault none (decodeOption decodeText) levels domain }
  | _ => none

end Scope

def timeJson (t : Instant) : Json := .str (Time.Timestamp.write t)

def decodeTime : Decoder Instant := fun levels j =>
  (decodeText levels j).bind Time.Timestamp.read

def Uuid.toJson (u : Uuid) : Json := .str u.write

def Uuid.decode : Decoder Uuid := fun levels j => (decodeText levels j).bind Uuid.read

namespace Delegation

def State.toJson (s : State) : Json := .str s.name

def State.decode : Decoder State := decodeVariant .json names

def toJson (d : Delegation) : Json :=
  .obj ([("id", d.id.toJson), ("delegator_id", .str d.delegator),
      ("delegate_id", .str d.delegate), ("scope", d.scope.toJson),
      ("created_at", timeJson d.createdAt)] ++
    optionalMember "expires_at" (d.expiresAt.map timeJson) ++
    [("is_transitive", .bool d.transitive), ("status", d.status.toJson)] ++
    optionalMember "revoked_at" (d.revokedAt.map timeJson) ++
    [("metadata", attributesJson d.metadata)])

def shape : Shape :=
  { names := ["id", "delegator_id", "delegate_id", "scope", "created_at", "expires_at",
      "is_transitive", "status", "revoked_at", "metadata"]
    strict := false }

def decode : Decoder Delegation := fun levels j => do
  let (levels, fields) ← shape.fields? .json levels j
  match fields with
  | [id, delegator, delegate, scope, createdAt, expiresAt, transitive, status, revokedAt,
      metadata] =>
    some
      { id := ← required Uuid.decode levels id
        delegator := ← required decodeText levels delegator
        delegate := ← required decodeText levels delegate
        scope := ← required Scope.decode levels scope
        createdAt := ← required decodeTime levels createdAt
        expiresAt := ← withDefault none (decodeOption decodeTime) levels expiresAt
        transitive := ← required decodeBool levels transitive
        status := ← withDefault .active State.decode levels status
        revokedAt := ← withDefault none (decodeOption decodeTime) levels revokedAt
        metadata := ← withDefault .empty decodeRegister levels metadata }
  | _ => none

/-- A list of delegations as text. -/
def writeList (ds : List Delegation) : String := (Json.arr (ds.map toJson)).write

/-- The list of delegations that a text stands for. -/
def readList (text : String) : Option (List Delegation) :=
  (Json.read text).bind (decodeList decode maxLevels)

end Delegation

end Clearance
