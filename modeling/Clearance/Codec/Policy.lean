import Clearance.Codec.Request
import Clearance.Combining
import Clearance.Matching

/-!
# JSON forms of rules and policies

A rule is written with its resource pattern, `null` if it has none, and with its domain if it has
one. The condition is not part of the form. A policy is written with those of its name and its
base that it has.
-/

namespace Clearance

open Json

/-- A text, or `null`. -/
def textOrNull : Option String → Json
  | none => .null
  | some s => .str s

/-- A member that is left out if there is no value for it. -/
def optionalMember (name : String) : Option Json → List (String × Json)
  | none => []
  | some j => [(name, j)]

def Effect.toJson (e : Effect) : Json := .str e.name

def Effect.decode : Decoder Effect := decodeVariant .json names

def Matching.decode (conv : Convention) : Decoder Matching := decodeVariant conv names

def Combining.decode (conv : Convention) : Decoder Combining := decodeVariant conv names

def Priority.toJson (p : Priority) : Json := .int p

def Priority.decode : Decoder Priority := decodeInt least greatest

namespace Rule

def toJson (r : Rule) : Json :=
  .obj ([("subject", .str r.subject), ("resource", textOrNull r.resource),
    ("action", .str r.action), ("effect", r.effect.toJson), ("priority", r.priority.toJson)] ++
      optionalMember "domain" (r.domain.map Domain.toJson))

def shape : Shape :=
  { names := ["subject", "resource", "action", "effect", "priority", "domain"], strict := false }

def decode : Decoder Rule := fun levels j => do
  let (levels, fields) ← shape.fields? .json levels j
  match fields with
  | [subject, resource, action, effect, priority, domain] =>
    some
      { subject := ← required decodeText levels subject
        resource := ← withDefault none (decodeOption decodeText) levels resource
        action := ← required decodeText levels action
        effect := ← required Effect.decode levels effect
        priority := ← withDefault .default Priority.decode levels priority
        domain := ← withDefault none (decodeOption Domain.decode) levels domain }
  | _ => none

end Rule

/-- The parts of a signature by name. -/
def Signature.toJson (s : Signature) : Json :=
  .obj [("subject", .str s.subject), ("resource", textOrNull s.resource), ("action", .str s.action)]

namespace Policy

def toJson (p : Policy) : Json :=
  .obj (("rules", .arr (p.rules.map Rule.toJson)) ::
    (optionalMember "name" (p.name.map .str) ++ optionalMember "extends" (p.base.map .str)))

def shape : Shape := { names := ["rules", "name", "extends"], strict := false }

def decode : Decoder Policy := fun levels j => do
  let (levels, fields) ← shape.fields? .json levels j
  match fields with
  | [rules, name, base] =>
    some
      { rules := ← required (decodeList Rule.decode) levels rules
        name := ← withDefault none (decodeOption decodeText) levels name
        base := ← withDefault none (decodeOption decodeText) levels base }
  | _ => none

end Policy

end Clearance
