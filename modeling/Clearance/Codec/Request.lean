import Clearance.Json.Decode
import Clearance.Request

/-!
# JSON forms of requests

Subjects, resources, actions and domains as JSON: how each is written, and what is accepted for
it. A domain is written without attributes if it has none.
-/

namespace Clearance

open Json

def attributesJson (a : Attributes) : Json := .obj a.entries

namespace Subject

def toJson (s : Subject) : Json :=
  .obj [("id", .str s.id), ("attributes", attributesJson s.attributes)]

def shape : Shape := { names := ["id", "attributes"], strict := false }

def decode : Decoder Subject := fun levels j => do
  let (levels, fields) ← shape.fields? .json levels j
  match fields with
  | [id, attributes] =>
    some
      { id := ← required decodeText levels id
        attributes := ← withDefault .empty decodeRegister levels attributes }
  | _ => none

end Subject

namespace Resource

def toJson (r : Resource) : Json :=
  .obj [("id", .str r.id), ("type", .str r.type), ("attributes", attributesJson r.attributes)]

def shape : Shape := { names := ["id", "type", "attributes"], strict := false }

def decode : Decoder Resource := fun levels j => do
  let (levels, fields) ← shape.fields? .json levels j
  match fields with
  | [id, type, attributes] =>
    some
      { id := ← required decodeText levels id
        type := ← required decodeText levels type
        attributes := ← withDefault .empty decodeRegister levels attributes }
  | _ => none

end Resource

namespace Action

def toJson (a : Action) : Json := .obj [("name", .str a.name)]

def shape : Shape := { names := ["name"], strict := false }

def decode : Decoder Action := fun levels j => do
  let (levels, fields) ← shape.fields? .json levels j
  match fields with
  | [name] => some { name := ← required decodeText levels name }
  | _ => none

end Action

namespace Domain

def toJson (d : Domain) : Json :=
  .obj (("id", .str d.id) ::
    if d.attributes.isEmpty then [] else [("attributes", attributesJson d.attributes)])

def shape : Shape := { names := ["id", "attributes"], strict := false }

def decode : Decoder Domain := fun levels j => do
  let (levels, fields) ← shape.fields? .json levels j
  match fields with
  | [id, attributes] =>
    some
      { id := ← required decodeText levels id
        attributes := ← withDefault .empty decodeRegister levels attributes }
  | _ => none

end Domain

end Clearance
