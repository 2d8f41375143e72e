import Clearance.Json.Writer
import Clearance.Sha256
import Clearance.Table

/-!
# The name of a table

Tables with the same entries share a name, whatever policy they come from. It is the front of the
SHA-256 digest of the entries in compact JSON, with the members in a fixed order.
-/

namespace Clearance

/-- The kind of a test, and its text if it has one. -/
def Guard.toJson : Guard → Json
  | any => .obj [("kind", .str "any")]
  | exact value => .obj [("kind", .str "exact"), ("value", .str value)]
  | glob pattern => .obj [("kind", .str "glob"), ("value", .str pattern)]

def Entry.toJson (e : Entry) : Json :=
  .obj [("subject", e.subject.toJson), ("resource", e.resource.toJson),
    ("action", e.action.toJson), ("effect", .str e.effect.name), ("priority", .int e.priority)]

namespace Table

/-- The text that a table is named after. -/
def canonicalText (t : Table) : String := (Json.arr (t.entries.map Entry.toJson)).write

/-- How many digits of the digest make the name. -/
def idLength : Nat := 16

def id (t : Table) : String :=
  String.ofList ((Sha256.hexDigest t.canonicalText.toUTF8.toList).take idLength)

end Table

end Clearance
