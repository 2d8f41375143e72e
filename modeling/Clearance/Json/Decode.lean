import Clearance.Json.Basic
import Clearance.Register

/-!
# From JSON documents to typed values

A decoder looks at a document and says which value of a type it stands for, if any. Three rules
hold for every record:

* It is an object with its members in any order, or a list of its fields in the declared order,
  of which the last may be left out.
* A member of its own may not be repeated. Members that it does not know are passed over
  unseen, or refused if the record is strict.
* Each list or object that is entered uses up one of the `levels` of nesting that are left, so
  no document nests deeper than `maxLevels` where it is looked at.

A `Convention` holds the two points in which document formats differ.
-/

namespace Clearance.Json

/-- How deep a document may nest. -/
def maxLevels : Nat := 127

/-- A decoder takes the levels of nesting that are left. -/
abbrev Decoder (α : Type) := Nat → Json → Option α

/-- What a format leaves open: how a value without content is written, and whether a record
given as a list may have more items than the record has fields. -/
structure Convention where
  isUnit : Json → Bool
  extraItems : Bool

/-- JSON text: `null` is the value without content, and a list has no item too many. -/
def Convention.json : Convention := ⟨(· = .null), false⟩

/-! ## Simple values -/

def decodeText : Decoder String
  | _, .str s => some s
  | _, _ => none

def decodeBool : Decoder Bool
  | _, .bool b => some b
  | _, _ => none

/-- A whole number between two bounds, both included. -/
def decodeInt (lo hi : Int) : Decoder Int
  | _, .int n => if lo ≤ n ∧ n ≤ hi then some n else none
  | _, _ => none

/-- A whole number from zero to a bound. -/
def decodeNat (hi : Nat) : Decoder Nat := fun levels j => (decodeInt 0 hi levels j).map Int.toNat

/-- `null`, or a value. -/
def decodeOption {α : Type} (d : Decoder α) : Decoder (Option α)
  | _, .null => some none
  | levels, j => (d levels j).map some

/-- One level of nesting further down. -/
def enter : Nat → Option Nat
  | 0 => none
  | levels + 1 => some levels

def decodeList {α : Type} (d : Decoder α) : Decoder (List α)
  | levels, .arr items => do
    let levels ← enter levels
    items.mapM (d levels)
  | _, _ => none

/-! ## Any value, and registers of values -/

mutual
/-- The value itself, with members filed by name; of a repeated name the last one counts. -/
def decodeValue : Nat → Json → Option Json
  | _, .null => some .null
  | _, .bool b => some (.bool b)
  | _, .int n => some (.int n)
  | _, .float x => some (.float x)
  | _, .str s => some (.str s)
  | 0, .arr _ => none
  | levels + 1, .arr items => (decodeItems levels items).map .arr
  | 0, .obj _ => none
  | levels + 1, .obj members =>
    (decodeMembers levels members Register.empty).map fun r => .obj r.entries
  | _, .unreadable => none

def decodeItems : Nat → List Json → Option (List Json)
  | _, [] => some []
  | levels, j :: rest => do
    let v ← decodeValue levels j
    let vs ← decodeItems levels rest
    some (v :: vs)

def decodeMembers : Nat → List (String × Json) → Register Json → Option (Register Json)
  | _, [], filed => some filed
  | levels, (k, j) :: rest, filed => do
    let v ← decodeValue levels j
    decodeMembers levels rest (filed.insert k v)
end

/-- An object as a register of values. -/
def decodeRegister : Decoder (Register Json)
  | levels, .obj members => do
    let levels ← enter levels
    decodeMembers levels members Register.empty
  | _, _ => none

/-! ## Records and named alternatives -/

/-- The field names of a record in declared order. -/
structure Shape where
  names : List String
  /-- Whether members of other names are refused. -/
  strict : Bool

/-- What an object gives for one name: nothing, one value, or a refused repetition. -/
def member? (name : String) (members : List (String × Json)) : Option (Option Json) :=
  match members.filter (·.1 == name) with
  | [] => some none
  | [(_, j)] => some (some j)
  | _ => none

/-- The fields of a record as far as they are given, in declared order, with the levels of
nesting that are left for them. -/
def Shape.fields? (shape : Shape) (conv : Convention) (levels : Nat) :
    Json → Option (Nat × List (Option Json))
  | .obj members => do
    let levels ← enter levels
    if shape.strict && !members.all (fun m => shape.names.contains m.1) then none
    else
      let fields ← shape.names.mapM (member? · members)
      some (levels, fields)
  | .arr items => do
    let levels ← enter levels
    if items.length > shape.names.length && !conv.extraItems then none
    else some (levels, (List.range shape.names.length).map (items[·]?))
  | _ => none

/-- A field that must be given. -/
def required {α : Type} (d : Decoder α) (levels : Nat) (field : Option Json) : Option α :=
  field.bind (d levels)

/-- A field that may be left out. -/
def withDefault {α : Type} (default : α) (d : Decoder α) (levels : Nat) (field : Option Json) :
    Option α :=
  match field with
  | none => some default
  | some j => d levels j

/-- One of a set of named alternatives without content: its name, or an object whose only member
has that name. -/
def decodeVariant {α : Type} (conv : Convention) (names : List (String × α)) : Decoder α
  | _, .str s => Entries.get? names s
  | levels, .obj [(s, j)] => do
    let _ ← enter levels
    if conv.isUnit j then Entries.get? names s else none
  | _, _ => none

end Clearance.Json
