import Clearance.Settings.Codec
import Clearance.Settings.Placeholder
import Clearance.Toml.Reader

/-!
# Loading settings

Settings are a TOML document with placeholders. Placeholders are replaced first, then the
document is read, then it is checked.
-/

namespace Clearance

open Json (Convention)

/-- In TOML a value without content is an empty table or an empty list, and a record given as a
list may have items to spare. -/
def Toml.convention : Convention :=
  { isUnit := fun j => j = .obj [] ∨ j = .arr []
    extraItems := true }

/-- The settings that a text stands for. -/
def Settings.load (vars : Placeholder.Variables) (text : String) : Except SettingsError Settings := do
  let expanded ← Placeholder.expand vars text
  match (Toml.read expanded).bind (decode Toml.convention Json.maxLevels) with
  | none => throw .unreadable
  | some s =>
    s.check
    return s

end Clearance
