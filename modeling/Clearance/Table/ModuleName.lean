/-!
# Module names

A printed table stands in a Rust module of its own. Its name is made from the one that is wanted,
with an underscore for every character that a name cannot hold. A wish that leaves nothing falls
back to another name, a digit cannot come first, and keywords are set apart.
-/

namespace Clearance.Table

/-- Keywords that can be used as names when marked as raw. -/
def rawKeywords : List String :=
  ["abstract", "as", "async", "await", "become", "box", "break", "const", "continue", "do", "dyn",
   "else", "enum", "extern", "false", "final", "fn", "for", "gen", "if", "impl", "in", "let",
   "loop", "macro", "match", "mod", "move", "mut", "override", "priv", "pub", "ref", "return",
   "static", "struct", "trait", "true", "try", "type", "typeof", "unsafe", "unsized", "use",
   "virtual", "where", "while", "yield"]

/-- Keywords of paths, which cannot be used as names at all. -/
def pathKeywords : List String := ["crate", "self", "super", "Self"]

/-- Whether a name can hold a character. -/
def isNameChar (c : Char) : Bool := c.isAlphanum || c == '_'

/-- The name with an underscore for every character that it cannot hold. -/
def sanitize (wanted : String) : String := wanted.map fun c => if isNameChar c then c else '_'

/-- An underscore in front of a leading digit. -/
def guardDigit (name : String) : String :=
  if (name.toList.head?.any Char.isDigit) then "_" ++ name else name

/-- A keyword made usable, and any other name as it is. -/
def guardKeyword (name : String) : String :=
  if pathKeywords.contains name then name ++ "_"
  else if rawKeywords.contains name then "r#" ++ name
  else name

/-- The name of the module for a table. -/
def moduleName (wanted fallback : String) : String :=
  let name := sanitize wanted
  guardKeyword (guardDigit (if name = "" ∨ name = "_" then fallback else name))

end Clearance.Table
