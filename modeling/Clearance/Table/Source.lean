import Clearance.Table.Digest
import Clearance.Table.ModuleName
import Clearance.Text.Quoted

/-!
# Tables as source text

A table is printed as a Rust module that needs nothing else: a function that returns at the
first entry that fits. Equal tables have the same text. The glob scan is part of the module only
if an entry calls it.
-/

namespace Clearance

/-- A test on the argument of the given name, unless it always holds. -/
def Guard.clause? (argument : String) (g : Guard) (shown : Char → Bool := Text.isShown) :
    Option String :=
  match g with
  | any => none
  | exact value => some (argument ++ " == " ++ Text.quote value shown)
  | glob pattern => some ("wildcard_match(" ++ Text.quote pattern shown ++ ", " ++ argument ++ ")")

/-- The tests of an entry, joined; `true` if there are none. -/
def Entry.sourceCondition (e : Entry) (shown : Char → Bool := Text.isShown) : String :=
  let clauses := [e.subject.clause? "subject" shown, e.resource.clause? "resource" shown,
    e.action.clause? "action" shown].filterMap id
  if clauses.isEmpty then "true" else " && ".intercalate clauses

def Effect.sourceName : Effect → String
  | allow => "Allow"
  | deny => "Deny"

/-- The guarded return of an entry. -/
def Entry.sourceLines (e : Entry) (shown : Char → Bool := Text.isShown) : List String :=
  ["            // priority " ++ toString e.priority,
   "            if " ++ e.sourceCondition shown ++ " \x7b",
   "                return Effect::" ++ e.effect.sourceName ++ ";",
   "            \x7d"]

namespace Table

/-- The glob scan. -/
def scanLines : List String :=
  ["    fn wildcard_match(pattern: &str, value: &str) -> bool \x7b",
   "        let pattern: Vec<char> = pattern.chars().collect();",
   "        let value: Vec<char> = value.chars().collect();",
   "        let (mut p, mut v) = (0, 0);",
   "        let mut star: Option<(usize, usize)> = None;",
   "",
   "        while v < value.len() \x7b",
   "            if p < pattern.len() && pattern[p] == '*' \x7b",
   "                star = Some((p, v));",
   "                p += 1;",
   "            \x7d else if p < pattern.len() && (pattern[p] == '?' || pattern[p] == value[v]) \x7b",
   "                p += 1;",
   "                v += 1;",
   "            \x7d else if let Some((star_p, star_v)) = star \x7b",
   "                p = star_p + 1;",
   "                v = star_v + 1;",
   "                star = Some((star_p, star_v + 1));",
   "            \x7d else \x7b",
   "                return false;",
   "            \x7d",
   "        \x7d",
   "",
   "        pattern[p..].iter().all(|c| *c == '*')",
   "    \x7d"]

def needsScan (t : Table) : Bool := t.entries.any Entry.hasGlob

/-- Everything in front of the first entry. -/
def openingLines (t : Table) (module : String) : List String :=
  ["// Generated by castellan. Do not edit.",
   "// policy id: " ++ t.id ++ ", rules: " ++ toString t.size,
   "",
   "#[allow(non_camel_case_types, dead_code)]",
   "pub mod " ++ module ++ " \x7b",
   "    #[derive(Debug, Clone, Copy, PartialEq, Eq)]",
   "    pub enum Effect \x7b",
   "        Allow,",
   "        Deny,",
   "    \x7d",
   "",
   "    pub struct Policy_" ++ t.id ++ ";",
   "",
   "    impl Policy_" ++ t.id ++ " \x7b",
   "        pub const ID: &'static str = \"" ++ t.id ++ "\";",
   "",
   "        #[allow(unused_variables)]",
   "        pub fn evaluate(subject: &str, resource: &str, action: &str) -> Effect \x7b"]

/-- The body of the function: the entries, and a denial after them. -/
def bodyLines (t : Table) (shown : Char → Bool := Text.isShown) : List String :=
  t.entries.flatMap (·.sourceLines shown) ++ ["            Effect::Deny"]

def sourceLines (t : Table) (module : String) (shown : Char → Bool := Text.isShown) : List String :=
  t.openingLines module ++ t.bodyLines shown ++ ["        \x7d", "    \x7d"] ++
    (if t.needsScan then "" :: scanLines else []) ++ ["\x7d"]

/-- The text of the module; every line ends in a line feed. -/
def source (t : Table) (module : String) (shown : Char → Bool := Text.isShown) : String :=
  String.join ((t.sourceLines module shown).map (· ++ "\n"))

end Table

end Clearance
