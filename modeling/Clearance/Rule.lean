import Clearance.Request

/-!
# Rules

A rule allows or denies an action by three patterns, with a priority, perhaps a domain, and
perhaps a condition on the context. The condition is the caller's own predicate and opaque: two
conditions are the same only if they are the same object, which a `tag` given at creation stands
for.
-/

namespace Clearance

/-- What a rule says, and what a decision says. -/
inductive Effect where
  | allow
  | deny
  deriving DecidableEq, Repr

namespace Effect

def name : Effect → String
  | allow => "allow"
  | deny => "deny"

def isAllow : Effect → Bool
  | allow => true
  | deny => false

/-- The effects by name. -/
def names : List (String × Effect) := [("allow", allow), ("deny", deny)]

/-- Why a text names no effect. -/
structure Unknown where
  text : String

def Unknown.message (e : Unknown) : String := "Invalid policy effect: " ++ e.text

/-- The effect that a text names in any mixture of cases. Only ASCII letters have their lower case
in either name, so lowering those decides it. -/
def ofText (text : String) : Except Unknown Effect :=
  match Entries.get? names (text.map Char.toLower) with
  | some e => .ok e
  | none => .error ⟨text⟩

end Effect

/-- How a rule ranks; a higher number goes first. -/
abbrev Priority := Int

namespace Priority

/-- The priority of a rule that names none. -/
def default : Priority := 1

/-- The bounds of a priority: 32 bits with a sign. -/
def least : Priority := -Nat.pow 2 31
def greatest : Priority := Nat.pow 2 31 - 1

end Priority

/-- The caller's predicate on contexts, and which one it is. -/
structure Condition where
  tag : Nat
  holds : Context → Bool

/-- One statement of a policy. A missing resource pattern stands for any resource and for none. -/
structure Rule where
  subject : String
  resource : Option String
  action : String
  effect : Effect
  priority : Priority := .default
  domain : Option Domain := none
  condition : Option Condition := none

/-- What a rule is about, whatever it says: rules of one signature speak of the same requests. -/
structure Signature where
  subject : String
  resource : Option String
  action : String
  deriving DecidableEq, Repr

/-- The three patterns in a row, `<any>` for a missing resource. -/
def Signature.text (s : Signature) : String :=
  s.subject ++ " " ++ s.resource.getD "<any>" ++ " " ++ s.action

namespace Rule

/-- A rule on one resource pattern. -/
def on (subject resource action : String) (effect : Effect) : Rule :=
  { subject, resource := some resource, action, effect }

def allow (subject resource action : String) : Rule := on subject resource action .allow

def deny (subject resource action : String) : Rule := on subject resource action .deny

/-- A rule on every resource. -/
def onAny (subject action : String) (effect : Effect) : Rule :=
  { subject, resource := none, action, effect }

def withPriority (r : Rule) (p : Priority) : Rule := { r with priority := p }

def withDomain (r : Rule) (d : Domain) : Rule := { r with domain := some d }

def withCondition (r : Rule) (c : Condition) : Rule := { r with condition := some c }

/-- The rule as it is kept and compiled: without its condition. -/
def unconditional (r : Rule) : Rule := { r with condition := none }

def isConditional (r : Rule) : Bool := r.condition.isSome

/-- Whether the condition, if there is one, holds. -/
def conditionHolds (r : Rule) (context : Context) : Bool :=
  r.condition.all (·.holds context)

/-- Whether the rule applies in the domain that the context names. A rule without a domain
applies everywhere. -/
def appliesIn (r : Rule) (context : Context) : Bool :=
  r.domain.all fun d => context.domain? == some d.id

def signature (r : Rule) : Signature := ⟨r.subject, r.resource, r.action⟩

/-- Attributes are the same if their values are. -/
def sameAttributes (a b : Attributes) : Bool :=
  Json.agreeMembers Binary64.same a.entries b.entries

def sameDomain : Option Domain → Option Domain → Bool
  | none, none => true
  | some a, some b => a.id == b.id && sameAttributes a.attributes b.attributes
  | _, _ => false

/-- Whether two rules are equal; a condition equals only itself. -/
def same (a b : Rule) : Bool :=
  a.signature == b.signature && a.effect == b.effect && a.priority == b.priority &&
    sameDomain a.domain b.domain && a.condition.map (·.tag) == b.condition.map (·.tag)

end Rule

end Clearance
