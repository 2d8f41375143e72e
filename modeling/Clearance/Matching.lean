import Clearance.Matching.Path
import Clearance.Policy

/-!
# Whether a rule applies

Five ways to compare a rule with a request. Each asks first whether the rule's domain is that of
the request, then whether the three patterns fit, and last the rule's condition. `Rule.probe` says
how far a rule got, so that it is on record whether the condition was asked and with which
context.
-/

namespace Clearance

/-- A way to compare rules with requests. -/
inductive Matching where
  /-- Patterns on the ids of subject and resource and on the name of the action. -/
  | acl
  /-- The subject pattern may also fit a role, the resource pattern the type of the resource. -/
  | rbac
  /-- As `acl`, and conditions see the attributes of subject and resource. -/
  | abac
  /-- The resource pattern is a path template, the action pattern a list of methods. -/
  | restful
  /-- As `acl`, over the rules in priority order. -/
  | priority
  deriving DecidableEq, Repr

namespace Matching

def name : Matching → String
  | acl => "acl"
  | rbac => "rbac"
  | abac => "abac"
  | restful => "restful"
  | priority => "priority"

/-- The ways by name. -/
def names : List (String × Matching) :=
  [("acl", acl), ("rbac", rbac), ("abac", abac), ("restful", restful), ("priority", priority)]

/-- Whether rules are tried in priority order. -/
def isPriorityOrdered (m : Matching) : Bool := m == priority

/-- A missing pattern fits any resource and none; a pattern fits no missing resource. -/
def resourceFits (fits : String → Resource → Bool) : Option String → Option Resource → Bool
  | none, _ => true
  | some _, none => false
  | some pattern, some resource => fits pattern resource

/-- Whether a pattern fits the subject's id or one of its roles. -/
def subjectOrRoleFits (pattern : String) (s : Subject) : Bool :=
  s.roles.any (Glob.accepts pattern) || Glob.accepts pattern s.id

/-- Whether the three patterns of a rule fit a request. -/
def patternsFit (m : Matching) (r : Rule) (q : Request) : Bool :=
  match m with
  | acl | abac | priority =>
    Glob.accepts r.subject q.subject.id &&
      resourceFits (fun p x => Glob.accepts p x.id) r.resource q.resource &&
      Glob.accepts r.action q.action.name
  | rbac =>
    subjectOrRoleFits r.subject q.subject &&
      resourceFits (fun p x => Glob.accepts p x.id || Glob.accepts p x.type) r.resource q.resource &&
      Glob.accepts r.action q.action.name
  | restful =>
    Glob.accepts r.subject q.subject.id &&
      resourceFits (fun p x => pathFits p x.id) r.resource q.resource &&
      methodFits r.action q.action.name

/-- Attributes under a common first part of their names. -/
def qualified (owner : String) (attributes : Attributes) : List (String × Json) :=
  attributes.entries.map fun (name, value) => (owner ++ "." ++ name, value)

/-- The caller's context with the attributes of subject and resource below it: what the caller
says wins over an attribute, an attribute over the id or type of the same name. -/
def attributeContext (q : Request) : Context :=
  let subject := ("subject.id", Json.str q.subject.id) :: qualified "subject" q.subject.attributes
  let resource := match q.resource with
    | none => []
    | some x =>
      ("resource.id", .str x.id) :: ("resource.type", .str x.type) ::
        qualified "resource" x.attributes
  Register.ofList (subject ++ resource ++ q.context.entries)

/-- The context that a condition is asked with. -/
def conditionContext (m : Matching) (q : Request) : Context :=
  match m with
  | abac => attributeContext q
  | _ => q.context

end Matching

/-- How far a rule got with a request. -/
inductive Probe where
  /-- The rule is confined to another domain. -/
  | otherDomain
  /-- A pattern does not fit. -/
  | otherRequest
  /-- The patterns fit and there is no condition. -/
  | fits
  /-- The patterns fit, and the condition was asked with this context and gave this answer. -/
  | asked (context : Context) (answer : Bool)

/-- Whether the rule applies. -/
def Probe.matched : Probe → Bool
  | fits => true
  | asked _ answer => answer
  | _ => false

/-- Try a rule on a request. -/
def Rule.probe (r : Rule) (m : Matching) (q : Request) : Probe :=
  if !r.appliesIn q.context then .otherDomain
  else if !m.patternsFit r q then .otherRequest
  else
    match r.condition with
    | none => .fits
    | some c => .asked (m.conditionContext q) (c.holds (m.conditionContext q))

/-- Whether a rule applies to a request. -/
def Rule.appliesTo (r : Rule) (m : Matching) (q : Request) : Bool := (r.probe m q).matched

end Clearance
