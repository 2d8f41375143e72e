import Clearance.Json.Basic
import Clearance.Register
import Clearance.Text.Split

/-!
# Requests

A request asks whether a subject may perform an action, on a resource or on none, in a context.
Subjects, resources and domains carry attributes; the context is what the caller adds.
-/

namespace Clearance

/-- Named JSON values. -/
abbrev Attributes := Register Json

/-- What the caller says about the circumstances of a request. -/
abbrev Context := Attributes

/-- Who asks. -/
structure Subject where
  id : String
  attributes : Attributes := .empty
  deriving DecidableEq

namespace Subject

/-- The attribute that lists a subject's roles. -/
def rolesAttribute : String := "roles"

def withAttribute (s : Subject) (name : String) (value : Json) : Subject :=
  { s with attributes := s.attributes.insert name value }

def withRoles (s : Subject) (roles : List String) : Subject :=
  s.withAttribute rolesAttribute (.arr (roles.map .str))

/-- The texts in the list of roles; without such a list a subject has none. -/
def roles (s : Subject) : List String :=
  match (s.attributes.get? rolesAttribute).bind Json.asItems? with
  | some items => items.filterMap Json.asText?
  | none => []

def hasRole (s : Subject) (role : String) : Bool := s.roles.contains role

end Subject

/-- What is asked about. -/
structure Resource where
  id : String
  type : String
  attributes : Attributes := .empty
  deriving DecidableEq

namespace Resource

/-- A resource known by its id: its type is the part before the first colon, or all of it. -/
def ofId (id : String) : Resource := ⟨id, String.ofList (Text.before ':' id.toList), .empty⟩

def withAttribute (r : Resource) (name : String) (value : Json) : Resource :=
  { r with attributes := r.attributes.insert name value }

end Resource

/-- What is to be done. -/
structure Action where
  name : String
  deriving DecidableEq

/-- A tenant or another part of the world that rules can be confined to. -/
structure Domain where
  id : String
  attributes : Attributes := .empty
  deriving DecidableEq

/-- The context entry that names the domain of a request. -/
def domainKey : String := "domain"

/-- One authorization question. -/
structure Request where
  subject : Subject
  resource : Option Resource
  action : Action
  context : Context := .empty

/-- The domain that a context names, if it names one by a text. -/
def Context.domain? (context : Context) : Option String :=
  (context.get? domainKey).bind Json.asText?

end Clearance
