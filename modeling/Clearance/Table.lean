import Clearance.Journal
import Clearance.Policy

/-!
# Decision tables

A table is a policy made ready for fast look-up. Its entries stand in priority order; the first
one that fits decides, and a request that none fits is denied.

Not every rule has a place in a table. A rule confined to a domain is left out, because a table
knows no context. A rule whose patterns have occurred before is left out, because the earlier
one always fits first. After an entry that fits everything nothing can be reached, so the table
ends there. Conditions are dropped.

`Policy.placements` lists what becomes of each rule; the entries and the warnings are both read
off that list.
-/

namespace Clearance

/-- A test on one part of a request. -/
inductive Guard where
  | any
  | exact (value : String)
  | glob (pattern : String)
  deriving DecidableEq, Repr

namespace Guard

/-- The test that a pattern stands for. -/
def ofPattern : Option String → Guard
  | none => any
  | some p => if p = "*" then any else if Glob.isGlob p then glob p else exact p

def accepts : Guard → String → Bool
  | any, _ => true
  | exact expected, value => expected == value
  | glob pattern, value => Glob.accepts pattern value

def isAny (g : Guard) : Bool := g == any

def isGlob : Guard → Bool
  | glob _ => true
  | _ => false

end Guard

/-- One line of a table. -/
structure Entry where
  subject : Guard
  resource : Guard
  action : Guard
  effect : Effect
  priority : Priority
  deriving DecidableEq

namespace Entry

/-- A rule without its domain and its condition. -/
def ofRule (r : Rule) : Entry :=
  { subject := .ofPattern (some r.subject)
    resource := .ofPattern r.resource
    action := .ofPattern (some r.action)
    effect := r.effect
    priority := r.priority }

def accepts (e : Entry) (subject resource action : String) : Bool :=
  e.subject.accepts subject && e.resource.accepts resource && e.action.accepts action

/-- Whether every request fits. -/
def isOpen (e : Entry) : Bool := e.subject.isAny && e.resource.isAny && e.action.isAny

def hasGlob (e : Entry) : Bool := e.subject.isGlob || e.resource.isGlob || e.action.isGlob

end Entry

/-- What becomes of a rule in a table. -/
inductive Placement where
  /-- It is confined to a domain and left out. -/
  | confined (domain : String)
  /-- Its patterns have occurred before and it is left out. -/
  | repeated
  | placed (e : Entry)
  deriving DecidableEq

def Placement.asEntry : Placement → Option Entry
  | placed e => some e
  | _ => none

/-- Place rules one after another, given the signatures that have an entry already. -/
def place (seen : List Signature) : List Rule → List (Rule × Placement)
  | [] => []
  | r :: rest =>
    match r.domain with
    | some d => (r, .confined d.id) :: place seen rest
    | none =>
      if seen.contains r.signature then (r, .repeated) :: place seen rest
      else
        let e := Entry.ofRule r
        (r, .placed e) :: if e.isOpen then [] else place (r.signature :: seen) rest

/-- What becomes of the rules of a policy, up to an entry that fits everything. -/
def Policy.placements (p : Policy) : List (Rule × Placement) := place [] p.byPriority

/-- What there is to say about the placement of a rule. -/
def Placement.event? : Rule × Placement → Option Event
  | (r, confined domain) => some (.domainRuleLeftOut r.signature domain)
  | (_, repeated) => none
  | (r, placed _) => if r.isConditional then some (.conditionDropped r.signature) else none

structure Table where
  entries : List Entry
  deriving DecidableEq

namespace Table

def ofPolicy (p : Policy) : Table := ⟨p.placements.filterMap (·.2.asEntry)⟩

/-- What making the table leaves on record. -/
def record (p : Policy) : Journal := (p.placements.filterMap Placement.event?).map .event

def size (t : Table) : Nat := t.entries.length

/-- The effect of the first entry that fits. -/
def evaluate (t : Table) (subject resource action : String) : Effect :=
  (t.entries.find? (·.accepts subject resource action)).elim .deny (·.effect)

end Table

end Clearance
