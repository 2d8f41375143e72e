import Clearance.Fault
import Clearance.Journal

/-!
# The policy store

Policies are filed by name. A deleted one goes to the trash, from where it can be restored, and
keeps its name until it is deleted for good or another policy is saved under it.

A policy may extend another. Loading the policies for a subject puts all live policies together,
each once and each after the policy it extends. `contributions` settles that order. It follows a
policy to its bases until it meets one that has contributed already or is missing, so a circle
of policies that extend one another ends at the first that comes round again.
-/

namespace Clearance

/-- A policy on file, and whether it is in the trash. -/
structure FiledPolicy where
  policy : Policy
  trashed : Bool

structure PolicyStore where
  filed : Register FiledPolicy := .empty

namespace PolicyStore

def empty : PolicyStore := {}

/-- The name a policy is filed under. -/
def nameFor (p : Policy) : Except StoreError String :=
  match p.name with
  | some name => if name = "" then .error (.invalid "Policy name cannot be empty") else .ok name
  | none => .error (.invalid "Policy name cannot be empty")

def put (s : PolicyStore) (name : String) (p : Policy) (trashed : Bool) : PolicyStore :=
  ⟨s.filed.insert name ⟨p, trashed⟩⟩

/-- File a policy under its name, in place of one of the same name. -/
def save (s : PolicyStore) (p : Policy) : Except StoreError PolicyStore :=
  (nameFor p).map fun name => s.put name p false

/-- File several policies, or none if one of them has no name. -/
def saveMany (s : PolicyStore) (ps : List Policy) : Except StoreError PolicyStore :=
  (ps.mapM fun p => (nameFor p).map (·, p)).map fun named =>
    named.foldl (fun s (name, p) => s.put name p false) s

/-- The live policy of that name. -/
def get? (s : PolicyStore) (name : String) : Option Policy :=
  match s.filed.get? name with
  | some ⟨p, false⟩ => some p
  | _ => none

/-- Move a live policy to the trash. -/
def delete (s : PolicyStore) (name : String) : Except StoreError PolicyStore :=
  match s.filed.get? name with
  | some ⟨p, false⟩ => .ok (s.put name p true)
  | _ => .error .notFound

/-- Move several policies to the trash, and say how many of the names were live. -/
def deleteMany (s : PolicyStore) : List String → Nat × PolicyStore
  | [] => (0, s)
  | name :: names =>
    match s.delete name with
    | .ok s =>
      let (count, s) := s.deleteMany names
      (count + 1, s)
    | .error _ => s.deleteMany names

/-- Take a policy out of the trash. -/
def restore (s : PolicyStore) (name : String) : Except StoreError PolicyStore :=
  match s.filed.get? name with
  | some ⟨p, true⟩ => .ok (s.put name p false)
  | _ => .error .notFound

/-- Remove a policy for good, live or not. -/
def forceDelete (s : PolicyStore) (name : String) : Except StoreError PolicyStore :=
  if s.filed.contains name then .ok ⟨s.filed.erase name⟩ else .error .notFound

/-- The policies in the trash, by name. -/
def trashed (s : PolicyStore) : List Policy :=
  (s.filed.entries.filter (·.2.trashed)).map (·.2.policy)

/-- The live policies, by name. -/
def live (s : PolicyStore) : Register Policy :=
  (s.filed.filter fun _ f => !f.trashed).map fun _ f => f.policy

/-- The base of a live policy, if that is live too. -/
def liveBase? (live : Register Policy) (name : String) : Option String :=
  ((live.get? name).bind (·.base)).filter live.contains

/-- A policy and its bases as far as they have not contributed yet, the policy first. `waiting`
are the names that have not. -/
def lineage (live : Register Policy) (waiting : List String) (name : String) : List String :=
  if name ∈ waiting then
    name :: match liveBase? live name with
      | some base => lineage live (waiting.erase name) base
      | none => []
  else []
  termination_by waiting.length
  decreasing_by
    have h : name ∈ waiting := by assumption
    rw [List.length_erase_of_mem h]
    have := List.length_pos_of_mem h
    omega

/-- The order in which policies contribute, starting from the given names. -/
def contributionsFrom (live : Register Policy) (waiting : List String) : List String → List String
  | [] => []
  | name :: names =>
    let line := lineage live waiting name
    line.reverse ++ contributionsFrom live (waiting.filter (!line.contains ·)) names

/-- The names of the live policies in the order in which they contribute: each once, and after
its base. -/
def contributions (live : Register Policy) : List String :=
  contributionsFrom live live.keys live.keys

/-- All live rules, those of a base before those of a policy that extends it. -/
def liveRules (s : PolicyStore) : List Rule :=
  (contributions s.live).flatMap fun name => ((s.live.get? name).map (·.rules)).getD []

/-- Whether a rule can apply to a subject at all, by its id or by one of its roles. -/
def concerns (subject : Subject) (r : Rule) : Bool := Matching.subjectOrRoleFits r.subject subject

/-- The live rules that can apply to a subject, as a policy without a name. -/
def policiesFor (s : PolicyStore) (subject : Subject) : Policy :=
  .ofRules (s.liveRules.filter (concerns subject))

/-- The base that a live policy names in vain. -/
def missingBase? (live : Register Policy) (name : String) : Option Event :=
  (((live.get? name).bind (·.base)).filter (!live.contains ·)).map (.missingBase name)

/-- What loading policies leaves on record. -/
def record (s : PolicyStore) : Journal :=
  ((contributions s.live).filterMap (missingBase? s.live)).map .event

end PolicyStore

end Clearance
