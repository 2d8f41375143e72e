import Clearance.Json.Basic

/-!
# TOML tables

A document is a list of sections, each a list of values under keys with dots. A tree puts them
together. Every table is made in one place: a table that a header has named cannot be named again
or be added to by a key with dots, one that such keys have made can only be added to by them, and
one that only lies on the way to another can still be named.
-/

namespace Clearance.Toml

/-- How a table came to be. -/
inductive Origin where
  /-- A header names it. -/
  | named
  /-- It lies on the way to one that a header names. -/
  | implied
  /-- A key with dots goes through it. -/
  | dotted
  deriving DecidableEq, Repr

inductive Node where
  | value (j : Json)
  | table (origin : Origin) (members : List (String × Node))
  /-- One table for each header in double brackets. -/
  | tables (items : List (List (String × Node)))

/-- The nodes of a table by key. -/
abbrev Members := List (String × Node)

namespace Members

def get? : Members → String → Option Node
  | [], _ => none
  | (k, n) :: rest, key => if k = key then some n else get? rest key

/-- Put a node in place of the one of that key, or at the end. -/
def put : Members → String → Node → Members
  | [], key, n => [(key, n)]
  | (k, x) :: rest, key, n => if k = key then (k, n) :: rest else (k, x) :: put rest key n

/-- Put a value under a key with dots. `inside` is the origin of the table at hand, when the key
has led into it. -/
def putValue (inside : Option Origin) : List String → Json → Members → Option Members
  | [], _, _ => none
  | [key], j, ms =>
    if inside.all (· == .dotted) && (get? ms key).isNone then some (put ms key (.value j))
    else none
  | key :: path, j, ms =>
    match get? ms key with
    | none => (putValue (some .dotted) path j []).map fun inner => put ms key (.table .dotted inner)
    | some (.table .named _) => none
    | some (.table origin inner) =>
      (putValue (some origin) path j inner).map fun inner => put ms key (.table origin inner)
    | some (.tables items) =>
      match items.getLast? with
      | none => none
      | some inner =>
        (putValue (some .named) path j inner).map fun inner =>
          put ms key (.tables (items.dropLast ++ [inner]))
    | some (.value _) => none

/-- Put values under keys with dots, one after another. -/
def putValues (values : List (List String × Json)) (ms : Members) : Option Members :=
  values.foldlM (fun ms (path, j) => putValue none path j ms) ms

/-- Change what stands under the path of a header. -/
def change (f : Option Node → Option Node) : List String → Members → Option Members
  | [], _ => none
  | [key], ms => (f (get? ms key)).map (put ms key)
  | key :: path, ms =>
    match get? ms key with
    | none => (change f path []).map fun inner => put ms key (.table .implied inner)
    | some (.table origin inner) =>
      (change f path inner).map fun inner => put ms key (.table origin inner)
    | some (.tables items) =>
      match items.getLast? with
      | none => none
      | some inner =>
        (change f path inner).map fun inner => put ms key (.tables (items.dropLast ++ [inner]))
    | some (.value _) => none

end Members

mutual
/-- The document that a node stands for. -/
def Node.document : Node → Json
  | .value j => j
  | .table _ members => .obj (memberDocuments members)
  | .tables items => .arr (tableDocuments items)

def memberDocuments : List (String × Node) → List (String × Json)
  | [] => []
  | (k, n) :: rest => (k, n.document) :: memberDocuments rest

def tableDocuments : List (List (String × Node)) → List Json
  | [] => []
  | members :: rest => .obj (memberDocuments members) :: tableDocuments rest
end

/-- The table that a list of values under keys with dots makes. -/
def inlineTable? (values : List (List String × Json)) : Option Json :=
  (Members.putValues values []).map fun ms => .obj (memberDocuments ms)

/-- What a section is headed by. -/
inductive Header where
  | table (path : List String)
  | item (path : List String)
  deriving Repr

/-- The values under one header. -/
structure Section where
  header : Header
  values : List (List String × Json)

/-- Put one section into the tree. -/
def addSection (ms : Members) (s : Section) : Option Members :=
  match s.header with
  | .table path =>
    let fill inner := (Members.putValues s.values inner).map (Node.table .named)
    ms.change (fun
      | none => fill []
      | some (.table .implied inner) => fill inner
      | some _ => none) path
  | .item path =>
    let fill items := (Members.putValues s.values []).map fun inner => Node.tables (items ++ [inner])
    ms.change (fun
      | none => fill []
      | some (.tables items) => fill items
      | some _ => none) path

/-- The document of the values before any header and the sections after them. -/
def document? (front : List (List String × Json)) (sections : List Section) : Option Json := do
  let ms ← Members.putValues front []
  let ms ← sections.foldlM addSection ms
  some (.obj (memberDocuments ms))

end Clearance.Toml
