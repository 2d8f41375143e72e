import Clearance.Toml.Scalar
import Clearance.Toml.Text
import Clearance.Toml.Tree

/-!
# Reading TOML

`Toml.read` accepts a TOML document and gives it as a JSON document, which the decoders of
settings take. A line holds a header or a value under a key, and perhaps a comment; a value that
is a list may go on over several lines.
-/

namespace Clearance.Toml

def isKeyChar (c : Char) : Bool := c.isAlphanum || c == '_' || c == '-'

/-- One part of a key at the front: a word, or a text on one line. -/
def readKeyPart (cs : List Char) : Option (String × List Char) :=
  match cs with
  | '"' :: rest | '\x27' :: rest =>
    let quote := cs.headD '"'
    if [quote, quote].isPrefixOf rest then none
    else (readLine quote (rest.length + 1) rest).map fun (key, rest) => (String.ofList key, rest)
  | cs =>
    match cs.takeWhile isKeyChar with
    | [] => none
    | key => some (String.ofList key, cs.dropWhile isKeyChar)

/-- A key at the front with the dots between its parts. The count bounds the number of parts. -/
def readKey : Nat → List Char → Option (List String × List Char)
  | 0, _ => none
  | fuel + 1, cs => do
    let (key, cs) ← readKeyPart (skipBlanks cs)
    match skipBlanks cs with
    | '.' :: rest =>
      let (path, rest) ← readKey fuel rest
      some (key :: path, rest)
    | rest => some ([key], rest)

/-- What follows a comment, or the text itself if there is none. -/
def skipComment? : List Char → Option (List Char)
  | '#' :: rest =>
    let rest := rest.dropWhile isPlain
    if rest = [] ∨ (skipNewline? rest).isSome then some rest else none
  | rest => some rest

/-- Skip blanks, comments and ends of lines. -/
def skipGaps : Nat → List Char → Option (List Char)
  | 0, cs => some cs
  | fuel + 1, cs => do
    let rest ← skipComment? (skipBlanks cs)
    match skipNewline? rest with
    | some rest => skipGaps fuel rest
    | none => some rest

mutual
/-- A value at the front. The count bounds the nesting of calls. -/
def readValue : Nat → List Char → Option (Json × List Char)
  | 0, _ => none
  | fuel + 1, cs =>
    match cs with
    | '"' :: _ | '\x27' :: _ => (readText cs).map fun (s, rest) => (.str s, rest)
    | '[' :: rest => (readItems fuel rest).map fun (items, rest) => (.arr items, rest)
    | '\x7b' :: rest =>
      match skipBlanks rest with
      | '\x7d' :: rest => some (.obj [], rest)
      | rest => do
        let (values, rest) ← readInline fuel rest
        (inlineTable? values).map (·, rest)
    | cs =>
      let (scalar, rest) := splitScalar cs
      (scalar? scalar).map (·, rest)

/-- The items of a list up to its closing bracket. The last may be followed by a comma. -/
def readItems : Nat → List Char → Option (List Json × List Char)
  | 0, _ => none
  | fuel + 1, cs => do
    match ← skipGaps cs.length cs with
    | ']' :: rest => some ([], rest)
    | rest =>
      let (item, rest) ← readValue fuel rest
      match ← skipGaps rest.length rest with
      | ',' :: rest =>
        let (items, rest) ← readItems fuel rest
        some (item :: items, rest)
      | ']' :: rest => some ([item], rest)
      | _ => none

/-- The values of a table in braces up to its closing brace. -/
def readInline : Nat → List Char → Option (List (List String × Json) × List Char)
  | 0, _ => none
  | fuel + 1, cs => do
    let (path, rest) ← readKey (cs.length + 1) cs
    let rest ← skip? '=' rest
    let (j, rest) ← readValue fuel (skipBlanks rest)
    match skipBlanks rest with
    | ',' :: rest =>
      let (values, rest) ← readInline fuel rest
      some ((path, j) :: values, rest)
    | '\x7d' :: rest => some ([(path, j)], rest)
    | _ => none
end

/-- What a line says. -/
inductive Line where
  | header (h : Header)
  | value (path : List String) (j : Json)

/-- The line at the front, as far as it says anything. -/
def readStatement (cs : List Char) : Option (Line × List Char) := do
  let fuel := cs.length + 1
  match cs with
  | '[' :: '[' :: rest =>
    let (path, rest) ← readKey fuel rest
    let rest ← skip? ']' (← skip? ']' rest)
    some (.header (.item path), rest)
  | '[' :: rest =>
    let (path, rest) ← readKey fuel rest
    let rest ← skip? ']' rest
    some (.header (.table path), rest)
  | cs =>
    let (path, rest) ← readKey fuel cs
    let rest ← skip? '=' rest
    let (j, rest) ← readValue fuel (skipBlanks rest)
    some (.value path j, rest)

/-- The lines of a document that say something. -/
def readLines : Nat → List Char → Option (List Line)
  | 0, _ => none
  | fuel + 1, cs => do
    match ← skipGaps cs.length cs with
    | [] => some []
    | cs =>
      let (line, rest) ← readStatement cs
      let rest ← skipComment? (skipBlanks rest)
      match rest with
      | [] => some [line]
      | rest =>
        let lines ← readLines fuel (← skipNewline? rest)
        some (line :: lines)

/-- The values before the first header, and the sections after it. -/
def groupLines : List Line → List (List String × Json) × List Section
  | [] => ([], [])
  | .value path j :: rest =>
    let (front, sections) := groupLines rest
    ((path, j) :: front, sections)
  | .header h :: rest =>
    let (front, sections) := groupLines rest
    ([], ⟨h, front⟩ :: sections)

/-- The document that a text is, if it is one. A byte order mark in front is passed over. -/
def read (text : String) : Option Json := do
  let cs := text.toList
  let cs := if cs.head? = some '\uFEFF' then cs.drop 1 else cs
  let lines ← readLines (cs.length + 1) cs
  let (front, sections) := groupLines lines
  document? front sections

end Clearance.Toml
