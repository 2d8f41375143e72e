import Clearance.Json.Reader

/-!
# TOML texts

A text stands between quotes or, on several lines, between three quotes. Between double quotes a
backslash escapes; between single quotes everything stands for itself. A line feed right after
three opening quotes does not belong to the text, and of the quotes right before three closing
ones up to two do.
-/

namespace Clearance.Toml

open Json (hexValue?)

def isBlank (c : Char) : Bool := c == ' ' || c == '\t'

def skipBlanks (cs : List Char) : List Char := cs.dropWhile isBlank

/-- Whether a character may stand for itself within a line: no control character but the tab. -/
def isPlain (c : Char) : Bool := c == '\t' || (0x20 ≤ c.toNat && c.toNat != 0x7F)

/-- What follows the end of a line. -/
def skipNewline? : List Char → Option (List Char)
  | '\n' :: rest => some rest
  | '\r' :: '\n' :: rest => some rest
  | _ => none

/-- Blanks and ends of lines. -/
def isGap (c : Char) : Bool := isBlank c || c == '\n' || c == '\r'

/-- The character with a number given by hexadecimal digits, if it is one. -/
def charOf? (digits : List Char) : Option Char := do
  let ds ← digits.mapM hexValue?
  let n := ds.foldl (fun n d => 16 * n + d) 0
  if n < 0xD800 ∨ (0xE000 ≤ n ∧ n < 0x110000) then some (Char.ofNat n) else none

/-- What an escape stands for, after its backslash. -/
def escape? : List Char → Option (Char × List Char)
  | 'b' :: rest => some ('\x08', rest)
  | 't' :: rest => some ('\t', rest)
  | 'n' :: rest => some ('\n', rest)
  | 'f' :: rest => some ('\x0c', rest)
  | 'r' :: rest => some ('\r', rest)
  | '"' :: rest => some ('"', rest)
  | '\\' :: rest => some ('\\', rest)
  | 'u' :: rest =>
    if rest.length < 4 then none else (charOf? (rest.take 4)).map (·, rest.drop 4)
  | 'U' :: rest =>
    if rest.length < 8 then none else (charOf? (rest.take 8)).map (·, rest.drop 8)
  | _ => none

/-- A text on one line after its opening quote. The count bounds its length. -/
def readLine (quote : Char) : Nat → List Char → Option (List Char × List Char)
  | 0, _ => none
  | _, [] => none
  | fuel + 1, c :: rest =>
    if c = quote then some ([], rest)
    else if c = '\\' ∧ quote = '"' then do
      let (x, rest) ← escape? rest
      let (text, rest) ← readLine quote fuel rest
      some (x :: text, rest)
    else if isPlain c then (readLine quote fuel rest).map fun (text, rest) => (c :: text, rest)
    else none

/-- Whether a backslash at the end of a line is followed by that end. -/
def isLineJoin (rest : List Char) : Bool := (skipNewline? (skipBlanks rest)).isSome

/-- A text on several lines after its opening quotes. A backslash at the end of a line joins it to
the next character that is no gap. -/
def readBlock (quote : Char) : Nat → List Char → Option (List Char × List Char)
  | 0, _ => none
  | _, [] => none
  | fuel + 1, c :: rest =>
    if [quote, quote, quote].isPrefixOf (c :: rest) then
      let more := ((rest.drop 2).take 2).takeWhile (· == quote)
      some (more, rest.drop (2 + more.length))
    else if c = '\\' ∧ quote = '"' then
      if isLineJoin rest then readBlock quote fuel (rest.dropWhile isGap)
      else do
        let (x, rest) ← escape? rest
        let (text, rest) ← readBlock quote fuel rest
        some (x :: text, rest)
    else
      match skipNewline? (c :: rest) with
      | some rest => (readBlock quote fuel rest).map fun (text, rest) => ('\n' :: text, rest)
      | none =>
        if isPlain c then (readBlock quote fuel rest).map fun (text, rest) => (c :: text, rest)
        else none

/-- A text at the front, in any of its four forms. -/
def readText (cs : List Char) : Option (String × List Char) :=
  match cs with
  | [] => none
  | quote :: rest =>
    let text :=
      if [quote, quote].isPrefixOf rest then
        let body := rest.drop 2
        readBlock quote (body.length + 1) ((skipNewline? body).getD body)
      else readLine quote (rest.length + 1) rest
    text.map fun (text, rest) => (String.ofList text, rest)

end Clearance.Toml
