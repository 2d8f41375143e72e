import Clearance.Register
import Clearance.Settings
import Clearance.Text.Split

/-!
# Placeholders

Before settings are read, each `${NAME}` in their text is replaced by the value of the variable.
Placeholders are sought line by line, from the left, and values are not searched again. A name
goes on to the next closing brace and is not empty. A placeholder that begins after the first `#`
of its line is left alone, whether or not the `#` begins a comment. Lines that end in a carriage
return and a line feed come to end in a line feed.
-/

namespace Clearance.Placeholder

/-- What variables stand for. -/
abbrev Variables := Register String

/-- The value of a variable. No variable has a name with `=` or a NUL in it. -/
def valueOf? (vars : Variables) (name : String) : Option String :=
  if name.toList.any fun c => c == '=' || c == '\x00' then none else vars.get? name

/-- A part of a line. -/
inductive Piece where
  | plain (c : Char)
  | variable (name : List Char)
  deriving DecidableEq, Repr

/-- The name that a placeholder at the front gives, and what follows it. -/
def placeholder? (cs : List Char) : Option (List Char × List Char) :=
  match cs with
  | '$' :: '\x7b' :: rest =>
    let name := rest.takeWhile (· != '\x7d')
    match rest.dropWhile (· != '\x7d') with
    | [] => none
    | _ :: after => if name.isEmpty then none else some (name, after)
  | _ => none

/-- The parts of a line. The count bounds its length. -/
def pieces : Nat → List Char → List Piece
  | 0, cs => cs.map .plain
  | _, [] => []
  | fuel + 1, c :: rest =>
    if c = '#' then (c :: rest).map .plain
    else
      match placeholder? (c :: rest) with
      | some (name, after) =>
        .variable name :: if name.contains '#' then after.map .plain else pieces fuel after
      | none => .plain c :: pieces fuel rest

/-- The text that a part comes to. -/
def expandPiece (vars : Variables) : Piece → Except SettingsError (List Char)
  | .plain c => .ok [c]
  | .variable name =>
    match valueOf? vars (String.ofList name) with
    | some value => .ok value.toList
    | none => .error (.undefinedVariable (String.ofList name))

/-- The text that a line comes to. -/
def expandLine (vars : Variables) (line : List Char) : Except SettingsError (List Char) := do
  return (← (pieces line.length line).mapM (expandPiece vars)).flatten

/-- The lines of a text without their ends. What follows the last line feed is a line unless it is
empty. -/
def lines (cs : List Char) : List (List Char) :=
  let raw := Text.splitAt '\n' cs
  let ended := raw.dropLast.map fun line =>
    if line.getLast? = some '\r' then line.dropLast else line
  match raw.getLast? with
  | some [] | none => ended
  | some last => ended ++ [last]

/-- The text with every placeholder replaced, or the first that cannot be. -/
def expand (vars : Variables) (text : String) : Except SettingsError String := do
  let cs := text.toList
  let expanded ← (lines cs).mapM (expandLine vars)
  let joined := expanded.flatMap (· ++ ['\n'])
  return String.ofList (if cs.getLast? = some '\n' then joined else joined.dropLast)

end Clearance.Placeholder
