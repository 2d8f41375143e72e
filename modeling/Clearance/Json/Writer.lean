import Clearance.Json.Basic

/-!
# Writing JSON text

The compact form: no blanks, members in the order they are kept, and in a text only the quote,
the backslash and the control characters escaped.
-/

namespace Clearance.Json

def hexDigit (n : Nat) : Char := Nat.digitChar (n % 16)

/-- One character inside a text. -/
def writeChar (c : Char) : List Char :=
  match c with
  | '"' => ['\\', '"']
  | '\\' => ['\\', '\\']
  | '\x08' => ['\\', 'b']
  | '\x0c' => ['\\', 'f']
  | '\n' => ['\\', 'n']
  | '\r' => ['\\', 'r']
  | '\t' => ['\\', 't']
  | c =>
    if c.toNat < 0x20 then ['\\', 'u', '0', '0', hexDigit (c.toNat / 16), hexDigit c.toNat]
    else [c]

/-- A text between quotes. -/
def writeText (s : String) : List Char := '"' :: (s.toList.flatMap writeChar ++ ['"'])

/-- A whole number in decimal. -/
def writeInt : Int → List Char
  | .ofNat n => Nat.toDigits 10 n
  | .negSucc n => '-' :: Nat.toDigits 10 (n + 1)

mutual
/-- The characters of a value. -/
def chars : Json → List Char
  | .null => ['n', 'u', 'l', 'l']
  | .bool true => ['t', 'r', 'u', 'e']
  | .bool false => ['f', 'a', 'l', 's', 'e']
  | .int n => writeInt n
  | .float x => x.text.toList
  | .str s => writeText s
  | .arr [] => ['[', ']']
  | .arr (item :: items) => '[' :: (item.chars ++ charsItems items)
  | .obj [] => ['\x7b', '\x7d']
  | .obj ((k, v) :: members) => '\x7b' :: (writeText k ++ ':' :: (v.chars ++ charsMembers members))
  | .unreadable => ['n', 'u', 'l', 'l']

/-- The further items of a list and its closing bracket. -/
def charsItems : List Json → List Char
  | [] => [']']
  | item :: items => ',' :: (item.chars ++ charsItems items)

/-- The further members of an object and its closing brace. -/
def charsMembers : List (String × Json) → List Char
  | [] => ['\x7d']
  | (k, v) :: members => ',' :: (writeText k ++ ':' :: (v.chars ++ charsMembers members))
end

/-- The compact text of a value. -/
def write (j : Json) : String := String.ofList j.chars

end Clearance.Json
