import Clearance.Text.Shown

/-!
# Quoted literals

A text as a literal of the language that decision tables are printed in: between double quotes,
with the quote, the backslash and four control characters written as two characters, and every
other character without a shape of its own written as its number in hexadecimal. Which characters have
a shape of their own is the language's to say, and changes with its releases; `isShown` is one answer.
-/

namespace Clearance.Text

/-- The number of a character in braces, without leading zeros. -/
def numberEscape (c : Char) : List Char :=
  '\\' :: 'u' :: '\x7b' :: (Nat.toDigits 16 c.toNat ++ ['\x7d'])

/-- One character inside a literal. -/
def quoteChar (c : Char) (shown : Char → Bool := isShown) : List Char :=
  match c with
  | '\x00' => ['\\', '0']
  | '\t' => ['\\', 't']
  | '\n' => ['\\', 'n']
  | '\r' => ['\\', 'r']
  | '"' => ['\\', '"']
  | '\\' => ['\\', '\\']
  | c => if shown c then [c] else numberEscape c

/-- The literal of a text. -/
def quote (s : String) (shown : Char → Bool := isShown) : String :=
  String.ofList ('"' :: (s.toList.flatMap (quoteChar · shown) ++ ['"']))

/-- How a text that may be missing is shown in the audit trail. -/
def quoteOption : Option String → String
  | none => "None"
  | some s => "Some(" ++ quote s ++ ")"

end Clearance.Text
