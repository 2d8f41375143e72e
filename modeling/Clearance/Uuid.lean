import Clearance.Json.Reader

/-!
# Identifiers

A universally unique identifier is a number of 128 bits. It is written as 32 hexadecimal digits in
groups of 8, 4, 4, 4 and 12, and read in any of four forms: without hyphens, with hyphens, in
braces, or after `urn:uuid:`. The last two take the hyphenated form only.
-/

namespace Clearance

structure Uuid where
  bits : BitVec 128
  deriving DecidableEq, Repr

namespace Uuid

/-- 32 hexadecimal digits. -/
def readDigits (cs : List Char) : Option Uuid :=
  if cs.length ≠ 32 then none
  else (cs.mapM Json.hexValue?).map fun ds => ⟨.ofNat 128 (ds.foldl (fun n d => 16 * n + d) 0)⟩

/-- The five groups of digits with hyphens between them. -/
def readHyphenated (cs : List Char) : Option Uuid :=
  let hyphens := [8, 13, 18, 23]
  if cs.length = 36 ∧ hyphens.all (fun i => cs[i]? = some '-') then
    readDigits (cs.take 8 ++ (cs.drop 9).take 4 ++ (cs.drop 14).take 4 ++ (cs.drop 19).take 4
      ++ cs.drop 24)
  else none

/-- The identifier that a text names, if it names one. -/
def read (text : String) : Option Uuid :=
  let cs := text.toList
  if cs.length = 32 then readDigits cs
  else if cs.length = 36 then readHyphenated cs
  else if cs.length = 38 ∧ cs.head? = some '\x7b' ∧ cs.getLast? = some '\x7d' then
    readHyphenated (cs.drop 1).dropLast
  else if cs.length = 45 ∧ "urn:uuid:".toList.isPrefixOf cs then readHyphenated (cs.drop 9)
  else none

/-- The last `count` hexadecimal digits of a number. -/
def hexDigits : Nat → Nat → List Char
  | 0, _ => []
  | count + 1, n => hexDigits count (n / 16) ++ [Nat.digitChar (n % 16)]

/-- The hyphenated form in lower case. -/
def write (u : Uuid) : String :=
  let ds := hexDigits 32 u.bits.toNat
  String.ofList (ds.take 8 ++ '-' :: (ds.drop 8).take 4 ++ '-' :: (ds.drop 12).take 4
    ++ '-' :: (ds.drop 16).take 4 ++ '-' :: ds.drop 20)

end Uuid

end Clearance
