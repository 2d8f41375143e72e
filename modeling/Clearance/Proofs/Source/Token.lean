import Clearance.Json.Reader
import Clearance.Table.ModuleName

/-!
# Tokens of printed text

How the language that tables are printed in falls into tokens, as far as a printed table needs it:
names, keywords and numbers; symbols of one or two characters, the longest first; literals in
double quotes with all their escapes; single letters in quotes, as against the names of lifetimes;
and comments up to the end of their line. Raw and prefixed literals, block comments and everything
else that no printed table holds is not read at all.

The reader goes through the text once, character by character, and gives out tokens as they end.
All that it remembers is its `Mode`, so a text can be read piece by piece (`Reads.append`): what a
piece contributes depends on the mode before it and on nothing else around it.
-/

namespace Clearance.Source

open Json (hexValue? isBlank)

inductive Token where
  /-- A name, a keyword or a number. -/
  | word (w : String)
  | symbol (s : String)
  /-- What a literal in double quotes stands for. -/
  | literal (s : String)
  /-- What a letter in single quotes stands for. -/
  | letter (c : Char)
  | lifetime (w : String)
  deriving DecidableEq, Repr

/-- What the reader is in the middle of, with what it has read of it. -/
inductive Mode where
  /-- Nothing: a token may begin. -/
  | between
  | word (w : List Char)
  /-- A symbol that may have a second character. -/
  | symbol (c : Char)
  | comment
  | literal (s : List Char)
  /-- A backslash in a literal. -/
  | escape (s : List Char)
  /-- The two digits of a small number in a literal: none of them is read yet. -/
  | highDigit (s : List Char)
  /-- The first of the two digits is read. -/
  | lowDigit (s : List Char) (high : Nat)
  /-- The brace in front of the digits of any other number. -/
  | brace (s : List Char)
  /-- As many of the digits are read as `count` says; they make `n`. -/
  | digits (s : List Char) (n count : Nat)
  /-- A line break that is left out, with the blanks after it. -/
  | fold (s : List Char)
  /-- A single quote. -/
  | quote
  /-- The character after a single quote. -/
  | quoted (c : Char)
  | lifetime (w : List Char)
  /-- The text is none that can be read. -/
  | wrong
  deriving DecidableEq, Repr

/-- The characters that symbols begin with. -/
def symbolChars : List Char := "#[]()\x7b\x7d<>,;:&=+-*/|.!".toList

/-- The symbols of two characters. -/
def pairs : List (Char × Char) :=
  [(':', ':'), ('=', '='), ('!', '='), ('<', '='), ('>', '='), ('=', '>'), ('-', '>'), ('&', '&'),
   ('|', '|'), ('+', '='), ('-', '='), ('*', '='), ('/', '='), ('&', '='), ('|', '='), ('.', '.')]

/-- The mode after the first character of a token, or after a blank. -/
def Mode.first (c : Char) : Mode :=
  if isBlank c then between
  else if Table.isNameChar c then word [c]
  else if c = '"' then literal []
  else if c = '\'' then quote
  else if symbolChars.contains c then symbol c
  else wrong

/-- A token has ended, and the character after it is the first of what follows. -/
def after (t : Token) (c : Char) : Mode × List Token := (.first c, [t])

/-- Go on with a name, a keyword or a number. A hash, or a quote right after it, would make it
something else; only the mark of a raw name is read. -/
def wordStep (w : List Char) (c : Char) : Mode × List Token :=
  if Table.isNameChar c then (.word (w ++ [c]), [])
  else if w = ['r'] ∧ c = '#' then (.word ['r', '#'], [])
  else if w = ['r', '#'] ∨ c = '#' ∨ c = '"' ∨ c = '\'' then (.wrong, [])
  else after (.word (String.ofList w)) c

/-- Go on after the first character of a symbol, which may turn out to begin a comment. -/
def symbolStep (s c : Char) : Mode × List Token :=
  if s = '/' ∧ c = '/' then (.comment, [])
  else if s = '/' ∧ c = '*' then (.wrong, [])
  else if pairs.contains (s, c) then (.between, [.symbol (String.ofList [s, c])])
  else after (.symbol (String.ofList [s])) c

/-- Go on with a literal. -/
def literalStep (s : List Char) (c : Char) : Mode × List Token :=
  if c = '"' then (.between, [.literal (String.ofList s)])
  else if c = '\\' then (.escape s, [])
  else if c = '\r' then (.wrong, [])
  else (.literal (s ++ [c]), [])

/-- Go on with a literal after a backslash. -/
def escapeStep (s : List Char) : Char → Mode
  | '0' => .literal (s ++ ['\x00'])
  | 't' => .literal (s ++ ['\t'])
  | 'n' => .literal (s ++ ['\n'])
  | 'r' => .literal (s ++ ['\r'])
  | '"' => .literal (s ++ ['"'])
  | '\'' => .literal (s ++ ['\''])
  | '\\' => .literal (s ++ ['\\'])
  | 'x' => .highDigit s
  | 'u' => .brace s
  | '\n' => .fold s
  | _ => .wrong

/-- Go on with the digits of a number in braces: there are at most six, with underscores anywhere
but in front, and the number is that of a character. -/
def digitsStep (s : List Char) (n count : Nat) (c : Char) : Mode :=
  if c = '\x7d' then
    if 0 < count ∧ n.isValidChar then .literal (s ++ [Char.ofNat n]) else .wrong
  else if c = '_' ∧ 0 < count then .digits s n count
  else
    match hexValue? c with
    | some d => if count < 6 then .digits s (16 * n + d) (count + 1) else .wrong
    | none => .wrong

/-- Go on after a single quote and a character: another quote, or the name of a lifetime. -/
def quotedStep (x c : Char) : Mode × List Token :=
  if c = '\'' then (.between, [.letter x])
  else if !Table.isNameChar x then (.wrong, [])
  else if Table.isNameChar c then (.lifetime [x, c], [])
  else after (.lifetime (String.ofList [x])) c

/-- What one character does: the mode after it and the tokens that end before or with it. -/
def step : Mode → Char → Mode × List Token
  | .between, c => (.first c, [])
  | .word w, c => wordStep w c
  | .symbol s, c => symbolStep s c
  | .comment, c => (if c = '\n' then .between else .comment, [])
  | .literal s, c => literalStep s c
  | .escape s, c => (escapeStep s c, [])
  | .highDigit s, c =>
    (((hexValue? c).filter (· < 8)).elim .wrong fun d => .lowDigit s d, [])
  | .lowDigit s h, c =>
    ((hexValue? c).elim .wrong fun d => .literal (s ++ [Char.ofNat (16 * h + d)]), [])
  | .brace s, c => (if c = '\x7b' then .digits s 0 0 else .wrong, [])
  | .digits s n count, c => (digitsStep s n count c, [])
  | .fold s, c => if isBlank c then (.fold s, []) else literalStep s c
  | .quote, c =>
    (if c = '\'' ∨ c = '\\' ∨ c = '\n' ∨ c = '\r' ∨ c = '\t' then .wrong else .quoted c, [])
  | .quoted x, c => quotedStep x c
  | .lifetime w, c =>
    if Table.isNameChar c then (.lifetime (w ++ [c]), [])
    else if c = '\'' then (.wrong, [])
    else after (.lifetime (String.ofList w)) c
  | .wrong, _ => (.wrong, [])

/-- Read characters from a mode on. -/
def readFrom (m : Mode) : List Char → Mode × List Token
  | [] => (m, [])
  | c :: cs =>
    let (m', ts) := step m c
    let (last, rest) := readFrom m' cs
    (last, ts ++ rest)

/-- The token that the end of the text ends, unless the text cannot end here. -/
def Mode.finish : Mode → Option (List Token)
  | between | comment => some []
  | word w => some [.word (String.ofList w)]
  | symbol s => some [.symbol (String.ofList [s])]
  | lifetime w => some [.lifetime (String.ofList w)]
  | _ => none

/-- The tokens of a text; `none` if it is no text that can be read. -/
def tokens? (text : String) : Option (List Token) :=
  let (m, ts) := readFrom .between text.toList
  m.finish.map (ts ++ ·)

/-- The tokens of a text that can be read. -/
def spelled (text : String) : List Token := (tokens? text).getD []

/-! ## Reading piece by piece -/

/-- From one mode to another, the characters give these tokens. -/
def Reads (m : Mode) (cs : List Char) (m' : Mode) (ts : List Token) : Prop :=
  readFrom m cs = (m', ts)

instance (m m' : Mode) (cs : List Char) (ts : List Token) : Decidable (Reads m cs m' ts) :=
  inferInstanceAs (Decidable (readFrom m cs = (m', ts)))

namespace Reads

variable {m m' m'' : Mode} {c : Char} {cs ds : List Char} {t : Token} {ts us : List Token}

theorem nil (m : Mode) : Reads m [] m [] := rfl

theorem cons (hc : step m c = (m', ts)) (h : Reads m' cs m'' us) :
    Reads m (c :: cs) m'' (ts ++ us) := by
  unfold Reads at h ⊢
  rw [readFrom, hc]
  dsimp only
  rw [h]

/-- Where a token ends before a character, reading goes on from there as between tokens. -/
theorem after (hc : step m c = Source.after t c) (h : Reads .between (c :: cs) m' us) :
    Reads m (c :: cs) m' (t :: us) := by
  unfold Reads at h ⊢
  rw [readFrom, hc]
  exact congrArg (fun r => (r.1, t :: r.2)) h

/-- A character in the middle of a token. -/
theorem cons_quiet (hc : step m c = (m', [])) (h : Reads m' cs m'' us) :
    Reads m (c :: cs) m'' us :=
  cons hc h

/-- Texts are read one after the other. -/
theorem append (h : Reads m cs m' ts) (h' : Reads m' ds m'' us) :
    Reads m (cs ++ ds) m'' (ts ++ us) := by
  induction cs generalizing m ts with
  | nil =>
    obtain ⟨rfl, rfl⟩ := Prod.mk.inj h
    exact h'
  | cons c cs ih =>
    obtain ⟨next, given⟩ : ∃ r, step m c = r := ⟨_, rfl⟩
    unfold Reads at h
    rw [readFrom, given] at h
    obtain ⟨rfl, rfl⟩ := Prod.mk.inj h
    rw [List.append_assoc]
    exact cons given (ih rfl)

/-- Pieces that give no token can be put together freely. -/
theorem append_quiet (h : Reads m cs m' []) (h' : Reads m' ds m'' us) :
    Reads m (cs ++ ds) m'' us :=
  append h h'

/-- What is gathered character by character: each is spelled in some way, and each spelling adds its
character to what has been read so far. -/
theorem gather {k : List Char → Mode} {f : Char → List Char} (w : List Char)
    (h : ∀ w, ∀ c ∈ cs, Reads (k w) (f c) (k (w ++ [c])) []) :
    Reads (k w) (cs.flatMap f) (k (w ++ cs)) [] := by
  induction cs generalizing w with
  | nil =>
    rw [List.append_nil]
    exact nil _
  | cons c cs ih =>
    have hrest := ih (w ++ [c]) fun w x hx => h w x (List.mem_cons_of_mem c hx)
    rw [List.append_assoc] at hrest
    exact (h w c List.mem_cons_self).append_quiet hrest

/-- What is gathered character by character, each standing for itself. -/
theorem gather_plain {k : List Char → Mode} (w : List Char)
    (h : ∀ w, ∀ c ∈ cs, step (k w) c = (k (w ++ [c]), [])) :
    Reads (k w) cs (k (w ++ cs)) [] := by
  have hall := gather (f := fun c => [c]) w fun w c hc => cons_quiet (h w c hc) (nil _)
  rwa [List.flatMap_singleton'] at hall

/-- Names and numbers go on as long as characters of names follow. -/
theorem word (w : List Char) (hcs : ∀ c ∈ cs, Table.isNameChar c = true) :
    Reads (.word w) cs (.word (w ++ cs)) [] := by
  refine gather_plain w fun w c hc => ?_
  show wordStep w c = _
  unfold wordStep
  rw [if_pos (hcs c hc)]

/-- A comment goes on as long as no line ends. -/
theorem comment (hcs : '\n' ∉ cs) : Reads .comment cs .comment [] := by
  refine gather_plain (k := fun _ => .comment) [] fun _ c hc => ?_
  show (if c = '\n' then Mode.between else .comment, ([] : List Token)) = _
  have hline : c ≠ '\n' := fun heq => hcs (heq ▸ hc)
  rw [if_neg hline]

end Reads

/-- Of a text that ends between tokens, the tokens are those that were given on the way. -/
theorem tokens?_of_reads {text : String} {ts : List Token}
    (h : Reads .between text.toList .between ts) : tokens? text = some ts := by
  unfold tokens?
  rw [show readFrom .between text.toList = (.between, ts) from h]
  dsimp only [Mode.finish]
  rw [Option.map_some, List.append_nil]

/-! ## Reading line by line -/

/-- The characters of lines, each of which ends in a line feed. -/
def lineChars (lines : List String) : List Char := lines.flatMap fun l => l.toList ++ ['\n']

/-- Whole lines give these tokens, and nothing is left open at their end. -/
def ReadsLines (lines : List String) (ts : List Token) : Prop :=
  Reads .between (lineChars lines) .between ts

instance (lines : List String) (ts : List Token) : Decidable (ReadsLines lines ts) :=
  inferInstanceAs (Decidable (Reads _ _ _ ts))

namespace ReadsLines

variable {line : String} {lines more : List String} {ts us : List Token}

theorem nil : ReadsLines [] [] := Reads.nil .between

/-- Lines are read one after the other. -/
theorem append (h : ReadsLines lines ts) (h' : ReadsLines more us) :
    ReadsLines (lines ++ more) (ts ++ us) := by
  unfold ReadsLines lineChars at *
  rw [List.flatMap_append]
  exact Reads.append h h'

theorem single (h : Reads .between (line.toList ++ ['\n']) .between ts) : ReadsLines [line] ts := by
  unfold ReadsLines lineChars
  rw [List.flatMap_cons, List.flatMap_nil, List.append_nil]
  exact h

theorem flatMap {α : Type} {f : α → List String} {g : α → List Token} (xs : List α)
    (h : ∀ x ∈ xs, ReadsLines (f x) (g x)) : ReadsLines (xs.flatMap f) (xs.flatMap g) := by
  induction xs with
  | nil => exact nil
  | cons x xs ih =>
    obtain ⟨hx, hxs⟩ := List.forall_mem_cons.1 h
    exact hx.append (ih hxs)

end ReadsLines

end Clearance.Source
