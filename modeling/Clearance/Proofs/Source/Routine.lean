import Clearance.Proofs.Source.Token
import Clearance.Proofs.Reading
import Clearance.Table

/-!
# Printed routines

What a reader of printed source finds in the function that decides: its parameters, a sequence of
returns that are each guarded by clauses, and an effect at the end (`Routine`). It is read off the
tokens alone (`readRoutine`), without a look at the table that was printed, and it is run by taking
the first return whose clauses all hold (`Routine.run`), with `&&` cutting a condition short.

A clause that calls the glob scan needs to know what the scan answers. That is left open here: the
scan is given to `Routine.run`, and it may fail to answer.
-/

namespace Clearance.Source

/-- One clause of a condition. -/
inductive Clause where
  | equals (argument value : String)
  | scans (pattern argument : String)
  deriving DecidableEq, Repr

structure Return where
  clauses : List Clause
  effect : Effect
  deriving DecidableEq

structure Routine where
  parameters : List String
  returns : List Return
  last : Effect
  deriving DecidableEq

/-! ## Reading a routine -/

/-- What follows the name of a function where it is defined. -/
def definition? (name : String) : List Token → Option (List Token)
  | [] => none
  | t :: rest =>
    if t = .word "fn" ∧ rest.head? = some (.word name) then some rest.tail
    else definition? name rest

/-- Whether a function of this name is defined. -/
def Defines (tokens : List Token) (name : String) : Prop := (definition? name tokens).isSome = true

/-- The tokens before and after the first one of a kind. -/
def cut (mark : Token) : List Token → Option (List Token × List Token)
  | [] => none
  | t :: rest => if t = mark then some ([], rest) else (cut mark rest).map fun r => (t :: r.1, r.2)

def openBrace : Token := .symbol "\x7b"

def closeBrace : Token := .symbol "\x7d"

/-- The tokens up to the brace that closes a block, with the number of blocks open inside it. -/
def block? : Nat → List Token → Option (List Token)
  | _, [] => none
  | depth, t :: rest =>
    if t = closeBrace then
      if depth = 0 then some [] else (block? (depth - 1) rest).map (t :: ·)
    else (block? (if t = openBrace then depth + 1 else depth) rest).map (t :: ·)

def readParameter : List Token → Option String
  | [.word a, .symbol ":", .symbol "&", .word "str"] => some a
  | _ => none

/-- The names of the parameters. All are texts, and the result is an effect. -/
def readSignature (ts : List Token) : Option (List String) := do
  let (inside, result) ← cut (.symbol ")") ts
  if inside.head? = some (.symbol "(") ∧ result = [.symbol "->", .word "Effect"] then
    (inside.tail.splitOn (.symbol ",")).mapM readParameter
  else none

def readClause : List Token → Option Clause
  | [.word a, .symbol "==", .literal v] => some (.equals a v)
  | [.word "wildcard_match", .symbol "(", .literal p, .symbol ",", .word a, .symbol ")"] =>
    some (.scans p a)
  | _ => none

/-- The clauses of a condition; `true` has none. -/
def readCondition (ts : List Token) : Option (List Clause) :=
  if ts = [.word "true"] then some [] else (ts.splitOn (.symbol "&&")).mapM readClause

def effectNamed? (name : String) : Option Effect :=
  if name = "Allow" then some .allow else if name = "Deny" then some .deny else none

/-- The statement inside the braces of a guarded return. -/
def readStatement : List Token → Option Effect
  | [.word "return", .word "Effect", .symbol "::", .word name, .symbol ";"] => effectNamed? name
  | _ => none

/-- A guarded return up to its closing brace. -/
def readReturn : List Token → Option Return
  | .word "if" :: ts => do
    let (condition, statement) ← cut openBrace ts
    let clauses ← readCondition condition
    let effect ← readStatement statement
    some ⟨clauses, effect⟩
  | _ => none

/-- The expression at the end. -/
def readLast : List Token → Option Effect
  | [.word "Effect", .symbol "::", .word name] => effectNamed? name
  | _ => none

/-- The function of this name, if it is of the kind that tables are printed as. -/
def readRoutine (name : String) (tokens : List Token) : Option Routine := do
  let definition ← definition? name tokens
  let (signature, rest) ← cut openBrace definition
  let parameters ← readSignature signature
  let body ← block? 0 rest
  let chunks := body.splitOn closeBrace
  let returns ← chunks.dropLast.mapM readReturn
  let last ← chunks.getLast?.bind readLast
  some ⟨parameters, returns, last⟩

/-! ## Clauses and guards -/

namespace Clause

def tokens : Clause → List Token
  | equals a v => [.word a, .symbol "==", .literal v]
  | scans p a =>
    [.word "wildcard_match", .symbol "(", .literal p, .symbol ",", .word a, .symbol ")"]

def argument : Clause → String
  | equals a _ => a
  | scans _ a => a

/-- The test that a clause stands for. -/
def guard : Clause → Guard
  | equals _ v => .exact v
  | scans p _ => .glob p

/-- Whether a clause calls the glob scan. -/
def isScan : Clause → Bool
  | equals .. => false
  | scans .. => true

end Clause

/-- The test on each argument, in turn; an argument without a clause is not tested. There are none
if two clauses are on one argument, or if they are not in order. -/
def guards? : List String → List Clause → Option (List Guard)
  | [], [] => some []
  | [], _ :: _ => none
  | _ :: as, [] => (guards? as []).map (.any :: ·)
  | a :: as, c :: cs =>
    if c.argument = a then (guards? as cs).map (c.guard :: ·)
    else (guards? as (c :: cs)).map (.any :: ·)

namespace Routine

/-- The tests and the effect of each return, in order. -/
def rows (r : Routine) : Option (List (List Guard × Effect)) :=
  r.returns.mapM fun x => (guards? r.parameters x.clauses).map (·, x.effect)

/-- Whether some clause calls the glob scan. -/
def CallsScan (r : Routine) : Prop := ∃ x ∈ r.returns, ∃ c ∈ x.clauses, c.isScan = true

end Routine

/-! ## Running a routine -/

variable (scan : String → String → Option Bool) (value? : String → Option String)

/-- What a clause evaluates to, given the values of the names; nothing if it has no value. -/
def Clause.eval : Clause → Option Bool
  | equals a v => (value? a).map (· == v)
  | scans p a => (value? a).bind (scan p)

/-- What clauses joined by `&&` evaluate to. After one that does not hold none is looked at. -/
def evalAll : List Clause → Option Bool
  | [] => some true
  | c :: cs => (c.eval scan value?).bind fun holds => if holds then evalAll cs else some false

/-- The first return whose condition holds, or else the effect at the end. -/
def firstReturn (last : Effect) : List Return → Option Effect
  | [] => some last
  | r :: rest =>
    (evalAll scan value? r.clauses).bind fun holds =>
      if holds then some r.effect else firstReturn last rest

/-- What a routine returns for the values of its parameters. -/
def Routine.run (r : Routine) (arguments : List String) : Option Effect :=
  firstReturn scan (fun name => (r.parameters.zip arguments).lookup name) r.last r.returns

/-! ## Finding the parts -/

section Parts

variable {t mark : Token} {ts us : List Token} {name : String} {depth : Nat}

/-- What is cut at a mark is what stands before the first one. -/
theorem cut_append (h : mark ∉ ts) : cut mark (ts ++ mark :: us) = some (ts, us) := by
  induction ts with
  | nil =>
    rw [List.nil_append, cut, if_pos rfl]
  | cons t ts ih =>
    obtain ⟨ht, hts⟩ := not_or.1 (mt List.mem_cons.2 h)
    rw [List.cons_append, cut, if_neg (Ne.symm ht), ih hts]
    rfl

/-- Where no function is defined, none is found. -/
theorem definition?_append (h : .word "fn" ∉ ts) :
    definition? name (ts ++ us) = definition? name us := by
  induction ts with
  | nil => rfl
  | cons t ts ih =>
    obtain ⟨ht, hts⟩ := not_or.1 (mt List.mem_cons.2 h)
    rw [List.cons_append, definition?, if_neg fun hfn => ht hfn.1.symm, ih hts]

/-- Tokens without braces belong to the block. -/
theorem block?_append (hopen : openBrace ∉ ts) (hclose : closeBrace ∉ ts) :
    block? depth (ts ++ us) = (block? depth us).map (ts ++ ·) := by
  induction ts with
  | nil =>
    show block? depth us = (block? depth us).map fun x => x
    rw [Option.map_id']
  | cons t ts ih =>
    obtain ⟨htopen, hopen⟩ := not_or.1 (mt List.mem_cons.2 hopen)
    obtain ⟨htclose, hclose⟩ := not_or.1 (mt List.mem_cons.2 hclose)
    rw [List.cons_append, block?, if_neg (Ne.symm htclose), if_neg (Ne.symm htopen),
      ih hopen hclose, Option.map_map]
    rfl

theorem block?_open : block? depth (openBrace :: us) = (block? (depth + 1) us).map (openBrace :: ·) := by
  rw [block?, if_neg (by decide), if_pos rfl]

theorem block?_close :
    block? (depth + 1) (closeBrace :: us) = (block? depth us).map (closeBrace :: ·) := by
  rw [block?, if_pos rfl, if_neg (Nat.succ_ne_zero depth), Nat.add_sub_cancel]

/-- A block in braces inside a block is passed over. -/
theorem block?_braces (hopen : openBrace ∉ ts) (hclose : closeBrace ∉ ts) :
    block? depth (openBrace :: (ts ++ closeBrace :: us)) =
      (block? depth us).map (openBrace :: (ts ++ [closeBrace]) ++ ·) := by
  rw [block?_open, block?_append hopen hclose, block?_close, Option.map_map, Option.map_map]
  refine congrArg (Option.map · (block? depth us)) (funext fun x => ?_)
  simp

end Parts

end Clearance.Source
