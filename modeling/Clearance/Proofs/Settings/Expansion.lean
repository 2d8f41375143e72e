import Clearance.Proofs.Settings.Placeholder
import Clearance.Proofs.Text.Split

/-!
# What a text expands to

An expanded text is the text with a value in the place of each placeholder that is heeded and with all
else as it was, but for the ends of lines, which come to be line feeds. `Expands` says so of the lines into
which a text falls (`Layout`) and of the places in them, and it says which variable is named if one is not
defined. `expand_eq_iff` proves that this is what the expansion does, for every text and all variables, so
that nothing is lost or written twice and no value is looked at again.

The end of a text takes some care: what follows the last line feed is a line only if it is not empty, and
the line feed that every expanded line gets is taken back unless the text ended in one (`rewritten_eq`).
-/

namespace Clearance.Placeholder

/-- The two ways in which a line can end. -/
inductive LineEnd where
  | lf
  | crlf

def LineEnd.chars : LineEnd → List Char
  | lf => ['\n']
  | crlf => ['\r', '\n']

/-- A text as its lines with their ends, and what comes after the last end. -/
structure Layout where
  ended : List (List Char × LineEnd)
  last : List Char

namespace Layout

def lines (l : Layout) : List (List Char) := l.ended.map (·.1) ++ [l.last]

/-- Whether this is how a text falls into lines. -/
structure IsOf (l : Layout) (text : List Char) : Prop where
  text_eq : l.ended.flatMap (fun e => e.1 ++ e.2.chars) ++ l.last = text
  single : ∀ line ∈ l.lines, '\n' ∉ line
  /-- A carriage return before a line feed belongs to the end of the line. -/
  entire : ∀ line, (line, LineEnd.lf) ∈ l.ended → line.getLast? ≠ some '\r'

/-- The text with every line changed and every end a line feed. -/
def rewritten (l : Layout) (f : List Char → List Char) : List Char :=
  l.ended.flatMap (fun e => f e.1 ++ ['\n']) ++ f l.last

/-- The names in a text, in its order, given the places in each line. -/
def names (l : Layout) (places : List Char → List Place) : List (List Char) :=
  l.lines.flatMap fun line => (places line).map (·.name)

end Layout

def IsDefined (vars : Variables) (name : List Char) : Prop :=
  (valueOf? vars (String.ofList name)).isSome = true

/-- The value of a variable that is defined. -/
def value (vars : Variables) (name : List Char) : List Char :=
  ((valueOf? vars (String.ofList name)).getD "").toList

/-- What a text expands to. -/
inductive Expands (vars : Variables) (text : String) : Except SettingsError String → Prop
  /-- Every variable is defined: the heeded placeholders give way to the values, all else is kept. -/
  | replaced {l : Layout} {places : List Char → List Place} (hl : l.IsOf text.toList)
      (hplaces : ∀ line, Leftmost line 0 (places line))
      (hdefined : ∀ name ∈ l.names fun line => heeded line (places line), IsDefined vars name) :
      Expands vars text (.ok (String.ofList
        (l.rewritten fun line => filled (value vars) line 0 (heeded line (places line)))))
  /-- Some variable is not: it is the first such in the order of the text that is named. -/
  | refused {l : Layout} {places : List Char → List Place} {front back : List (List Char)}
      {name : List Char} (hl : l.IsOf text.toList)
      (hplaces : ∀ line, Leftmost line 0 (places line))
      (hnames : l.names (fun line => heeded line (places line)) = front ++ name :: back)
      (hfront : ∀ n ∈ front, IsDefined vars n) (hname : ¬ IsDefined vars name) :
      Expands vars text (.error (.undefinedVariable (String.ofList name)))

variable {vars : Variables} {cs : List Char}

/-! ## Refusing -/

/-- Going through a list stops at the first element that is refused, and otherwise changes each. -/
theorem mapM_eq {α β ε : Type} {f : α → Except ε β} {err : α → Option ε} {out : α → β}
    (h : ∀ a, f a = (err a).elim (.ok (out a)) .error) (l : List α) :
    l.mapM f = (l.findSome? err).elim (.ok (l.map out)) .error := by
  induction l with
  | nil => rfl
  | cons a l ih =>
    rw [List.mapM_cons, h a, ih, List.findSome?_cons]
    cases err a with
    | some e => rfl
    | none => cases l.findSome? err <;> rfl

/-- Why a line or a text with these names is refused, if it is. -/
def refusal? (vars : Variables) (names : List (List Char)) : Option SettingsError :=
  (names.find? fun name => (valueOf? vars (String.ofList name)).isNone).map
    fun name => .undefinedVariable (String.ofList name)

/-- The first name that is refused in many lists is that of the first list with one. -/
theorem refusal?_flatMap {α : Type} (f : α → List (List Char)) (l : List α) :
    refusal? vars (l.flatMap f) = l.findSome? fun a => refusal? vars (f a) := by
  unfold refusal?
  rw [List.find?_flatMap, List.map_findSome?]
  rfl

/-- Nothing is refused if all names are defined. -/
theorem refusal?_eq_none_iff {names : List (List Char)} :
    refusal? vars names = none ↔ ∀ name ∈ names, IsDefined vars name := by
  simp only [refusal?, Option.map_eq_none_iff, List.find?_eq_none, IsDefined,
    Bool.not_eq_true, Option.isNone_eq_false_iff]

/-- The first of the names that are not defined is named. -/
theorem refusal?_eq_some_iff {names : List (List Char)} {e : SettingsError} :
    refusal? vars names = some e ↔
      ∃ front name back, names = front ++ name :: back ∧ (∀ n ∈ front, IsDefined vars n) ∧
        ¬ IsDefined vars name ∧ e = .undefinedVariable (String.ofList name) := by
  simp only [refusal?, Option.map_eq_some_iff, List.find?_eq_some_iff_append, IsDefined]
  constructor
  · rintro ⟨name, ⟨hname, front, back, hnames, hfront⟩, rfl⟩
    exact ⟨front, name, back, hnames, by simpa using hfront, by simpa using hname, rfl⟩
  · rintro ⟨front, name, back, hnames, hfront, hname, rfl⟩
    exact ⟨name, ⟨by simpa using hname, front, back, hnames, by simpa using hfront⟩, rfl⟩

/-- A piece is expanded unless one of its names is refused. -/
theorem expandPiece_eq (vars : Variables) (p : Piece) :
    expandPiece vars p =
      (refusal? vars p.names).elim (.ok (p.filled (value vars))) .error := by
  match p with
  | .plain c => rfl
  | .variable name =>
    unfold expandPiece Piece.names Piece.filled refusal? value
    cases h : valueOf? vars (String.ofList name) <;> simp [h]

/-- The names of the variables of a line that are replaced. -/
def namesIn (places : List Char → List Place) (line : List Char) : List (List Char) :=
  (heeded line (places line)).map (·.name)

/-- A line is expanded at the places that are heeded, unless a name there is refused. -/
theorem expandLine_eq {places : List Char → List Place}
    (hplaces : ∀ line, Leftmost line 0 (places line)) (line : List Char) :
    expandLine vars line =
      (refusal? vars (namesIn places line)).elim
        (.ok (filled (value vars) line 0 (heeded line (places line)))) .error := by
  have hreads : Reads line 0 (heeded line (places line)) (pieces line.length line) :=
    reads_pieces (by omega) (by simp) (hplaces line)
  have hnames : (pieces line.length line).findSome? (fun p => refusal? vars p.names) =
      refusal? vars (namesIn places line) := by
    rw [← refusal?_flatMap, hreads.names, namesIn]
  unfold expandLine
  rw [mapM_eq (expandPiece_eq vars), hnames]
  cases refusal? vars (namesIn places line) with
  | some e => rfl
  | none =>
    rw [← hreads.filled, List.flatMap_def]
    rfl

/-! ## Falling into lines -/

/-- A line and what there is of its end before the line feed. -/
def beforeFeed : List Char × LineEnd → List Char
  | (line, .lf) => line
  | (line, .crlf) => line ++ ['\r']

/-- The line whose line feed comes after these characters. -/
def lineBefore (raw : List Char) : List Char × LineEnd :=
  if raw.getLast? = some '\r' then (raw.dropLast, .crlf) else (raw, .lf)

/-- What stands before the line feed, and the line feed, are a line with its end. -/
theorem beforeFeed_append (e : List Char × LineEnd) : beforeFeed e ++ ['\n'] = e.1 ++ e.2.chars := by
  obtain ⟨line, _ | _⟩ := e
  · rfl
  · exact List.append_assoc ..

theorem beforeFeed_lineBefore (raw : List Char) : beforeFeed (lineBefore raw) = raw := by
  unfold lineBefore
  split
  next hreturn =>
    obtain ⟨front, rfl⟩ := List.getLast?_eq_some_iff.1 hreturn
    rw [List.dropLast_concat]
    rfl
  next => rfl

/-- A line ending is told from what stands before its feed. -/
theorem lineBefore_beforeFeed {e : List Char × LineEnd}
    (h : e.2 = .lf → e.1.getLast? ≠ some '\r') : lineBefore (beforeFeed e) = e := by
  obtain ⟨line, _ | _⟩ := e
  · exact if_neg (h rfl)
  · unfold lineBefore beforeFeed
    rw [if_pos List.getLast?_concat, List.dropLast_concat]

variable {l : Layout}

theorem newline_not_mem_beforeFeed {e : List Char × LineEnd} (h : '\n' ∉ e.1) :
    '\n' ∉ beforeFeed e := by
  obtain ⟨line, _ | _⟩ := e
  · exact h
  · simpa [beforeFeed] using h

namespace Layout.IsOf

/-- A text falls into lines at its line feeds. -/
theorem splitAt_eq (h : l.IsOf cs) :
    Text.splitAt '\n' cs = l.ended.map beforeFeed ++ [l.last] := by
  refine Text.splitAt_eq_iff.2 ⟨by simp, fun piece hpiece => ?_, ?_⟩
  · rcases List.mem_append.1 hpiece with hended | hlast
    · obtain ⟨e, he, rfl⟩ := List.mem_map.1 hended
      exact newline_not_mem_beforeFeed
        (h.single _ (List.mem_append_left _ (List.mem_map_of_mem he)))
    · rw [List.mem_singleton.1 hlast]
      exact h.single _ (List.mem_append_right _ (List.mem_singleton_self _))
  · rw [Text.intercalate_concat, List.flatMap_map, ← h.text_eq]
    simp only [beforeFeed_append]

/-- The lines of a text are those of its layout; an empty text after the last end is none. -/
theorem lines_eq (h : l.IsOf cs) :
    Placeholder.lines cs = l.ended.map (·.1) ++ if l.last = [] then [] else [l.last] := by
  have hended : (l.ended.map beforeFeed).map
      (fun line => if line.getLast? = some '\r' then line.dropLast else line) = l.ended.map (·.1) := by
    rw [List.map_map]
    refine List.map_congr_left fun e he => ?_
    have hback : lineBefore (beforeFeed e) = e :=
      lineBefore_beforeFeed fun hlf => h.entire e.1 (hlf ▸ he)
    rw [Function.comp_apply, ← congrArg Prod.fst hback]
    unfold lineBefore
    split <;> rfl
  unfold Placeholder.lines
  dsimp only
  rw [h.splitAt_eq, List.dropLast_concat, List.getLast?_concat, hended]
  cases l.last <;> simp

end Layout.IsOf

/-- **Every text falls into lines.** -/
theorem exists_layout (cs : List Char) : ∃ l : Layout, l.IsOf cs := by
  obtain ⟨-, hclear, hjoin⟩ := Text.splitAt_eq_iff.1 (rfl : Text.splitAt '\n' cs = _)
  rcases List.eq_nil_or_concat (Text.splitAt '\n' cs) with hnil | ⟨front, last, hconcat⟩
  · exact absurd hnil (Text.splitAt_ne_nil '\n' cs)
  · rw [hconcat, List.concat_eq_append] at hclear hjoin
    refine ⟨⟨front.map lineBefore, last⟩, ?_, fun line hline => ?_, fun line hline => ?_⟩
    · rw [Text.intercalate_concat] at hjoin
      rw [← hjoin, List.flatMap_map]
      simp only [← beforeFeed_append, beforeFeed_lineBefore]
    · rcases List.mem_append.1 hline with hended | hlast
      · simp only [List.map_map, List.mem_map, Function.comp_apply] at hended
        obtain ⟨raw, hraw, rfl⟩ := hended
        have hin := hclear raw (List.mem_append_left _ hraw)
        unfold lineBefore
        split
        · exact fun hmem => hin (List.dropLast_subset raw hmem)
        · exact hin
      · rw [List.mem_singleton.1 hlast]
        exact hclear last (List.mem_append_right _ (List.mem_singleton_self _))
    · obtain ⟨raw, -, hraw⟩ := List.mem_map.1 hline
      unfold lineBefore at hraw
      split at hraw
      next => exact absurd hraw (by simp)
      next hreturn =>
        obtain ⟨rfl, -⟩ := Prod.mk.inj hraw
        exact hreturn

/-! ## Expanding a text -/

/-- The last line feed is there afterwards if it was there before. -/
theorem rewritten_eq (h : l.IsOf cs) {f : List Char → List Char} (hf : f [] = []) :
    (if cs.getLast? = some '\n' then ((Placeholder.lines cs).map f).flatMap (· ++ ['\n'])
      else (((Placeholder.lines cs).map f).flatMap (· ++ ['\n'])).dropLast) = l.rewritten f := by
  rw [h.lines_eq, Layout.rewritten]
  by_cases hlast : l.last = []
  · rw [if_pos hlast, hlast, hf, List.append_nil, List.append_nil, List.map_map, List.flatMap_map]
    have hcs := h.text_eq
    rw [hlast, List.append_nil] at hcs
    rcases List.eq_nil_or_concat l.ended with hnone | ⟨front, e, hended⟩
    · simp [hnone]
    · have hend : cs.getLast? = some '\n' := by
        rw [← hcs, hended, List.concat_eq_append, List.flatMap_append]
        simp only [← beforeFeed_append]
        simp
      rw [if_pos hend]
      rfl
  · have hend : cs.getLast? ≠ some '\n' := by
      intro hend
      obtain ⟨front, hfront⟩ := List.getLast?_eq_some_iff.1 hend
      obtain ⟨before, c, hc⟩ := (List.eq_nil_or_concat l.last).resolve_left hlast
      have hsame := h.text_eq.trans hfront
      rw [hc, List.concat_eq_append, ← List.append_assoc] at hsame
      obtain ⟨-, hcs⟩ := List.append_inj' hsame rfl
      refine h.single l.last (List.mem_append_right _ (List.mem_singleton_self _)) ?_
      rw [hc, List.concat_eq_append, (List.cons.inj hcs).1]
      simp
    rw [if_neg hend, if_neg hlast, List.map_append, List.flatMap_append, List.map_map,
      List.flatMap_map, List.map_singleton, List.flatMap_singleton, ← List.append_assoc,
      List.dropLast_concat]
    rfl

/-- A text is expanded line by line, at the places that are heeded, unless a name is refused. -/
theorem expand_eq {text : String} (hl : l.IsOf text.toList) {places : List Char → List Place}
    (hplaces : ∀ line, Leftmost line 0 (places line)) :
    expand vars text =
      (refusal? vars (l.names fun line => heeded line (places line))).elim
        (.ok (String.ofList
          (l.rewritten fun line => filled (value vars) line 0 (heeded line (places line)))))
        .error := by
  have hempty : heeded [] (places []) = [] := by
    rw [(hplaces []).eq_nil (Nat.le_refl 0)]
    rfl
  -- an empty last line is not expanded, and has nothing that could be refused
  have hrefused : (lines text.toList).findSome? (fun line => refusal? vars (namesIn places line)) =
      refusal? vars (l.names fun line => heeded line (places line)) := by
    unfold Layout.names Layout.lines
    rw [hl.lines_eq, refusal?_flatMap, List.findSome?_append, List.findSome?_append]
    congr 1
    split
    next hlast =>
      rw [hlast]
      simp [hempty, refusal?]
    next => rfl
  unfold expand
  dsimp only
  rw [mapM_eq (expandLine_eq hplaces), hrefused]
  cases refusal? vars (l.names fun line => heeded line (places line)) with
  | some e => rfl
  | none =>
    have hkept : filled (value vars) [] 0 (heeded [] (places [])) = [] := by
      rw [hempty]
      rfl
    rw [Option.elim_none, ← rewritten_eq hl hkept]
    rfl

/-- **An expansion replaces what is to be replaced, once, and keeps the rest.** In every text, for all
variables: the placeholders of each line that are found from the left before its first `#` give way to the
values as they are, everything else stays, the ends of lines as line feeds; or else the first variable in
the text that is not defined is named. Nothing else comes of a text. -/
theorem expand_eq_iff (vars : Variables) (text : String) (result : Except SettingsError String) :
    expand vars text = result ↔ Expands vars text result := by
  constructor
  · rintro rfl
    obtain ⟨l, hl⟩ := exists_layout text.toList
    obtain ⟨places, hplaces⟩ :=
      Classical.skolem.1 fun line => exists_leftmost line 0
    rw [expand_eq hl hplaces]
    cases hrefusal : refusal? vars (l.names fun line => heeded line (places line)) with
    | none => exact .replaced hl hplaces (refusal?_eq_none_iff.1 hrefusal)
    | some e =>
      obtain ⟨front, name, back, hnames, hfront, hname, rfl⟩ := refusal?_eq_some_iff.1 hrefusal
      exact .refused hl hplaces hnames hfront hname
  · intro h
    cases h with
    | replaced hl hplaces hdefined =>
      rw [expand_eq hl hplaces, refusal?_eq_none_iff.2 hdefined]
      rfl
    | refused hl hplaces hnames hfront hname =>
      rw [expand_eq hl hplaces, refusal?_eq_some_iff.2 ⟨_, _, _, hnames, hfront, hname, rfl⟩]
      rfl

/-- A value is not searched for placeholders or comments, and a comment keeps what is in it. -/
example :
    expand (Register.ofList [("A", "$\x7bA\x7d#")]) "$\x7bA\x7d$\x7b\x7d$\x7bA\x7d#$\x7bB\x7d\r\n" =
      .ok "$\x7bA\x7d#$\x7b\x7d$\x7bA\x7d##$\x7bB\x7d\n" := rfl

end Clearance.Placeholder
