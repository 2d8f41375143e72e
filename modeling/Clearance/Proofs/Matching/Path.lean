import Clearance.Proofs.Glob.Scan
import Clearance.Proofs.Text.Split
import Clearance.Matching

/-!
# What a path template takes

A template and a path are compared here as two lists of segments, by position: `Follows` says which
segments have to agree and how many there may be, and `IsOutline` says what the segments of a path are.
Neither goes through a path from the front. `pathFits_means` proves that a path fits a template just if the
outlines of the two follow each other so, that slashes at the ends make no difference, and that a list of
methods is read in any order and any mixture of cases.

The answer for a template of a lone `*` needs no case of its own: its first segment takes the rest of any
path, even of an empty one (`pathFits_eq`).
-/

namespace Clearance.Matching

/-! ## Segments -/

/-- The slashes that may stand at an end of a path. -/
def slashes (n : Nat) : List Char := List.replicate n '/'

/-- Whether these are the segments of a path: what lies between its outer slashes, which neither begins nor
ends in a slash, cut at every slash. -/
structure IsOutline (path : List Char) (segments : List (List Char)) : Prop where
  nonempty : segments ≠ []
  clear : ∀ segment ∈ segments, '/' ∉ segment
  head : (['/'].intercalate segments).head? ≠ some '/'
  last : (['/'].intercalate segments).getLast? ≠ some '/'
  within : ∃ i j, path = slashes i ++ ['/'].intercalate segments ++ slashes j

/-- Whether a segment of a template has the form of a named place. -/
def IsNamed (segment : List Char) : Prop :=
  (∃ name, segment = ':' :: name) ∨ ∃ name, segment = '\x7b' :: (name ++ ['\x7d'])

/-- What a segment of a template takes: a named place any segment that is not empty, every other segment
what it describes as a glob. -/
def Takes (segment value : List Char) : Prop :=
  (IsNamed segment → value ≠ []) ∧ (¬ IsNamed segment → Glob.Describes segment value)

/-- Whether the first segments of a template take those of a path, as many as there are of both. -/
def TakesFirst (count : Nat) (template path : List (List Char)) : Prop :=
  ∀ i < count, ∀ segment ∈ template[i]?, ∀ value ∈ path[i]?, Takes segment value

/-- Whether a path follows a template: up to the template's first `*`, if it has one, and otherwise with as
many segments. -/
def Follows (template path : List (List Char)) : Prop :=
  (∃ k, template[k]? = some ['*'] ∧ (∀ i < k, template[i]? ≠ some ['*']) ∧ k ≤ path.length ∧
      TakesFirst k template path) ∨
    (['*'] ∉ template ∧ template.length = path.length ∧ TakesFirst template.length template path)

variable {segment value : List Char} {template path : List (List Char)}

/-- A segment is a parameter if it is a name in braces. -/
theorem isParameter_iff : isParameter segment = true ↔ IsNamed segment := by
  simp only [isParameter, IsNamed, Bool.or_eq_true, Bool.and_eq_true, decide_eq_true_eq,
    List.head?_eq_some_iff, List.getLast?_eq_some_iff]
  refine or_congr_right ⟨?_, ?_⟩
  · rintro ⟨⟨rest, rfl⟩, front, hfront⟩
    cases front with
    | nil => exact absurd (List.cons.inj hfront).1 (by decide)
    | cons c name =>
      obtain ⟨rfl, rfl⟩ := List.cons.inj hfront
      exact ⟨name, rfl⟩
  · rintro ⟨name, rfl⟩
    exact ⟨⟨_, rfl⟩, '\x7b' :: name, rfl⟩

/-- A segment takes what it should. -/
theorem segmentFits_iff : segmentFits segment value = true ↔ Takes segment value := by
  unfold segmentFits Takes
  split
  next hnamed =>
    have hnamed := isParameter_iff.1 hnamed
    simp [hnamed]
  next hother =>
    have hother := mt isParameter_iff.2 hother
    rw [Glob.accepts_iff_describes, String.toList_ofList, String.toList_ofList]
    simp [hother]

/-- A template takes one segment after another. -/
theorem takesFirst_succ {count : Nat} :
    TakesFirst (count + 1) (segment :: template) (value :: path) ↔
      Takes segment value ∧ TakesFirst count template path := by
  unfold TakesFirst
  rw [Nat.forall_lt_succ_left]
  simp

/-- A segment other than `*` takes the first segment of a path, and the others take the rest. -/
theorem follows_cons (h : segment ≠ ['*']) :
    Follows (segment :: template) (value :: path) ↔ Takes segment value ∧ Follows template path := by
  unfold Follows
  constructor
  · rintro (⟨k, hstar, hfirst, hlong, htakes⟩ | ⟨hno, hlength, htakes⟩)
    · cases k with
      | zero => exact absurd (Option.some.inj hstar) h
      | succ k =>
        obtain ⟨hhead, htakes⟩ := takesFirst_succ.1 htakes
        exact ⟨hhead, .inl ⟨k, hstar, fun i hi => hfirst (i + 1) (Nat.succ_lt_succ hi),
          Nat.le_of_succ_le_succ hlong, htakes⟩⟩
    · obtain ⟨hhead, htakes⟩ := takesFirst_succ.1 htakes
      exact ⟨hhead, .inr ⟨fun hin => hno (List.mem_cons_of_mem _ hin), Nat.succ.inj hlength, htakes⟩⟩
  · rintro ⟨hhead, ⟨k, hstar, hfirst, hlong, htakes⟩ | ⟨hno, hlength, htakes⟩⟩
    · refine .inl ⟨k + 1, hstar, ?_, Nat.succ_le_succ hlong, takesFirst_succ.2 ⟨hhead, htakes⟩⟩
      intro i hi
      cases i with
      | zero => exact fun heq => h (Option.some.inj heq)
      | succ i => exact hfirst i (Nat.lt_of_succ_lt_succ hi)
    · exact .inr ⟨List.not_mem_cons_of_ne_of_not_mem (Ne.symm h) hno, congrArg Nat.succ hlength,
        takesFirst_succ.2 ⟨hhead, htakes⟩⟩

/-- **Segments are compared by position.** The induction is on the template: a `*` ends the comparison, and
every other segment uses up one of the path. -/
theorem segmentsFit_iff : segmentsFit template path = true ↔ Follows template path := by
  induction template generalizing path with
  | nil =>
    cases path with
    | nil => exact iff_of_true rfl (.inr ⟨List.not_mem_nil, rfl, fun i hi => absurd hi (Nat.not_lt_zero i)⟩)
    | cons value path =>
      refine iff_of_false Bool.false_ne_true ?_
      rintro (⟨k, hstar, -⟩ | ⟨-, hlength, -⟩)
      · exact absurd hstar (by simp)
      · exact absurd hlength (by simp)
  | cons segment template ih =>
    unfold segmentsFit
    by_cases hstar : segment = ['*']
    · rw [if_pos hstar]
      have hnone : ∀ {P : Nat → Prop}, ∀ i < 0, P i := fun i hi => absurd hi (Nat.not_lt_zero i)
      exact iff_of_true rfl (.inl ⟨0, congrArg some hstar, hnone, Nat.zero_le _, hnone⟩)
    · rw [if_neg hstar]
      cases path with
      | nil =>
        refine iff_of_false Bool.false_ne_true ?_
        rintro (⟨k, hk, -, hlong, -⟩ | ⟨-, hlength, -⟩)
        · obtain rfl : k = 0 := Nat.le_zero.1 hlong
          exact hstar (Option.some.inj hk)
        · exact absurd hlength (by simp)
      | cons value path =>
        dsimp only
        rw [Bool.and_eq_true, segmentFits_iff, ih, follows_cons hstar]

/-! ## Outlines -/

/-- What lies between the outer slashes. -/
def inner (path : List Char) : List Char :=
  Text.dropEndWhile (· == '/') (path.dropWhile (· == '/'))

/-- Slashes in front do not count. -/
theorem dropWhile_slashes (n : Nat) (cs : List Char) :
    (slashes n ++ cs).dropWhile (· == '/') = cs.dropWhile (· == '/') := by
  rw [slashes, List.dropWhile_append_of_pos]
  intro c hc
  rw [List.eq_of_mem_replicate hc]
  rfl

theorem dropWhile_of_head {cs : List Char} (h : cs.head? ≠ some '/') :
    cs.dropWhile (· == '/') = cs := by
  cases cs with
  | nil => rfl
  | cons c cs =>
    have hc : c ≠ '/' := fun he => h (congrArg some he)
    exact List.dropWhile_cons_of_neg (by simpa using hc)

/-- Slashes around a text that neither begins nor ends in one are outer slashes. -/
theorem inner_slashes {i j : Nat} {body : List Char} (hhead : body.head? ≠ some '/')
    (hlast : body.getLast? ≠ some '/') : inner (slashes i ++ body ++ slashes j) = body := by
  have hreverse : (slashes j).reverse = slashes j := List.reverse_replicate ..
  have hend : Text.dropEndWhile (· == '/') (body ++ slashes j) = body := by
    rw [Text.dropEndWhile, List.reverse_append, hreverse, dropWhile_slashes,
      dropWhile_of_head (by rwa [List.head?_reverse]), List.reverse_reverse]
  rw [inner, List.append_assoc, dropWhile_slashes]
  cases body with
  | nil =>
    have hall := dropWhile_slashes j []
    rw [List.append_nil] at hall
    rw [List.nil_append, hall]
    rfl
  | cons c body => rw [List.cons_append, dropWhile_of_head (by simpa using hhead), ← List.cons_append, hend]

/-- Every path has outer slashes, perhaps none, around what neither begins nor ends in one. -/
theorem exists_inner (path : List Char) :
    ∃ i j body, path = slashes i ++ body ++ slashes j ∧ body.head? ≠ some '/' ∧
      body.getLast? ≠ some '/' := by
  have hslashes : ∀ cs : List Char, ∃ n, cs.takeWhile (· == '/') = slashes n := fun cs =>
    ⟨_, List.eq_replicate_iff.2
      ⟨rfl, fun c hc => by simpa using List.all_eq_true.1 List.all_takeWhile c hc⟩⟩
  have hhead : ∀ cs : List Char, (cs.dropWhile (· == '/')).head? ≠ some '/' := by
    intro cs heq
    have hnot := List.head?_dropWhile_not (· == '/') cs
    simp [heq] at hnot
  obtain ⟨i, hi⟩ := hslashes path
  obtain ⟨j, hj⟩ := hslashes (path.dropWhile (· == '/')).reverse
  obtain ⟨kept, hkept⟩ : ∃ kept, kept = (path.dropWhile (· == '/')).reverse.dropWhile (· == '/') :=
    ⟨_, rfl⟩
  have hrest : path.dropWhile (· == '/') = kept.reverse ++ slashes j := by
    have hsplit := List.takeWhile_append_dropWhile (p := (· == '/'))
      (l := (path.dropWhile (· == '/')).reverse)
    rw [hj, ← hkept] at hsplit
    rw [← List.reverse_reverse (path.dropWhile (· == '/')), ← hsplit, List.reverse_append, slashes,
      List.reverse_replicate]
  refine ⟨i, j, kept.reverse, ?_, ?_, ?_⟩
  · rw [List.append_assoc, ← hrest, ← hi, List.takeWhile_append_dropWhile]
  · have hfirst := hhead path
    rw [hrest] at hfirst
    cases hbody : kept.reverse with
    | nil => simp
    | cons c body => simpa [hbody] using hfirst
  · rw [List.getLast?_reverse, hkept]
    exact hhead _

theorem segments_eq (path : String) : segments path = Text.splitAt '/' (inner path.toList) := rfl

/-- **The segments of a path are its outline.** -/
theorem isOutline_segments (path : String) : IsOutline path.toList (segments path) := by
  obtain ⟨i, j, body, hpath, hhead, hlast⟩ := exists_inner path.toList
  have hinner : inner path.toList = body := by
    rw [hpath, inner_slashes hhead hlast]
  obtain ⟨hnonempty, hclear, hjoin⟩ := Text.splitAt_eq_iff.1 (segments_eq path).symm
  rw [hinner] at hjoin
  refine ⟨hnonempty, hclear, ?_, ?_, i, j, ?_⟩ <;> rw [hjoin]
  · exact hhead
  · exact hlast
  · exact hpath

/-- A path has no other outline. -/
theorem IsOutline.eq_segments {path : String} {outline : List (List Char)}
    (h : IsOutline path.toList outline) : outline = segments path := by
  obtain ⟨hnonempty, hclear, hhead, hlast, i, j, hpath⟩ := h
  rw [segments_eq, hpath, inner_slashes hhead hlast]
  exact (Text.splitAt_eq_iff.2 ⟨hnonempty, hclear, rfl⟩).symm

/-- More slashes at the ends do not change the segments. -/
theorem segments_slashes (i j : Nat) (path : String) :
    segments (String.ofList (slashes i) ++ path ++ String.ofList (slashes j)) = segments path := by
  obtain ⟨hnonempty, hclear, hhead, hlast, i', j', hpath⟩ := isOutline_segments path
  refine (IsOutline.eq_segments ⟨hnonempty, hclear, hhead, hlast, i + i', j' + j, ?_⟩).symm
  rw [String.toList_append, String.toList_append, String.toList_ofList, String.toList_ofList, hpath]
  simp only [slashes, List.replicate_add, List.append_assoc]

/-- A template of a lone `*` is one segment that takes everything. -/
theorem pathFits_eq (template path : String) :
    pathFits template path = segmentsFit (segments template) (segments path) := by
  unfold pathFits
  by_cases hstar : template = "*"
  · subst hstar
    rfl
  · simp [hstar]

/-! ## Methods -/

/-- Whether a text comes from another by lowering and raising letters. -/
def SameButCase (a b : List Char) : Prop :=
  List.Forall₂ (fun x y => y = x ∨ y = x.toLower ∨ y = x.toUpper) a b

/-- Whether a pattern lists what another lists, in some order. -/
def SameButOrder (a b : List Char) : Prop :=
  ∃ listed listed', listed ≠ [] ∧ (∀ m ∈ listed, '|' ∉ m) ∧ listed.Perm listed' ∧
    ['|'].intercalate listed = a ∧ ['|'].intercalate listed' = b

/-- What is lower case stays so. -/
theorem toLower_toLower (c : Char) : c.toLower.toLower = c.toLower := by
  unfold Char.toLower
  split
  next h =>
    rw [dif_neg]
    simp only [ge_iff_le, UInt32.le_iff_toNat_le, UInt32.toNat_add] at h ⊢
    simp at h ⊢
    omega
  next => rfl

/-- Upper and lower case of a letter fold to one. -/
theorem toLower_toUpper (c : Char) : c.toUpper.toLower = c.toLower := by
  unfold Char.toUpper
  split
  next h =>
    rw [UInt32.le_iff_toNat_le, UInt32.le_iff_toNat_le] at h
    have hval : (c.val + ('A'.val - 'a'.val)).toNat = c.val.toNat - 32 := by
      rw [UInt32.toNat_add]
      simp at h ⊢
      omega
    apply Char.ext
    unfold Char.toLower
    rw [dif_pos, dif_neg]
    · show c.val + ('A'.val - 'a'.val) + ('a'.val - 'A'.val) = c.val
      rw [UInt32.add_assoc]
      simp
    · simp only [ge_iff_le, UInt32.le_iff_toNat_le]
      simp at h ⊢
      omega
    · simp only [ge_iff_le, UInt32.le_iff_toNat_le, hval]
      simp at h ⊢
      omega
  next => rfl

/-- Lowering and raising letters does not change a text in lower case. -/
theorem SameButCase.map_toLower {a b : List Char} (h : SameButCase a b) :
    b.map Char.toLower = a.map Char.toLower := by
  induction h with
  | nil => rfl
  | cons hc _ ih =>
    rw [List.map_cons, List.map_cons, ih]
    rcases hc with rfl | rfl | rfl
    · rfl
    · rw [toLower_toLower]
    · rw [toLower_toUpper]

/-- Methods are found in any order and any mixture of cases. -/
theorem methodFits_congr {pattern pattern' method method' : String}
    (hpattern : SameButOrder pattern.toList pattern'.toList)
    (hmethod : SameButCase method.toList method'.toList) :
    methodFits pattern' method' = methodFits pattern method := by
  obtain ⟨listed, listed', hnonempty, hclear, hperm, hjoin, hjoin'⟩ := hpattern
  have hsplit : Text.splitAt '|' pattern.toList = listed :=
    Text.splitAt_eq_iff.2 ⟨hnonempty, hclear, hjoin⟩
  have hsplit' : Text.splitAt '|' pattern'.toList = listed' :=
    Text.splitAt_eq_iff.2 ⟨fun hnil => hnonempty (hnil ▸ hperm).eq_nil,
      fun m hm => hclear m (hperm.mem_iff.2 hm), hjoin'⟩
  have hlisted : (methods pattern').Perm (methods pattern) := by
    unfold methods
    rw [hsplit, hsplit']
    exact hperm.symm.map _
  unfold methodFits sameLetters
  rw [hmethod.map_toLower, hlisted.any_eq]

/-- **What fits a template, and what makes no difference.** A path fits a template just if its outline
follows the template's, and every path has exactly one outline. Slashes that are added to the ends of
either change nothing, so nor does leaving them out. Whether a rule applies where paths and methods are
compared, and what its condition is asked, depends neither on the case of the letters of the method nor on
the order in which the rule lists methods. -/
theorem pathFits_means (template path : String) :
    (pathFits template path = true ↔
        ∃ outline outline', IsOutline template.toList outline ∧ IsOutline path.toList outline' ∧
          Follows outline outline') ∧
      (∃! outline, IsOutline path.toList outline) ∧
      (∀ i j k l, pathFits (String.ofList (slashes i) ++ template ++ String.ofList (slashes j))
        (String.ofList (slashes k) ++ path ++ String.ofList (slashes l)) = pathFits template path) ∧
      ∀ (r : Rule) (q : Request) (pattern' method' : String),
        SameButOrder r.action.toList pattern'.toList →
        SameButCase q.action.name.toList method'.toList →
        Rule.probe { r with action := pattern' } .restful { q with action := ⟨method'⟩ } =
          r.probe .restful q := by
  refine ⟨?_, ?_, fun i j k l => ?_, fun r q pattern' method' hpattern hmethod => ?_⟩
  · rw [pathFits_eq, segmentsFit_iff]
    constructor
    · intro h
      exact ⟨_, _, isOutline_segments template, isOutline_segments path, h⟩
    · rintro ⟨outline, outline', houtline, houtline', h⟩
      rwa [houtline.eq_segments, houtline'.eq_segments] at h
  · exact ⟨segments path, isOutline_segments path, fun _ h => h.eq_segments⟩
  · rw [pathFits_eq, pathFits_eq, segments_slashes, segments_slashes]
  · have hfits := methodFits_congr hpattern hmethod
    unfold Rule.probe Matching.patternsFit
    simp only [hfits]
    rfl

/-- A rule on documents that lists its methods in two orders, asked by a method in two mixtures of cases. -/
theorem listed_otherwise_probed_alike :
    SameButOrder "GET|POST".toList "POST|GET".toList ∧ SameButCase "get".toList "Get".toList ∧
      Rule.probe (.allow "*" "/documents/:id" "POST|GET") .restful
          ⟨⟨"alice", .empty⟩, some (.ofId "/documents/7"), ⟨"Get"⟩, .empty⟩ =
        Rule.probe (.allow "*" "/documents/:id" "GET|POST") .restful
          ⟨⟨"alice", .empty⟩, some (.ofId "/documents/7"), ⟨"get"⟩, .empty⟩ := by
  have horder : SameButOrder "GET|POST".toList "POST|GET".toList :=
    ⟨["GET".toList, "POST".toList], ["POST".toList, "GET".toList], by decide, by decide,
      List.Perm.swap _ _ [], rfl, rfl⟩
  have hcase : SameButCase "get".toList "Get".toList :=
    .cons (.inr (.inr rfl)) (.cons (.inl rfl) (.cons (.inl rfl) .nil))
  obtain ⟨-, -, -, hprobe⟩ := pathFits_means "/documents/:id" "/documents/7"
  exact ⟨horder, hcase, hprobe (.allow "*" "/documents/:id" "GET|POST")
    ⟨⟨"alice", .empty⟩, some (.ofId "/documents/7"), ⟨"get"⟩, .empty⟩ "POST|GET" "Get" horder hcase⟩

end Clearance.Matching
