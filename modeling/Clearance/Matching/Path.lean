import Clearance.Glob
import Clearance.Text.Blank
import Clearance.Text.Split

/-!
# Paths and methods

A path template is compared with a path segment by segment, without the slashes at the ends of
either. A segment `*` takes all that is left, `:name` and `{name}` take one segment that is not
empty, and any other segment is a glob. A method pattern lists methods between bars, in any case.
-/

namespace Clearance.Matching

/-- The segments of a path between its outer slashes; an empty path is one empty segment. -/
def segments (path : String) : List (List Char) :=
  Text.splitAt '/' (Text.dropEndWhile (· == '/') (path.toList.dropWhile (· == '/')))

/-- Whether a segment of a template is a named place. -/
def isParameter (segment : List Char) : Bool :=
  segment.head? = some ':' || (segment.head? = some '\x7b' && segment.getLast? = some '\x7d')

/-- Whether a segment of a template takes a segment of a path. -/
def segmentFits (segment value : List Char) : Bool :=
  if isParameter segment then !value.isEmpty
  else Glob.accepts (String.ofList segment) (String.ofList value)

/-- Whether the segments of a template take those of a path. -/
def segmentsFit : List (List Char) → List (List Char) → Bool
  | [], [] => true
  | segment :: template, path =>
    if segment = ['*'] then true
    else
      match path with
      | value :: path => segmentFits segment value && segmentsFit template path
      | [] => false
  | [], _ :: _ => false

/-- Whether a path fits a template. -/
def pathFits (template path : String) : Bool :=
  template = "*" || segmentsFit (segments template) (segments path)

/-- Equality up to the case of ASCII letters. -/
def sameLetters (a b : List Char) : Bool := a.map Char.toLower = b.map Char.toLower

/-- The methods that a pattern lists, without the blanks around them. -/
def methods (pattern : String) : List (List Char) :=
  (Text.splitAt '|' pattern.toList).map Text.trim

/-- Whether a method is among those that a pattern lists; `*` stands for all. -/
def methodFits (pattern method : String) : Bool :=
  (methods pattern).any fun m => m = ['*'] || sameLetters m method.toList

end Clearance.Matching
