import DealSql.Text.Alphabetic
import DealSql.Text.Numeric

/-!
# Variables of the environment

A text may refer to variables of the environment, as `${name}` or as `$name`.
It is cut into segments from left to right: a name in braces goes up to the
first closing brace or the end, a name without braces as far as it can, and
a dollar sign with no name behind it stands for itself.  Expansion puts the
value of each variable in its place; a value is not expanded again.
-/

namespace DealSql

open DealSql.Text

/-- The values of variables. -/
abbrev Environment := String → Option String

namespace Environment

/-- A piece of a text. -/
inductive Segment where
  | plain (c : Char)
  /-- A reference to a variable. -/
  | reference (name : String)
  deriving Repr, DecidableEq

/-- Whether a character may stand in a name without braces. -/
def isNameChar (c : Char) : Bool := isAlphabetic c || isNumeric c || c == '_'

/-- The segments of a text. -/
def segments : List Char → List Segment
  | [] => []
  | c :: r =>
    if c = '$' then
      if r.head? = some '\x7b' then
        let name := r.tail.takeWhile (· != '\x7d')
        .reference (String.ofList name) :: segments (r.tail.drop (name.length + 1))
      else
        let name := r.takeWhile isNameChar
        if name.isEmpty then .plain c :: segments r
        else .reference (String.ofList name) :: segments (r.drop name.length)
    else .plain c :: segments r
termination_by s => s.length
decreasing_by all_goals simp only [List.length_cons, List.length_drop, List.length_tail]; omega

/-- The variable that a segment refers to. -/
def Segment.name? : Segment → Option String
  | .plain _ => none
  | .reference name => some name

/-- The variables that a text refers to. -/
def references (s : List Char) : List String := (segments s).filterMap Segment.name?

/-- A variable without a value. -/
structure Missing where
  name : String
  deriving Repr, DecidableEq

/-- The wording of a variable without a value. -/
def Missing.message (e : Missing) : String := s!"Missing environment variable: {e.name}"

/-- What stands for a segment. -/
def valueOf (env : Environment) : Segment → Except Missing (List Char)
  | .plain c => .ok [c]
  | .reference name =>
    match env name with
    | some v => .ok v.toList
    | none => .error ⟨name⟩

/-- A text with every reference replaced; the first missing variable counts. -/
def expand (env : Environment) (s : List Char) : Except Missing (List Char) :=
  ((segments s).mapM (valueOf env)).map List.flatten

end Environment

end DealSql
