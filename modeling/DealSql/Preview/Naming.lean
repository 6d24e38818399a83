import DealSql.Text.Alphabetic
import DealSql.Text.Lowercase
import DealSql.Text.Numeric
import DealSql.Text.Bytes

/-!
# Names of result columns

The column of a preview that holds the result is named after the
calculation: in snake case, in ASCII, and never beginning with a digit.

Where a word begins inside a run of letters is found from the characters
around: a character that is no small letter of ASCII begins one when a
lowercase character stands next to it.  The neighbours are looked up in the
name by the byte position of the character, so that in a name with wide
characters they lie further on.
-/

namespace DealSql.Preview

open DealSql.Text

/-- Whether a character is alphabetic or numeric. -/
def isAlphanumeric (c : Char) : Bool := isAlphabetic c || isNumeric c

/-- Whether the character with a number in a name is lowercase. -/
def lowercaseAt (name : List Char) (n : Nat) : Bool := (name[n]?).any isLowercase

/-- Whether a character at a byte position of a name begins a word. -/
def beginsWord (name : List Char) (position : Nat) (c : Char) : Bool :=
  c.toUpper == c && (lowercaseAt name (position + 1) || lowercaseAt name (position - 1))

/-- The snake case of the rest of a name that begins at a byte position.
At a boundary no word has begun since the last underscore. -/
def snakeFrom (name : List Char) (boundary : Bool) (position : Nat) : List Char → List Char
  | [] => []
  | c :: r =>
    let next := position + c.utf8Size
    if !isAlphanumeric c then
      if boundary then snakeFrom name true next r else '_' :: snakeFrom name true next r
    else if !boundary && beginsWord name position c then
      '_' :: c.toLower :: snakeFrom name false next r
    else c.toLower :: snakeFrom name false next r

/-- A text without the trailing characters that satisfy a test. -/
def dropTrailing (p : Char → Bool) (s : List Char) : List Char :=
  (s.reverse.dropWhile p).reverse

/-- The snake case of a name. -/
def snakeCase (name : List Char) : List Char :=
  snakeFrom name true 0 (dropTrailing (fun c => !isAlphanumeric c) name)

/-- Whether a character may stand in a column name. -/
def isColumnChar (c : Char) : Bool := c.isAlphanum || c == '_'

/-- The column name where nothing of the calculation's name is left. -/
def defaultColumn : List Char := "calculation_result".toList

/-- The name of the result column of a calculation. -/
def resultColumn (name : List Char) : List Char :=
  let kept := (snakeCase name).filter isColumnChar
  let core := dropTrailing (· == '_') (kept.dropWhile (· == '_'))
  match core with
  | [] => defaultColumn
  | c :: _ => if c.isDigit then "calc_".toList ++ core else core

end DealSql.Preview
