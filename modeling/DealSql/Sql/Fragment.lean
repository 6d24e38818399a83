import DealSql.Dialect
import DealSql.Text.Integer
import DealSql.Text.Lines
import DealSql.Text.Uppercase

/-!
# Fragments

The pieces of which statements are written: keywords and symbols, blanks,
and the names, values and comments that each dialect writes in its own way.
A statement is a list of fragments, written one after another.

* `write_append` — a list of fragments is written part by part.
-/

namespace DealSql.Sql

open DealSql.Text

/-- A keyword. -/
inductive Keyword where
  | SELECT
  | FROM
  | WHERE
  | AND
  | OR
  | NOT
  | AS
  | ON
  | JOIN
  | INNER
  | GROUP_BY
  | IN
  | DISTINCT
  | TRUE
  | FALSE
  | NULL
  deriving Repr, DecidableEq

/-- How a keyword is written. -/
def Keyword.text : Keyword → String
  | .SELECT => "SELECT"
  | .FROM => "FROM"
  | .WHERE => "WHERE"
  | .AND => "AND"
  | .OR => "OR"
  | .NOT => "NOT"
  | .AS => "AS"
  | .ON => "ON"
  | .JOIN => "JOIN"
  | .INNER => "INNER"
  | .GROUP_BY => "GROUP BY"
  | .IN => "IN"
  | .DISTINCT => "DISTINCT"
  | .TRUE => "TRUE"
  | .FALSE => "FALSE"
  | .NULL => "NULL"

/-- A mark of punctuation or an operator. -/
inductive Symbol where
  | comma
  | dot
  | star
  | openParen
  | closeParen
  | eq
  | ne
  | lt
  | gt
  | le
  | ge
  | plus
  | minus
  | times
  | over
  deriving Repr, DecidableEq

/-- How a symbol is written. -/
def Symbol.text : Symbol → String
  | .comma => ","
  | .dot => "."
  | .star => "*"
  | .openParen => "("
  | .closeParen => ")"
  | .eq => "="
  | .ne => "<>"
  | .lt => "<"
  | .gt => ">"
  | .le => "<="
  | .ge => ">="
  | .plus => "+"
  | .minus => "-"
  | .times => "*"
  | .over => "/"

/-- A piece of a statement. -/
inductive Fragment where
  | keyword (k : Keyword)
  | symbol (s : Symbol)
  | space
  | newline
  /-- Two spaces for every level. -/
  | indent (levels : Nat)
  | identifier (name : String)
  | integer (n : Int)
  | string (s : String)
  | truth (b : Bool)
  /-- The name of a function, written in upper case. -/
  | function (name : String)
  /-- A comment to the end of the line, its own lines joined by spaces. -/
  | comment (text : String)
  deriving Repr, DecidableEq

/-- How a dialect writes a fragment. -/
def Fragment.write (d : Dialect) : Fragment → List Char
  | .keyword k => k.text.toList
  | .symbol s => s.text.toList
  | .space => [' ']
  | .newline => ['\n']
  | .indent n => List.replicate (2 * n) ' '
  | .identifier name => d.quoteIdentifier name.toList
  | .integer n => Text.integer n
  | .string s => d.quoteString s.toList
  | .truth b => d.truth b
  | .function name => upper name.toList
  | .comment text => "-- ".toList ++ flatten text.toList

/-- How a dialect writes a list of fragments. -/
def write (d : Dialect) (fs : List Fragment) : List Char := fs.flatMap (Fragment.write d)

/-- A list of fragments is written part by part. -/
@[simp] theorem write_append (d : Dialect) (a b : List Fragment) :
    write d (a ++ b) = write d a ++ write d b := by simp [write]

end DealSql.Sql
