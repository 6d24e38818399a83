import DealSql.Distinct
import DealSql.Review.Position

/-!
# The shape of a statement

Whether a statement has common table expressions and nested queries, and
which tables it names after `FROM` and `JOIN`.
-/

namespace DealSql.Review

open DealSql.Text DealSql.Statement

/-- What a statement is made of. -/
structure Shape where
  hasCtes : Bool
  hasSubqueries : Bool
  /-- The tables in the order of first appearance. -/
  tables : List (List Char)
  deriving Repr, DecidableEq

/-- The shape of a statement that was not looked into. -/
def Shape.unknown : Shape := ⟨false, false, []⟩

/-- Whether a statement has more than one part. -/
def Shape.isComplex (s : Shape) : Bool := s.hasCtes || s.hasSubqueries || s.tables.length > 1

/-- Whether a nested query opens at a position that is not the body of a
common table expression. -/
def opensSubquery (p : Position) : Bool :=
  p.here.isPunct '(' && p.after.head?.any (·.isKeyword "SELECT") &&
    !(p.follows "AS" || p.follows "MATERIALIZED")

/-- A name with the parts that follow it after points. -/
def dottedName (name : List Char) : List Lexeme → List Char
  | dot :: part :: r =>
    match dot.isPunct '.', part.word? with
    | true, some w => dottedName (name ++ '.' :: w) r
    | _, _ => name
  | _ => name

/-- The table named at the start of some lexemes. -/
def tableName? : List Lexeme → Option (List Char)
  | [] => none
  | l :: r =>
    l.word?.bind fun w =>
      if isOneOf w ["LATERAL", "SELECT"] then none else some (dottedName w r)

/-- Whether a table may be named after a position. -/
def introducesTable (p : Position) : Bool :=
  p.here.isKeyword "JOIN" || (p.here.isKeyword "FROM" && p.isQueryFrom)

/-- The tables that a statement names, each once whatever its letter case. -/
def usedTables (ls : List Lexeme) : List (List Char) :=
  distinctBy foldCase
    (((positions ls).filter introducesTable).filterMap fun p => tableName? p.after)

/-- The shape of a statement. -/
def shape (ls : List Lexeme) : Shape :=
  { hasCtes := ls.head?.any (·.isKeyword "WITH")
    hasSubqueries := (positions ls).any opensSubquery
    tables := usedTables ls }

end DealSql.Review
