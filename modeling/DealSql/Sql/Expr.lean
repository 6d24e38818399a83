import DealSql.Sql.Fragment

/-!
# Expressions

The expressions of which queries are built, and the fragments that write
them.  A binary expression is written without parentheses around it, so
where the grouping matters the expression says so with `paren`.

A test of membership in an empty list has no written form of its own: it is
written as the truth value that it has.

* `fragmentsOfEach_eq` — the elements of a list are written one by one.
-/

namespace DealSql.Sql

/-- A literal value. -/
inductive Literal where
  | integer (n : Int)
  | string (s : String)
  | truth (b : Bool)
  | null
  deriving Repr, DecidableEq

/-- A binary operator. -/
inductive BinaryOp where
  | eq
  | ne
  | lt
  | gt
  | le
  | ge
  | and
  | or
  | plus
  | minus
  | times
  | over
  deriving Repr, DecidableEq

/-- An expression. -/
inductive Expr where
  /-- A column, possibly of a named table. -/
  | column (table : Option String) (name : String)
  | literal (value : Literal)
  | binary (left : Expr) (op : BinaryOp) (right : Expr)
  | call (function : String) (args : List Expr) (distinct : Bool)
  | member (e : Expr) (values : List Expr) (negated : Bool)
  /-- All columns, possibly of a named table. -/
  | star (table : Option String)
  | paren (e : Expr)
  deriving Repr

/-- The fragment of a literal. -/
def Literal.fragment : Literal → Fragment
  | .integer n => .integer n
  | .string s => .string s
  | .truth b => .truth b
  | .null => .keyword .NULL

/-- The fragment of an operator. -/
def BinaryOp.fragment : BinaryOp → Fragment
  | .eq => .symbol .eq
  | .ne => .symbol .ne
  | .lt => .symbol .lt
  | .gt => .symbol .gt
  | .le => .symbol .le
  | .ge => .symbol .ge
  | .and => .keyword .AND
  | .or => .keyword .OR
  | .plus => .symbol .plus
  | .minus => .symbol .minus
  | .times => .symbol .times
  | .over => .symbol .over

/-- The parts of a list with a comma and a space between them. -/
def commaSeparated (parts : List (List Fragment)) : List Fragment :=
  [.symbol .comma, .space].intercalate parts

/-- A comma-separated list in parentheses. -/
def parenthesized (parts : List (List Fragment)) : List Fragment :=
  .symbol .openParen :: commaSeparated parts ++ [.symbol .closeParen]

/-- The table before a column, if one is named. -/
def qualifier : Option String → List Fragment
  | none => []
  | some t => [.identifier t, .symbol .dot]

namespace Expr

mutual

/-- The fragments that write an expression. -/
def fragments : Expr → List Fragment
  | .column table name => qualifier table ++ [.identifier name]
  | .literal v => [v.fragment]
  | .binary l op r => l.fragments ++ [.space, op.fragment, .space] ++ r.fragments
  | .call function args distinct =>
    [.function function, .symbol .openParen] ++
      (if distinct then [.keyword .DISTINCT, .space] else []) ++
      commaSeparated (fragmentsOfEach args) ++ [.symbol .closeParen]
  | .member e values negated =>
    if values.isEmpty then [.keyword (if negated then .TRUE else .FALSE)]
    else e.fragments ++ (if negated then [.space, .keyword .NOT] else []) ++
      [.space, .keyword .IN, .space] ++ parenthesized (fragmentsOfEach values)
  | .star table => qualifier table ++ [.symbol .star]
  | .paren e => .symbol .openParen :: e.fragments ++ [.symbol .closeParen]

/-- The fragments of each expression of a list. -/
def fragmentsOfEach : List Expr → List (List Fragment)
  | [] => []
  | e :: es => e.fragments :: fragmentsOfEach es

end

/-- The elements of a list are written one by one. -/
theorem fragmentsOfEach_eq (es : List Expr) : fragmentsOfEach es = es.map fragments := by
  induction es with
  | nil => rfl
  | cons e es ih => simp [fragmentsOfEach, ih]

/-- How a dialect writes an expression. -/
def write (d : Dialect) (e : Expr) : List Char := Sql.write d e.fragments

/-- A column of a table. -/
def ofTable (table column : String) : Expr := .column (some table) column

/-- An integer. -/
def int (n : Int) : Expr := .literal (.integer n)

/-- A string. -/
def str (s : String) : Expr := .literal (.string s)

/-- Equality. -/
def equals (l r : Expr) : Expr := .binary l .eq r

/-- Conjunction. -/
def and (l r : Expr) : Expr := .binary l .and r

/-- Disjunction. -/
def or (l r : Expr) : Expr := .binary l .or r

/-- Membership in a list. -/
def isIn (e : Expr) (values : List Expr) : Expr := .member e values false

/-- A function applied to its arguments. -/
def apply (function : String) (args : List Expr) : Expr := .call function args false

end Expr

/-- How a dialect writes a parenthesized list of expressions. -/
def writeList (d : Dialect) (es : List Expr) : List Char :=
  write d (parenthesized (es.map Expr.fragments))

end DealSql.Sql
