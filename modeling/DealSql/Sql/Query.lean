import DealSql.Sql.Expr

/-!
# Queries

A `SELECT` statement with its parts, and how it is laid out: a clause to a
line, and the selected items indented below the `SELECT`.  A part that is
not there is not written.

* `fragments_eq_comment_append` — a comment stands on a line of its own
  before the query as it would be without it.
-/

namespace DealSql.Sql

/-- A selected expression, possibly under a name of its own. -/
structure SelectItem where
  expr : Expr
  label : Option String
  deriving Repr

/-- A table joined to those before it under a condition. -/
structure Join where
  table : String
  condition : Expr
  deriving Repr

/-- A query. -/
structure Query where
  comment : Option String
  items : List SelectItem
  table : Option String
  joins : List Join
  condition : Option Expr
  grouping : List Expr
  deriving Repr

/-- The fragments of a selected item. -/
def SelectItem.fragments (i : SelectItem) : List Fragment :=
  i.expr.fragments ++ match i.label with
    | some name => [.space, .keyword .AS, .space, .identifier name]
    | none => []

/-- The fragments of a join, on a line of its own. -/
def Join.fragments (j : Join) : List Fragment :=
  [.newline, .keyword .INNER, .space, .keyword .JOIN, .space, .identifier j.table,
    .space, .keyword .ON, .space] ++ j.condition.fragments

namespace Query

/-- The query without any part. -/
def empty : Query := ⟨none, [], none, [], none, []⟩

/-- The query with one more condition, which must hold besides the others. -/
def filter (q : Query) (condition : Expr) : Query :=
  { q with condition := some (match q.condition with
    | some c => c.and condition
    | none => condition) }

/-- The query with a table joined after the others. -/
def join (q : Query) (table : String) (condition : Expr) : Query :=
  { q with joins := q.joins ++ [⟨table, condition⟩] }

/-- The fragments of the comment line. -/
def commentFragments (q : Query) : List Fragment :=
  match q.comment with
  | some text => [.comment text, .newline]
  | none => []

/-- The fragments of the selected items, each on a line of its own. -/
def itemFragments (q : Query) : List Fragment :=
  [.symbol .comma].intercalate
    (q.items.map fun i => [.newline, .indent 1] ++ i.fragments)

/-- The fragments of the `FROM` clause. -/
def tableFragments (q : Query) : List Fragment :=
  match q.table with
  | some t => [.newline, .keyword .FROM, .space, .identifier t]
  | none => []

/-- The fragments of the `WHERE` clause. -/
def conditionFragments (q : Query) : List Fragment :=
  match q.condition with
  | some c => [.newline, .keyword .WHERE, .space] ++ c.fragments
  | none => []

/-- The fragments of the `GROUP BY` clause. -/
def groupingFragments (q : Query) : List Fragment :=
  if q.grouping.isEmpty then []
  else [.newline, .keyword .GROUP_BY, .space] ++
    commaSeparated (q.grouping.map Expr.fragments)

/-- The fragments that write a query. -/
def fragments (q : Query) : List Fragment :=
  q.commentFragments ++ [.keyword .SELECT] ++ q.itemFragments ++ q.tableFragments ++
    q.joins.flatMap Join.fragments ++ q.conditionFragments ++ q.groupingFragments

/-- How a dialect writes a query. -/
def write (d : Dialect) (q : Query) : List Char := Sql.write d q.fragments

/-- A comment stands on a line of its own before the rest of the query. -/
theorem fragments_eq_comment_append (q : Query) :
    q.fragments = q.commentFragments ++ { q with comment := none }.fragments := by
  simp [fragments, commentFragments, itemFragments, tableFragments, conditionFragments,
    groupingFragments]

end Query

end DealSql.Sql
