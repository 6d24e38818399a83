import DealSql.Calculation
import DealSql.Execution
import DealSql.Preview.Naming
import DealSql.Sql.Query

/-!
# Preview queries

The query that shows what a calculation would report, on a sample of deals.
The tables it joins follow from the source and the level; it selects the
keys of the report and the result, and groups an aggregation by the keys.
-/

namespace DealSql.Preview

open DealSql.Sql

/-- What a preview is written for. -/
structure Options where
  dialect : Dialect
  deals : List Int
  tranches : List String
  cycle : Option Int
  deriving Repr, DecidableEq

/-- The usual sample. -/
def Options.standard : Options :=
  { dialect := .postgres
    deals := [101, 102, 103]
    tranches := ["A", "B"]
    cycle := some 202404 }

/-- The text of a preview where something is still missing. -/
def incompleteQuery : String := "-- Not enough information to generate SQL"

/-- The comment above every preview. -/
def comment : String := "Preview query: sample filters, not the production execution path"

/-- The tables that a query joins to the deals. -/
structure Joins where
  tranche : Bool
  trancheBal : Bool
  deriving Repr, DecidableEq

namespace Joins

/-- The tables that a source and a level need. -/
def forSource (s : Source) (l : Level) : Joins :=
  { tranche := s == .trancheBal || s == .tranche || l == .tranche
    trancheBal := s == .trancheBal }

/-- The sources of the query, in the order in which they are joined. -/
def sources (j : Joins) : List Source :=
  [.deal] ++ (if j.tranche then [.tranche] else []) ++
    (if j.trancheBal then [.trancheBal] else [])

/-- The columns that identify a row of a report. -/
def keys (j : Joins) (l : Level) : List Expr :=
  [Columns.dealNumber] ++ (if l = .tranche then [Columns.trancheId] else []) ++
    (if j.trancheBal then [Columns.cycle] else [])

end Joins

/-- The condition that two tables agree on a column. -/
def agree (a b : Source) (column : String) : Expr :=
  (Columns.column a column).equals (Columns.column b column)

/-- The joins of a query. -/
def joinList (j : Joins) : List Join :=
  (if j.tranche then
    [⟨Source.tranche.table, agree .deal .tranche Columns.dealNumberName⟩] else []) ++
  (if j.trancheBal then
    [⟨Source.trancheBal.table, (agree .tranche .trancheBal Columns.dealNumberName).and
      (agree .tranche .trancheBal Columns.trancheIdName)⟩] else [])

/-- The conditions that restrict a query to the sample. -/
def sampleConditions (j : Joins) (o : Options) : List Expr :=
  (if o.deals.isEmpty then [] else [dealCondition o.deals]) ++
  (if j.tranche && !o.tranches.isEmpty then [trancheCondition o.tranches] else []) ++
  (match o.cycle with
    | some c => if j.trancheBal then
        [Columns.cycle.equals (.int c)] else []
    | none => [])

/-- The value of an aggregation, once it is complete. -/
def aggregate? (a : Aggregation) : Option Expr := do
  let value := Columns.column a.source (← a.field?)
  match ← a.function with
  | .weightedAvg =>
    let weight := Columns.column a.source (← a.weight?)
    return .binary (.apply "SUM" [.binary value .times weight]) .over
      (.apply "NULLIF" [.apply "SUM" [weight], .int 0])
  | function => return .apply function.name [value]

/-- The query of a result with a name. -/
def queryOf (name : String) (s : Source) (l : Level) (measure : Expr) (grouped : Bool)
    (o : Options) : Query :=
  let joins := Joins.forSource s l
  let keys := joins.keys l
  let label := String.ofList (resultColumn name.toList)
  let base : Query :=
    { comment := some comment
      items := keys.map (⟨·, none⟩) ++ [⟨measure, some label⟩]
      table := some Source.deal.table
      joins := joinList joins
      condition := none
      grouping := if grouped then keys else [] }
  (sampleConditions joins o).foldl Query.filter base

/-- The preview query of a calculation, once its definition is complete.
A statement is its own preview and has none. -/
def query? (o : Options) : Calculation → Option Query
  | .custom _ => none
  | .field f => do
    let field ← f.field?
    return queryOf f.name f.source f.level (Columns.column f.source field) false o
  | .aggregation a => do
    let measure ← aggregate? a
    return queryOf a.name a.source a.level measure true o

/-- The text of the preview of a calculation. -/
def sql (o : Options) (c : Calculation) : String :=
  match c with
  | .custom s => (given? (some s.sql)).getD incompleteQuery
  | _ => match query? o c with
    | some q => String.ofList (q.write o.dialect)
    | none => incompleteQuery

end DealSql.Preview
