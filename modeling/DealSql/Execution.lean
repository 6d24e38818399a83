import DealSql.Cycle
import DealSql.Schema.Columns

/-!
# Executions

What a run of a calculation is asked for: a cycle, and the selected deals
with the tranches selected in each.  A deal without a selection of tranches
stands for all of them.

The conditions on deals and tranches are written so that they can stand in
any condition: the list of selected tranches is one disjunction in
parentheses, and so is each of its terms.
-/

namespace DealSql

/-- A selected deal, and possibly the tranches selected within it. -/
structure DealSelection where
  dealNumber : Int
  trancheIds : Option (List String)
  deriving Repr, DecidableEq

/-- The selected tranches; none stand for all. -/
def DealSelection.tranches (s : DealSelection) : List String := s.trancheIds.getD []

/-- What a run is asked for. -/
structure Execution where
  anchor : Cycle
  deals : List DealSelection
  deriving Repr, DecidableEq

open Sql

/-- The condition that the deal is one of those with the given numbers. -/
def dealCondition (numbers : List Int) : Expr := Columns.dealNumber.isIn (numbers.map Expr.int)

/-- The condition that the tranche is one of those with the given identifiers. -/
def trancheCondition (ids : List String) : Expr := Columns.trancheId.isIn (ids.map Expr.str)

/-- The condition that a row belongs to a selection. -/
def DealSelection.condition (s : DealSelection) : Expr :=
  let deal := Columns.dealNumber.equals (.int s.dealNumber)
  .paren (if s.tranches.isEmpty then deal else deal.and (trancheCondition s.tranches))

/-- The condition that a row belongs to one of the selections. -/
def selectionCondition (deals : List DealSelection) : Expr :=
  .paren (match deals.map DealSelection.condition with
    | [] => dealCondition []
    | t :: ts => ts.foldl Expr.or t)

/-- The numbers of the selected deals, in the order of selection. -/
def Execution.dealNumbers (x : Execution) : List Int := x.deals.map DealSelection.dealNumber

end DealSql
