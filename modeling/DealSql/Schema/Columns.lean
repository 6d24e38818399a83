import DealSql.Schema.Basic
import DealSql.Sql.Expr

/-!
# Columns

The columns by which the tables are joined and reports are grouped.
-/

namespace DealSql.Columns

open DealSql.Sql

/-- The name of the column with the number of a deal. -/
def dealNumberName : String := "dl_nbr"

/-- The name of the column with the identifier of a tranche within its deal. -/
def trancheIdName : String := "tr_id"

/-- The name of the column with the cycle of a balance. -/
def cycleName : String := "cycle_cde"

/-- A column of the table of a source. -/
def column (s : Source) (name : String) : Expr := .ofTable s.table name

/-- The number of a deal. -/
def dealNumber : Expr := column .deal dealNumberName

/-- The identifier of a tranche. -/
def trancheId : Expr := column .tranche trancheIdName

/-- The cycle of a balance. -/
def cycle : Expr := column .trancheBal cycleName

end DealSql.Columns
