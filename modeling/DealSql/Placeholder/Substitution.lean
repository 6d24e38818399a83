import DealSql.Execution
import DealSql.Placeholder.Scan

/-!
# Substitution

The value of each placeholder in an execution, and the statement with the
values in place.  A statement is filled only when nothing is wrong with its
placeholders and all of them have a value.
-/

namespace DealSql

open DealSql.Sql

namespace Placeholder

/-- Why a statement cannot be filled. -/
inductive SubstitutionError where
  | cycle (e : Cycle.Error)
  /-- The placeholder needs a deal, and none is selected. -/
  | emptySelection (p : Placeholder)
  /-- Faults in the placeholders, in the order of the text. -/
  | grammar (faults : List Fault)
  deriving Repr, DecidableEq

/-- The wording of an error. -/
def SubstitutionError.message : SubstitutionError → String
  | .cycle e => e.message
  | .emptySelection p =>
    s!"Placeholder '{String.ofList p.name}' needs at least one selected deal"
  | .grammar faults =>
    let list := "; ".intercalate (faults.map Fault.message)
    s!"SQL contains invalid placeholders: {list}"

/-- The text of a cycle some months before the anchor. -/
def cycleText (x : Execution) (months : Nat) : Except SubstitutionError (List Char) :=
  match x.anchor.minusMonths months with
  | .ok c => .ok c.text
  | .error e => .error (.cycle e)

/-- A text that needs a selected deal. -/
def ifSelected (x : Execution) (p : Placeholder) (text : List Char) :
    Except SubstitutionError (List Char) :=
  if x.deals.isEmpty then .error (.emptySelection p) else .ok text

/-- What takes the place of a placeholder. -/
def value (d : Dialect) (x : Execution) (p : Placeholder) :
    Except SubstitutionError (List Char) :=
  match p with
  | .currentCycle => cycleText x 0
  | .previousCycle => cycleText x 1
  | .earlierCycle k => cycleText x (k.val + 2)
  | .dealFilter => ifSelected x p ((dealCondition x.dealNumbers).write d)
  | .dealTrancheFilter => ifSelected x p ((selectionCondition x.deals).write d)
  | .dealNumbers => ifSelected x p (writeList d (x.dealNumbers.map Expr.int))

/-- The error of the first placeholder without a value. -/
def firstError? (d : Dialect) (x : Execution) (ps : List Placeholder) :
    Option SubstitutionError :=
  ps.findSome? fun p => match value d x p with
    | .ok _ => none
    | .error e => some e

/-- The statement with every placeholder replaced by its value. -/
def substitute (d : Dialect) (x : Execution) (sql : List Char) :
    Except SubstitutionError (List Char) :=
  let s := scan sql
  if !s.isClean then .error (.grammar s.faults)
  else match firstError? d x s.placeholders with
    | some e => .error e
    | none => .ok (fill (fun p => (value d x p).toOption.getD []) sql)

end Placeholder

end DealSql
