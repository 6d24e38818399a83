import DealSql.Execution
import DealSql.Json.Basic

/-!
# Executions as data

An execution is an object with the code of its cycle and the list of its
deals.  The list may be left out, the tranches of a deal may be left out or
null; numbers are integers of 64 bits.
-/

namespace DealSql

open DealSql.Text

/-- An integer of 64 bits. -/
def Json.int64? : Json → Option Int
  | .integer n => if fitsInt64 n then some n else none
  | _ => none

/-- A list of strings. -/
def Json.strings? : Json → Option (List String) := Json.listOf? Json.string?

namespace DealSelection

/-- A selection as data. -/
def toJson (s : DealSelection) : Json :=
  .object [("deal_number", .integer s.dealNumber),
    ("tranche_ids", (s.trancheIds.map Json.strings).getD .null)]

/-- The selection that data give. -/
def ofJson? (v : Json) : Option DealSelection := do
  let ms ← v.record? ["deal_number", "tranche_ids"]
  return { dealNumber := ← (← ms.require "deal_number").int64?
           trancheIds := ← ms.optional "tranche_ids" Json.strings? }

end DealSelection

namespace Execution

/-- An execution as data. -/
def toJson (x : Execution) : Json :=
  .object [("anchor_cycle", .integer x.anchor.code),
    ("deals", .array (x.deals.map DealSelection.toJson))]

/-- The execution that data give. -/
def ofJson? (v : Json) : Option Execution := do
  let ms ← v.record? ["anchor_cycle", "deals"]
  let code ← (← ms.require "anchor_cycle").int64?
  let anchor ← (Cycle.ofCode code).toOption
  let deals ← ms.orElse "deals" (Json.listOf? DealSelection.ofJson?) []
  return { anchor, deals }

end Execution

end DealSql
