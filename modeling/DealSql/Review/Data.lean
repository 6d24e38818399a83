import DealSql.Json.Basic
import DealSql.Review.Verdict

/-!
# Verdicts as data

What a caller is told about a statement, and the vocabulary of placeholders.
-/

namespace DealSql

/-- The data form of a placeholder of the vocabulary. -/
def Placeholder.toJson (p : Placeholder) : Json :=
  .object [("name", .string (String.ofList p.name)), ("category", .string p.category.name),
    ("description", .string p.description)]

/-- A verdict as data. -/
def Review.Verdict.toJson (v : Review.Verdict) : Json :=
  .object [("isValid", .bool v.isValid), ("errors", Json.strings v.errors),
    ("warnings", Json.strings v.warnings),
    ("placeholdersUsed", Json.strings (v.placeholders.map fun p => String.ofList p.name)),
    ("hasCtes", .bool v.shape.hasCtes), ("hasSubqueries", .bool v.shape.hasSubqueries),
    ("usedTables", Json.strings (v.shape.tables.map String.ofList))]

end DealSql
