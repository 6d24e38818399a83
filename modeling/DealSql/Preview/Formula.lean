import DealSql.Calculation

/-!
# Formulas

A calculation in one line, with its fields written as `Source.field`.
-/

namespace DealSql.Preview

/-- The formula where something is still missing. -/
def incompleteFormula : String := "Not enough information to generate formula"

/-- A field of a source. -/
def qualified (s : Source) (field : String) : String := s!"{s.name}.{field}"

/-- The formula of a weighted average: no weight at all gives no value. -/
def weightedFormula (value weight : String) : String :=
  s!"SUM({value} * {weight}) / NULLIF(SUM({weight}), 0)"

/-- The formula of an aggregation, once it is complete. -/
def aggregationFormula? (a : Aggregation) : Option String := do
  let function ← a.function
  let value := qualified a.source (← a.field?)
  if function.requiresWeight then
    return weightedFormula value (qualified a.source (← a.weight?))
  else
    return s!"{function.name}({value})"

/-- The formula of a calculation. -/
def formula : Calculation → String
  | .field f =>
    match f.field? with
    | some name => qualified f.source name
    | none => incompleteFormula
  | .custom s =>
    match given? (some s.resultColumn) with
    | some column => s!"Custom SQL returning {column}"
    | none => "Custom SQL calculation"
  | .aggregation a => (aggregationFormula? a).getD incompleteFormula

end DealSql.Preview
