import DealSql.Schema.Basic
import DealSql.Text.Blank

/-!
# Calculations

A calculation is defined in one of three ways: a user chooses a field and a
function, a field is reported as it is, or an administrator writes the
statement.  Fields may still be missing while a definition is edited; a
blank one counts as missing.
-/

namespace DealSql

open DealSql.Text

/-- A text without the blanks at its ends, unless it is missing or blank. -/
def given? (s : Option String) : Option String :=
  s.bind fun t => (nonBlank? t.toList).map String.ofList

/-- An aggregation of a field that a user has chosen. -/
structure Aggregation where
  name : String
  description : String
  source : Source
  sourceField : Option String
  function : Option Function
  weightField : Option String
  level : Level
  deriving Repr, DecidableEq

/-- The field to aggregate. -/
def Aggregation.field? (a : Aggregation) : Option String := given? a.sourceField

/-- The field with the weights. -/
def Aggregation.weight? (a : Aggregation) : Option String := given? a.weightField

/-- A field reported as it is. -/
structure ReportedField where
  name : String
  source : Source
  sourceField : Option String
  level : Level
  deriving Repr, DecidableEq

/-- The field to report. -/
def ReportedField.field? (f : ReportedField) : Option String := given? f.sourceField

/-- A statement that an administrator has written. -/
structure CustomSql where
  name : String
  description : String
  sql : String
  resultColumn : String
  level : Level
  deriving Repr, DecidableEq

/-- The definition of a calculation. -/
inductive Calculation where
  | aggregation (a : Aggregation)
  | field (f : ReportedField)
  | custom (s : CustomSql)
  deriving Repr, DecidableEq

namespace Calculation

/-- The name of a calculation. -/
def name : Calculation → String
  | .aggregation a => a.name
  | .field f => f.name
  | .custom s => s.name

/-- What a calculation groups by. -/
def level : Calculation → Level
  | .aggregation a => a.level
  | .field f => f.level
  | .custom s => s.level

/-- Where the value of a calculation comes from, unless a statement says so. -/
def source? : Calculation → Option Source
  | .aggregation a => some a.source
  | .field f => some f.source
  | .custom _ => none

/-- The field that a calculation is about. -/
def field? : Calculation → Option String
  | .aggregation a => a.field?
  | .field f => f.field?
  | .custom _ => none

/-- The field with the weights of a calculation. -/
def weight? : Calculation → Option String
  | .aggregation a => a.weight?
  | _ => none

/-- The name in data of the way in which a calculation is defined. -/
def kind : Calculation → String
  | .aggregation _ => "user_aggregation"
  | .field _ => "system_field"
  | .custom _ => "system_sql"

end Calculation

end DealSql
