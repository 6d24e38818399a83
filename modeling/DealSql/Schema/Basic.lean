import DealSql.Text.Case

/-!
# The reporting schema

Deals consist of tranches, and each tranche has balances by cycle.  These
are the sources of values; a report groups by deal or by tranche.  Values
are aggregated by one of six functions, and fields have types, some of
which are numbers.
-/

namespace DealSql

open DealSql.Text

/-- Where a value comes from. -/
inductive Source where
  | deal
  | tranche
  | trancheBal
  deriving Repr, DecidableEq, Inhabited

namespace Source

/-- All sources. -/
def all : List Source := [.deal, .tranche, .trancheBal]

/-- The name of a source. -/
def name : Source → String
  | .deal => "Deal"
  | .tranche => "Tranche"
  | .trancheBal => "TrancheBal"

/-- The table that holds a source. -/
def table : Source → String
  | .deal => "deal"
  | .tranche => "tranche"
  | .trancheBal => "tranchebal"

/-- Whether a deal may have several rows. -/
def isTrancheScoped (s : Source) : Bool := s != .deal

/-- The source with a name exactly as written in data. -/
def ofName? (s : String) : Option Source := all.find? fun x => x.name == s

/-- The source that a user names, or whose table a user names, in any
letter case. -/
def parse? (s : String) : Option Source :=
  all.find? fun x => isOneOf s.toList [x.name, x.table]

/-- The wording where no source is meant. -/
def unknownMessage (s : String) : String := s!"unknown source model '{s}'"

end Source

/-- What a report groups by. -/
inductive Level where
  | deal
  | tranche
  deriving Repr, DecidableEq, Inhabited

namespace Level

/-- All levels. -/
def all : List Level := [.deal, .tranche]

/-- The name of a level. -/
def name : Level → String
  | .deal => "deal"
  | .tranche => "tranche"

/-- The level with a name exactly as written in data. -/
def ofName? (s : String) : Option Level := all.find? fun x => x.name == s

/-- The level that a user names, in any letter case. -/
def parse? (s : String) : Option Level :=
  all.find? fun x => isOneOf s.toList [x.name]

/-- The wording where no level is meant. -/
def unknownMessage (s : String) : String :=
  s!"unknown group level '{String.ofList (foldCase s.toList)}'"

end Level

/-- How values are aggregated. -/
inductive Function where
  | sum
  | avg
  | count
  | min
  | max
  | weightedAvg
  deriving Repr, DecidableEq, Inhabited

namespace Function

/-- All functions. -/
def all : List Function := [.sum, .avg, .count, .min, .max, .weightedAvg]

/-- The name of a function. -/
def name : Function → String
  | .sum => "SUM"
  | .avg => "AVG"
  | .count => "COUNT"
  | .min => "MIN"
  | .max => "MAX"
  | .weightedAvg => "WEIGHTED_AVG"

/-- The function with a name exactly as written in data. -/
def ofName? (s : String) : Option Function := all.find? fun x => x.name == s

/-- Whether a function needs a second field for the weights. -/
def requiresWeight (f : Function) : Bool := f == .weightedAvg

end Function

/-- What the values of a field are. -/
inductive FieldType where
  | string
  | integer
  | decimal
  | currency
  | percentage
  | date
  | boolean
  deriving Repr, DecidableEq, Inhabited

namespace FieldType

/-- All types. -/
def all : List FieldType :=
  [.string, .integer, .decimal, .currency, .percentage, .date, .boolean]

/-- The name of a type. -/
def name : FieldType → String
  | .string => "string"
  | .integer => "integer"
  | .decimal => "decimal"
  | .currency => "currency"
  | .percentage => "percentage"
  | .date => "date"
  | .boolean => "boolean"

/-- The type with a name exactly as written in data. -/
def ofName? (s : String) : Option FieldType := all.find? fun x => x.name == s

/-- Whether the values are numbers. -/
def isNumeric : FieldType → Bool
  | .integer => true
  | .decimal => true
  | .currency => true
  | .percentage => true
  | _ => false

end FieldType

end DealSql
