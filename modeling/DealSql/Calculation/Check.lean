import DealSql.Calculation
import DealSql.Review.Verdict
import DealSql.Schema.Catalog

/-!
# Checking calculations

What keeps a calculation from being saved: parts that are missing, parts
that the catalog does not list, fields without numbers where numbers are
needed, and a statement that does not pass its review.  All faults are
reported, in the order of the parts.  Nothing more is said about a source
that is not listed.
-/

namespace DealSql.Calculation

open DealSql.Text

/-- What is wrong with a calculation. -/
inductive Fault where
  | missingName
  | unknownSource (source : Source)
  | unknownField (source : Source) (field : String)
  | missingField
  | missingFunction
  | missingWeight
  | unexpectedWeight (function : Function)
  | nonNumericField (function : Function) (source : Source) (field : String)
  | unknownLevel (level : Level)
  | invalidResultColumn (name : String)
  /-- The wordings of what the review found. -/
  | invalidSql (findings : List String)
  deriving Repr, DecidableEq

/-- The wording of a fault. -/
def Fault.message : Fault → String
  | .missingName => "Calculation name is required"
  | .unknownSource s => s!"Source model {s.name} is not in the catalog"
  | .unknownField s name => s!"Field '{name}' does not exist on {s.name}"
  | .missingField => "A source field is required"
  | .missingFunction => "An aggregation function is required"
  | .missingWeight => "WEIGHTED_AVG requires a weight field"
  | .unexpectedWeight f => s!"A weight field is only used with WEIGHTED_AVG, not {f.name}"
  | .nonNumericField f s name =>
    s!"{f.name} requires a numeric field, but {s.name}.{name} is not numeric"
  | .unknownLevel l => s!"Group level '{l.name}' is not in the catalog"
  | .invalidResultColumn name => Review.Issue.invalidResultColumnMessage name
  | .invalidSql findings => "SQL failed validation: " ++ "; ".intercalate findings

/-- A listed field, and numbers where a function needs them. -/
def fieldFaults (c : Catalog) (s : Source) (numbersFor : Option Function) (name : String) :
    List Fault :=
  match c.field? s name, numbersFor with
  | none, _ => [.unknownField s name]
  | some e, some f => if e.type.isNumeric then [] else [.nonNumericField f s name]
  | some _, none => []

/-- The function of an aggregation, if the catalog wants numbers for it. -/
def numericFunction? (c : Catalog) (a : Aggregation) : Option Function :=
  a.function.filter fun f => (c.function? f).any FunctionEntry.numericOnly

/-- A weighted average has a field of numbers as its weights, and nothing
else has weights. -/
def weightFaults (c : Catalog) (a : Aggregation) : List Fault :=
  match a.function, a.weight? with
  | some .weightedAvg, none => [.missingWeight]
  | some .weightedAvg, some w => fieldFaults c a.source (some .weightedAvg) w
  | some f, some _ => [.unexpectedWeight f]
  | _, _ => []

/-- The faults of an aggregation. -/
def aggregationFaults (c : Catalog) (a : Aggregation) : List Fault :=
  if (c.source? a.source).isNone then [.unknownSource a.source]
  else
    (if a.function.isNone then [.missingFunction] else []) ++
    (match a.field? with
      | none => [.missingField]
      | some name => fieldFaults c a.source (numericFunction? c a) name) ++
    weightFaults c a

/-- The faults of a reported field. -/
def reportedFieldFaults (c : Catalog) (f : ReportedField) : List Fault :=
  if (c.source? f.source).isNone then [.unknownSource f.source]
  else match f.field? with
    | none => [.missingField]
    | some name => fieldFaults c f.source none name

/-- Whether an issue is about the name of the result, which has a fault of
its own. -/
def isResultColumnIssue : Review.Issue → Bool
  | .invalidResultColumn _ => true
  | _ => false

/-- The faults of a statement as a parser reads it, under the usual options of
a review. -/
def customFaultsWith (parser : Review.Parser) (s : CustomSql) : List Fault :=
  let column := String.ofList (trim s.resultColumn.toList)
  let verdict := Review.reviewWith parser .standard s.sql.toList s.level column
  let findings := (verdict.issues.filter fun i => i.isFatal && !isResultColumnIssue i).map
    Review.Issue.message
  (if Review.isResultColumn column.toList then [] else [.invalidResultColumn column]) ++
  (if findings.isEmpty then [] else [.invalidSql findings])

/-- The faults of a calculation, its statement as a parser reads it. -/
def faultsWith (parser : Review.Parser) (c : Catalog) (x : Calculation) : List Fault :=
  (if (trim x.name.toList).isEmpty then [.missingName] else []) ++
  (if c.hasLevel x.level then [] else [.unknownLevel x.level]) ++
  match x with
  | .aggregation a => aggregationFaults c a
  | .field f => reportedFieldFaults c f
  | .custom s => customFaultsWith parser s

/-- The faults of a calculation. -/
def faults (c : Catalog) (x : Calculation) : List Fault := x.faultsWith .standard c

end DealSql.Calculation
