import DealSql.Placeholder.Scan
import DealSql.Schema.Basic

/-!
# Issues

What can be wrong with the statement of a calculation.  Every issue belongs
to a category, and all but one category make the statement invalid.
-/

namespace DealSql.Review

/-- A column that every report of a level must select. -/
structure RequiredColumn where
  name : String
  /-- The name with its table, as users know it. -/
  qualified : String
  deriving Repr, DecidableEq

/-- What is wrong with a statement. -/
inductive Issue where
  | emptySql
  | notAQuery
  | missingFrom
  | invalidResultColumn (name : String)
  /-- The dialect does not accept the statement. -/
  | unparsable
  | missingRequiredColumn (column : RequiredColumn) (level : Level)
  | missingResultColumn (name : String)
  | placeholder (fault : Placeholder.Fault)
  | blockedKeyword (keyword : String)
  | multipleStatements
  | tooLong (length max : Nat)
  | tooManyPlaceholders (count max : Nat)
  deriving Repr, DecidableEq

/-- The kinds of issue. -/
inductive Category where
  | malformedInput
  | missingRequiredColumn
  | unknownPlaceholder
  | invalidPlaceholder
  | securityViolation
  | limitExceeded
  | missingResultColumn
  deriving Repr, DecidableEq

/-- The name of a category. -/
def Category.name : Category → String
  | .malformedInput => "malformed_input"
  | .missingRequiredColumn => "missing_required_column"
  | .unknownPlaceholder => "unknown_placeholder"
  | .invalidPlaceholder => "invalid_placeholder"
  | .securityViolation => "security_violation"
  | .limitExceeded => "limit_exceeded"
  | .missingResultColumn => "missing_result_column"

/-- Whether an issue of a category makes a statement invalid. -/
def Category.isFatal (c : Category) : Bool := c != .missingResultColumn

namespace Issue

/-- The category of an issue. -/
def category : Issue → Category
  | .emptySql => .malformedInput
  | .notAQuery => .malformedInput
  | .missingFrom => .malformedInput
  | .invalidResultColumn _ => .malformedInput
  | .unparsable => .malformedInput
  | .missingRequiredColumn .. => .missingRequiredColumn
  | .missingResultColumn _ => .missingResultColumn
  | .placeholder (.unknown ..) => .unknownPlaceholder
  | .placeholder _ => .invalidPlaceholder
  | .blockedKeyword _ => .securityViolation
  | .multipleStatements => .securityViolation
  | .tooLong .. => .limitExceeded
  | .tooManyPlaceholders .. => .limitExceeded

/-- Whether an issue makes a statement invalid. -/
def isFatal (i : Issue) : Bool := i.category.isFatal

/-- The wording of a name that is no column name. -/
def invalidResultColumnMessage (name : String) : String :=
  s!"Result column name '{name}' must start with a letter and contain only letters, " ++
    "digits and underscores"

/-- The wording of an issue. -/
def message : Issue → String
  | .emptySql => "SQL query cannot be empty"
  | .notAQuery => "SQL must start with SELECT or WITH"
  | .missingFrom => "SQL must contain a FROM clause"
  | .invalidResultColumn name => invalidResultColumnMessage name
  | .unparsable => "SQL could not be parsed: the dialect does not accept the statement"
  | .missingRequiredColumn c level =>
    s!"{level.name}-level calculations must select {c.qualified} " ++
      s!"(missing required column '{c.name}')"
  | .missingResultColumn name => s!"Result column '{name}' was not found in the SELECT list"
  | .placeholder fault => fault.message
  | .blockedKeyword keyword =>
    s!"Blocked keyword '{keyword}' is not allowed in calculation SQL"
  | .multipleStatements =>
    "Multiple SQL statements are not allowed: found ';' followed by another statement"
  | .tooLong length max => s!"SQL is {length} characters long; the maximum is {max}"
  | .tooManyPlaceholders count max =>
    s!"SQL contains {count} placeholders; the maximum is {max}"

end Issue

end DealSql.Review
