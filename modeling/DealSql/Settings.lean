import DealSql.Preview.Query
import DealSql.Review.Verdict

/-!
# Settings

What an installation sets: the sample of its previews, the limits of its
reviews, and where its catalog is.  Whatever is not set has a usual value.
-/

namespace DealSql

/-- What an installation sets. -/
structure Settings where
  preview : Preview.Options
  /-- The greatest number of characters of a statement. -/
  maxLength : Nat
  /-- The greatest number of placeholders of a statement. -/
  maxPlaceholders : Nat
  /-- Whether the dialect of the previews must accept a statement. -/
  strict : Bool
  /-- Where the catalog is, with references to variables of the environment. -/
  catalogPath : Option String
  deriving Repr, DecidableEq

namespace Settings

/-- The usual settings, with the standard catalog. -/
def standard : Settings :=
  { preview := .standard
    maxLength := Review.Options.standard.maxLength
    maxPlaceholders := Review.Options.standard.maxPlaceholders
    strict := Review.Options.standard.strict
    catalogPath := none }

/-- The options of a review under the settings. -/
def review (s : Settings) : Review.Options :=
  { maxLength := s.maxLength
    maxPlaceholders := s.maxPlaceholders
    strict := s.strict
    dialect := s.preview.dialect }

/-- Settings that cannot be used. -/
inductive Unusable where
  | zeroLength
  | sampleCycle (code : Int)
  deriving Repr, DecidableEq

/-- What makes settings unusable. -/
def Unusable.reason : Unusable → String
  | .zeroLength => "validator.max_sql_length must be greater than zero"
  | .sampleCycle code => s!"preview.sample_cycle {code} is not a YYYYMM cycle code"

/-- Whether an integer looks like the code of a cycle: a month behind at
least one further digit. -/
def isCycleCode (n : Int) : Bool := 100 ≤ n && 1 ≤ n % 100 && n % 100 ≤ 12

/-- What makes settings unusable, if anything does. -/
def unusable? (s : Settings) : Option Unusable :=
  if s.maxLength = 0 then some .zeroLength
  else match s.preview.cycle with
    | some n => if isCycleCode n then none else some (.sampleCycle n)
    | none => none

end Settings

end DealSql
