import DealSql.Distinct
import DealSql.Schema.Basic

/-!
# Catalogs

A catalog lists the sources with their fields, the functions and the levels
that calculations may use.  Every look-up takes the first entry that fits.
A catalog is refused when a source is listed twice, or a field twice in its
source.
-/

namespace DealSql

/-- A field of a source. -/
structure FieldEntry where
  name : String
  label : String
  type : FieldType
  description : Option String
  nullable : Bool
  deriving Repr, DecidableEq

/-- A source and its fields. -/
structure SourceEntry where
  source : Source
  label : String
  description : String
  fields : List FieldEntry
  deriving Repr, DecidableEq

/-- How a function is shown, and what it asks of its field. -/
structure FunctionEntry where
  function : Function
  label : String
  description : String
  requiresWeight : Bool
  /-- Whether the field must hold numbers. -/
  numericOnly : Bool
  deriving Repr, DecidableEq

/-- How a level is shown. -/
structure LevelEntry where
  level : Level
  label : String
  description : String
  deriving Repr, DecidableEq

/-- What calculations may use. -/
structure Catalog where
  sources : List SourceEntry
  functions : List FunctionEntry
  levels : List LevelEntry
  deriving Repr, DecidableEq

namespace Catalog

/-! ## Looking up -/

/-- The entry of a source. -/
def source? (c : Catalog) (s : Source) : Option SourceEntry :=
  c.sources.find? fun e => e.source == s

/-- The fields of a source, none when it is not listed. -/
def fields (c : Catalog) (s : Source) : List FieldEntry :=
  ((c.source? s).map SourceEntry.fields).getD []

/-- A field of a source. -/
def field? (c : Catalog) (s : Source) (name : String) : Option FieldEntry :=
  (c.fields s).find? fun e => e.name == name

/-- The entry of a function. -/
def function? (c : Catalog) (f : Function) : Option FunctionEntry :=
  c.functions.find? fun e => e.function == f

/-- Whether a level is listed. -/
def hasLevel (c : Catalog) (l : Level) : Bool := c.levels.any fun e => e.level == l

/-! ## Repetitions -/

/-- What is listed twice. -/
inductive Repetition where
  | source (s : Source)
  | field (s : Source) (name : String)
  deriving Repr, DecidableEq

/-- The wording of a repetition. -/
def Repetition.message : Repetition → String
  | .source s => s!"Source model '{s.name}' is defined more than once"
  | .field s name => s!"Field '{name}' is defined more than once on {s.name}"

/-- The first repetition among entries, after sources that have been seen. -/
def repetitionAfter? (seen : List Source) : List SourceEntry → Option Repetition
  | [] => none
  | e :: es =>
    if e.source ∈ seen then some (.source e.source)
    else match firstRepeat? (e.fields.map FieldEntry.name) with
      | some name => some (.field e.source name)
      | none => repetitionAfter? (e.source :: seen) es

/-- The first repetition in a catalog. -/
def repetition? (c : Catalog) : Option Repetition := repetitionAfter? [] c.sources

end Catalog

end DealSql
