import DealSql.Calculation.Check
import DealSql.Placeholder.Substitution
import DealSql.Preview.Advice
import DealSql.Preview.Formula
import DealSql.Review.Data
import DealSql.Schema.Catalog.Standard
import DealSql.Settings

/-!
# The workbench

Everything that can be asked about a calculation, with one catalog and one
set of options for all questions.  Statements are filled in the dialect of
the previews.
-/

namespace DealSql

open DealSql.Text

/-- A catalog, and the options of previews and reviews. -/
structure Workbench where
  catalog : Catalog
  preview : Preview.Options
  review : Review.Options
  deriving Repr, DecidableEq

/-- What is shown of a calculation while it is edited. -/
structure Overview where
  formula : String
  sql : String
  advice : Option String
  /-- The review of a statement that an administrator has written. -/
  verdict : Option Review.Verdict
  deriving Repr, DecidableEq

/-- An overview as data; there is a review for written statements only. -/
def Overview.toJson (o : Overview) : Json :=
  .object ([("formula", .string o.formula), ("sql", .string o.sql),
      ("advice", .ofOption o.advice)] ++
    (o.verdict.map fun v => ("validation", v.toJson)).toList)

namespace Workbench

/-- The workbench with a catalog under some settings. -/
def ofSettings (c : Catalog) (s : Settings) : Workbench :=
  { catalog := c, preview := s.preview, review := s.review }

/-- The workbench that is used where nothing is set. -/
def standard : Workbench := ofSettings .standard .standard

/-- The query that shows what a calculation reports. -/
def sql (w : Workbench) (x : Calculation) : String := Preview.sql w.preview x

/-- The review of a statement, as a parser reads it. -/
def reviewSqlWith (parser : Review.Parser) (w : Workbench) (sql : String) (level : Level)
    (column : String) : Review.Verdict :=
  Review.reviewWith parser w.review sql.toList level column

/-- The review of a statement. -/
def reviewSql (w : Workbench) (sql : String) (level : Level) (column : String) :
    Review.Verdict :=
  w.reviewSqlWith .standard sql level column

/-- The faults of a calculation, its statement as a parser reads it. -/
def faultsWith (parser : Review.Parser) (w : Workbench) (x : Calculation) :
    List Calculation.Fault :=
  x.faultsWith parser w.catalog

/-- The faults of a calculation. -/
def faults (w : Workbench) (x : Calculation) : List Calculation.Fault := w.faultsWith .standard x

/-- A statement with its placeholders filled for an execution. -/
def substitute (w : Workbench) (sql : String) (x : Execution) :
    Except Placeholder.SubstitutionError String :=
  (Placeholder.substitute w.preview.dialect x sql.toList).map String.ofList

/-- The review of the statement that an administrator has written, as a parser
reads it. -/
def customVerdictWith? (parser : Review.Parser) (w : Workbench) :
    Calculation → Option Review.Verdict
  | .custom s => some
    (w.reviewSqlWith parser s.sql s.level (String.ofList (trim s.resultColumn.toList)))
  | _ => none

/-- What is shown of a calculation, its statement as a parser reads it. -/
def overviewWith (parser : Review.Parser) (w : Workbench) (x : Calculation) : Overview :=
  { formula := Preview.formula x
    sql := w.sql x
    advice := Preview.advise x
    verdict := w.customVerdictWith? parser x }

/-- What is shown of a calculation. -/
def overview (w : Workbench) (x : Calculation) : Overview := w.overviewWith .standard x

end Workbench

end DealSql
