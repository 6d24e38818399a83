import DealSql.CommandLine.Request
import DealSql.Json.Printer
import DealSql.Workbench

/-!
# Answers

What a command answers: a result that is written as text or as data, whether
the command succeeded, and lines for the standard error output.
-/

namespace DealSql.CommandLine

/-- What a run leaves behind. -/
structure Outcome where
  /-- 0 for success, 1 for failure, 2 for arguments that are not understood. -/
  exit : Nat
  output : List String
  errors : List String
  deriving Repr, DecidableEq

namespace Outcome

/-- A success with lines of output. -/
def success (output : List String) : Outcome := ⟨0, output, []⟩

/-- A failure with one line for the standard error output. -/
def failure (error : String) : Outcome := ⟨1, [], [error]⟩

/-- Arguments that are not understood. -/
def misuse : Outcome := ⟨2, [], ["The arguments are not understood"]⟩

end Outcome

/-- A result, as data or in lines of text. -/
def written (f : Format) (data : Json) (text : List String) : List String :=
  match f with
  | .json => [data.pretty]
  | .text => text

/-- One text as an answer. -/
def textAnswer (f : Format) (t : String) : Outcome := .success (written f (.string t) [t])

/-- A truth value as text. -/
def truthText (b : Bool) : String := if b then "true" else "false"

/-- The lines of a heading with the number of findings, and the findings. -/
def findingLines (what : String) (findings : List String) : List String :=
  s!"✗ {what} has {findings.length} error(s):" :: findings.map fun x => s!"  - {x}"

/-- A verdict in lines of text. -/
def verdictLines (v : Review.Verdict) : List String :=
  let tables := v.shape.tables.map String.ofList
  let placeholders := v.placeholders.map fun p => String.ofList p.name
  (if v.isValid then ["✓ SQL is valid"] else findingLines "SQL" v.errors) ++
  v.warnings.map (fun x => s!"  ! {x}") ++
  (if placeholders.isEmpty then [] else ["Placeholders: " ++ ", ".intercalate placeholders]) ++
  (if v.shape.isComplex then
    [s!"Complex query: ctes={truthText v.shape.hasCtes} " ++
      s!"subqueries={truthText v.shape.hasSubqueries} tables=" ++ ", ".intercalate tables]
  else [])

/-- The answer to a review; it fails when the statement is not valid. -/
def verdictAnswer (f : Format) (v : Review.Verdict) : Outcome :=
  ⟨if v.isValid then 0 else 1, written f v.toJson (verdictLines v), []⟩

/-- An overview in lines of text. -/
def overviewLines (o : Overview) : List String :=
  [s!"Formula: {o.formula}"] ++
  (o.advice.map fun a => s!"Note: {a}").toList ++
  ["", o.sql] ++
  match o.verdict with
  | some v => "" :: verdictLines v
  | none => []

/-- The answer to a preview. -/
def overviewAnswer (f : Format) (o : Overview) : Outcome :=
  .success (written f o.toJson (overviewLines o))

/-- The answer to a request for advice. -/
def adviceAnswer (f : Format) (advice : Option String) : Outcome :=
  .success (written f (.ofOption advice) [advice.getD "No compatibility notes."])

/-- The answer to a check; as text, faults go to the standard error output. -/
def checkAnswer (f : Format) (faults : List Calculation.Fault) : Outcome :=
  let messages := faults.map Calculation.Fault.message
  let data := Json.object [("valid", .bool messages.isEmpty), ("errors", Json.strings messages)]
  if messages.isEmpty then .success (written f data ["✓ Definition is valid"])
  else match f with
    | .json => ⟨1, [data.pretty], []⟩
    | .text => ⟨1, [], findingLines "Definition" messages⟩

/-- The answer to a substitution. -/
def substitutionAnswer (f : Format) :
    Except Placeholder.SubstitutionError String → Outcome
  | .ok t => textAnswer f t
  | .error e => .failure s!"Substitution error: {e.message}"

/-- A text filled up to a width with blanks. -/
def padded (width : Nat) (s : List Char) : List Char :=
  s ++ List.replicate (width - s.length) ' '

/-- A placeholder in a table of text. -/
def placeholderLine (p : Placeholder) : String :=
  String.ofList (padded 21 p.display ++ ' ' :: padded 16 p.category.title.toList ++ [' ']) ++
    p.description

/-- The vocabulary of placeholders. -/
def vocabularyAnswer (f : Format) : Outcome :=
  .success (written f (.array (Placeholder.all.map Placeholder.toJson))
    (Placeholder.all.map placeholderLine))

end DealSql.CommandLine
