import DealSql.CommandLine.Answer
import DealSql.Json.Reader
import DealSql.Workbench.Loading

/-!
# Runs

A run understands its arguments, loads the settings and the workbench, reads
the file that the command is about, and answers.  The first of these that
fails decides the outcome.  A definition is read as a document where the
name of its file says so, and else as JSON; a file named by a dash is the
standard input.
-/

namespace DealSql.CommandLine

variable {m : Type → Type} [Monad m]

/-- The last component of a path. -/
def fileName (path : List Char) : List Char :=
  let reversed := path.reverse.dropWhile (· == '/')
  (reversed.takeWhile (· != '/')).reverse

/-- The extension of the file at a path, after the last point that does not
begin the name. -/
def extension? (path : List Char) : Option (List Char) :=
  let name := fileName path
  let suffix := (name.reverse.takeWhile (· != '.')).reverse
  if suffix.length + 1 < name.length && name != ['.', '.'] then some suffix else none

/-- The text of the file at a path, or of the standard input. -/
def source (o : Surroundings m) (path : String) : m (Except String String) := do
  if path = "-" then
    match ← o.input with
    | .ok t => return .ok t
    | .error reason => return .error s!"Error reading stdin: {reason}"
  else
    match ← o.contentOf path with
    | .ok t => return .ok t
    | .error e => return .error s!"Error reading file '{path}': {e.reason}"

/-- The calculation that the text of a file defines. -/
def definition? (path text : String) : Option Calculation :=
  let isDocument := (extension? path.toList).any fun x => Text.isOneOf x ["toml"]
  (if isDocument then Toml.read? text.toList else Json.read? text.toList).bind
    Calculation.ofJson?

/-- The answer on the calculation that a file defines. -/
def onDefinition (o : Surroundings m) (path : String) (answer : Calculation → Outcome) :
    m Outcome := do
  match ← source o path with
  | .error e => return .failure e
  | .ok text =>
    match definition? path text with
    | some x => return answer x
    | none =>
      return .failure
        s!"Error parsing definition '{path}': the text does not describe a calculation"

/-- The answer on the statement in a file. -/
def onStatement (o : Surroundings m) (path : String) (answer : String → Outcome) :
    m Outcome := do
  match ← source o path with
  | .error e => return .failure e
  | .ok sql => return answer sql

/-- The answer to a command. -/
def answer (o : Surroundings m) (w : Workbench) (f : Format) : Command → m Outcome
  | .formula file => onDefinition o file fun x => textAnswer f (Preview.formula x)
  | .query file => onDefinition o file fun x => textAnswer f (w.sql x)
  | .preview file => onDefinition o file fun x => overviewAnswer f (w.overview x)
  | .advise file => onDefinition o file fun x => adviceAnswer f (Preview.advise x)
  | .check file => onDefinition o file fun x => checkAnswer f (w.faults x)
  | .validate file level column _ =>
    onStatement o file fun sql => verdictAnswer f (w.reviewSql sql level column)
  | .substitute file x => onStatement o file fun sql => substitutionAnswer f (w.substitute sql x)
  | .vocabulary => return vocabularyAnswer f

/-- Whether a command wants the dialect to accept its statement. -/
def Command.isStrict : Command → Bool
  | .validate _ _ _ strict => strict
  | _ => false

/-- The settings with what a request puts in their place. -/
def Request.adjust (r : Request) (s : Settings) : Settings :=
  { s with
    preview := { s.preview with dialect := r.common.dialect.getD s.preview.dialect }
    strict := s.strict || r.command.isStrict }

/-- The outcome of a request. -/
def Request.run (o : Surroundings m) (r : Request) : m Outcome := do
  match ← Settings.load o r.common.config with
  | .error e => return .failure s!"Error loading config: {e.message}"
  | .ok s =>
    match ← Workbench.load o (r.adjust s) with
    | .error e => return .failure s!"Error: {e.message}"
    | .ok w => answer o w (r.common.format.getD .text) r.command

/-- The outcome of a run. -/
def run (o : Surroundings m) (args : List String) : m Outcome :=
  match Request.ofArguments? args with
  | some r => r.run o
  | none => return .misuse

end DealSql.CommandLine
