import DealSql.CommandLine.Arguments
import DealSql.Execution
import DealSql.Text.Blank
import DealSql.Text.Integer

/-!
# Requests

What a user asks for on the command line: a command with its own switches
and operands, and switches that every command knows.  The latter may stand
before the command or behind its name, where they count for more.
-/

namespace DealSql.CommandLine

open DealSql.Text

/-- How answers are written. -/
inductive Format where
  | text
  | json
  deriving Repr, DecidableEq

/-- What is asked for. -/
inductive Command where
  | formula (file : String)
  | query (file : String)
  | preview (file : String)
  | validate (file : String) (level : Level) (column : String) (strict : Bool)
  | advise (file : String)
  | check (file : String)
  | substitute (file : String) (x : Execution)
  | vocabulary
  deriving Repr, DecidableEq

/-- What every command may be given. -/
structure Common where
  /-- The file of the settings. -/
  config : Option String
  /-- The dialect, which counts for more than the settings. -/
  dialect : Option Dialect
  format : Option Format
  deriving Repr, DecidableEq

/-- A command with what it is given. -/
structure Request where
  common : Common
  command : Command
  deriving Repr, DecidableEq

/-! ## Values -/

/-- A path that is not empty. -/
def path? (s : String) : Option String := if s.isEmpty then none else some s

/-- A format that is named exactly. -/
def Format.ofName? : String → Option Format
  | "text" => some .text
  | "json" => some .json
  | _ => none

/-- The text before and after the first colon. -/
def splitAtColon (s : List Char) : List Char × Option (List Char) :=
  let number := s.takeWhile (· != ':')
  (number, if number.length < s.length then some (s.drop (number.length + 1)) else none)

/-- The texts between commas, without blanks around them and without the
blank ones. -/
def commaList (s : List Char) : List String :=
  (s.splitOn ',').filterMap fun t => (nonBlank? t).map String.ofList

/-- A selected deal: its number, and possibly its tranches after a colon. -/
def selection? (s : String) : Option DealSelection :=
  let (number, tranches) := splitAtColon s.toList
  (integerValue? (trim number)).map fun n => ⟨n, tranches.map commaList⟩

/-- A value that may be missing, but must be right where it is given. -/
def optional {α : Type} (read : String → Option α) : List String → Option (Option α)
  | [] => some none
  | v :: _ => (read v).map some

/-- A value that must be given. -/
def required {α : Type} (read : String → Option α) (vs : List String) : Option α :=
  vs.head?.bind read

/-! ## Switches -/

/-- The file of the settings. -/
def configSwitch : Switch := ⟨"config", 'c', true, false⟩

/-- The dialect. -/
def dialectSwitch : Switch := ⟨"dialect", 'd', true, false⟩

/-- The format of the answers. -/
def outputSwitch : Switch := ⟨"output", 'o', true, false⟩

/-- More output on what is done; answers are the same with it. -/
def verboseSwitch : Switch := ⟨"verbose", 'v', false, false⟩

/-- The level of a statement. -/
def levelSwitch : Switch := ⟨"level", 'l', true, false⟩

/-- The result column of a statement. -/
def columnSwitch : Switch := ⟨"result-column", 'r', true, false⟩

/-- Whether the dialect must accept a statement. -/
def strictSwitch : Switch := ⟨"strict", none, false, false⟩

/-- The cycle of an execution. -/
def cycleSwitch : Switch := ⟨"cycle", none, true, false⟩

/-- A selected deal of an execution. -/
def dealSwitch : Switch := ⟨"deal", none, true, true⟩

/-- The switches that every command knows. -/
def commonSwitches : List Switch := [configSwitch, dialectSwitch, outputSwitch, verboseSwitch]

/-- The further switches of a command. -/
def ownSwitches : String → List Switch
  | "validate" => [levelSwitch, columnSwitch, strictSwitch]
  | "substitute" => [cycleSwitch, dealSwitch]
  | _ => []

/-! ## Requests from arguments -/

/-- What is given to every command. -/
def common? (a : Arguments) : Option Common := do
  return { config := ← optional path? (a.values configSwitch)
           dialect := ← optional Dialect.ofName? (a.values dialectSwitch)
           format := ← optional Format.ofName? (a.values outputSwitch) }

/-- The common part with another one behind it, which counts for more. -/
def Common.overriddenBy (outer inner : Common) : Common :=
  { config := inner.config <|> outer.config
    dialect := inner.dialect <|> outer.dialect
    format := inner.format <|> outer.format }

/-- The only operand, a file. -/
def file? (a : Arguments) : Option String :=
  match a.operands with
  | [f] => path? f
  | _ => none

/-- The command with a name and its arguments. -/
def command? (name : String) (a : Arguments) : Option Command :=
  match name with
  | "formula" => (file? a).map .formula
  | "query" => (file? a).map .query
  | "preview" => (file? a).map .preview
  | "advise" => (file? a).map .advise
  | "check" => (file? a).map .check
  | "validate" => do
    return .validate (← file? a)
      ((← optional Level.ofName? (a.values levelSwitch)).getD .deal)
      (← required some (a.values columnSwitch))
      (!(a.values strictSwitch).isEmpty)
  | "substitute" => do
    let file ← file? a
    let anchor ← required (fun s => (Cycle.parse s).toOption) (a.values cycleSwitch)
    let deals ← (a.values dealSwitch).mapM selection?
    return .substitute file ⟨anchor, deals⟩
  | "vocabulary" => if a.operands.isEmpty then some .vocabulary else none
  | _ => none

/-- The request that arguments make. -/
def Request.ofArguments? (args : List String) : Option Request := do
  let outer ← Arguments.read? commonSwitches false args
  match outer.operands with
  | [] => none
  | name :: rest =>
    let inner ← Arguments.read? (commonSwitches ++ ownSwitches name) true rest
    return { common := (← common? outer).overriddenBy (← common? inner)
             command := ← command? name inner }

end DealSql.CommandLine
