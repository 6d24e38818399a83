import DealSql.Schema.Catalog.Document
import DealSql.Settings.Document
import DealSql.Surroundings
import DealSql.Workbench

/-!
# Loading a workbench

Settings come from a file that is named outright, by a variable of the
environment, or by its usual name; without any of these they are the usual
ones.  The settings say where the catalog is; without that it is the
standard one.
-/

namespace DealSql

variable {m : Type → Type} [Monad m]

/-- The variable that names the file of the settings. -/
def Settings.fileVariable : String := "CALCSQL_CONFIG"

/-- The usual name of the file of the settings. -/
def Settings.usualFile : String := "calcsql.toml"

/-- The settings in what was read at a path. -/
def Settings.ofFile (path : String) : Except ReadFailure String → Except Settings.Error Settings
  | .ok text => Settings.read text.toList
  | .error e => .error (if e.found then .unreadableFile e.reason else .missingFile path)

/-- The settings of a run, from the file at a path if one is named. -/
def Settings.load (o : Surroundings m) (path? : Option String) :
    m (Except Settings.Error Settings) := do
  let named ← match path? with
    | some path => pure (some path)
    | none => o.valueOf Settings.fileVariable
  match named with
  | some path => return Settings.ofFile path (← o.contentOf path)
  | none =>
    match ← o.contentOf Settings.usualFile with
    | .error ⟨false, _⟩ => return .ok Settings.standard
    | content => return Settings.ofFile Settings.usualFile content

/-- The catalog in what was read at a path. -/
def Catalog.ofFile (path : String) : Except ReadFailure String → Except Catalog.Error Catalog
  | .ok text => Catalog.read text.toList
  | .error e => .error (if e.found then .unreadableFile e.reason else .missingFile path)

/-- The values of the variables that a text refers to. -/
def Environment.fetch (o : Surroundings m) (s : List Char) : m Environment := do
  let values ← (Environment.references s).mapM fun name => do
    return (name, ← o.valueOf name)
  return fun name => (values.lookup name).join

namespace Workbench

/-- Why a workbench cannot be loaded. -/
inductive Error where
  | settings (e : Settings.Error)
  | catalog (e : Catalog.Error)
  deriving Repr, DecidableEq

/-- The wording of an error. -/
def Error.message : Error → String
  | .settings e => s!"Settings error: {e.message}"
  | .catalog e => s!"Catalog error: {e.message}"

/-- The workbench under some settings, with the catalog where they say. -/
def load (o : Surroundings m) (s : Settings) : m (Except Error Workbench) := do
  let env ← Environment.fetch o (s.catalogPath.getD "").toList
  match s.expandedPath env with
  | .error e => return .error (.settings e)
  | .ok none => return .ok (ofSettings .standard s)
  | .ok (some path) =>
    match Catalog.ofFile path (← o.contentOf path) with
    | .ok c => return .ok (ofSettings c s)
    | .error e => return .error (.catalog e)

end Workbench

end DealSql
