import DealSql.Environment
import DealSql.Execution.Data
import DealSql.Settings
import DealSql.Toml.Document

/-!
# Settings as documents

Settings are an object with the parts `preview`, `validator` and `catalog`.
Parts and members that are missing have their usual values, and others do
not matter.
-/

namespace DealSql

namespace Dialect

/-- A dialect as data. -/
def toJson (d : Dialect) : Json := .string d.name

/-- The dialect that a document names. -/
def ofJson? (v : Json) : Option Dialect := v.alternative? Json.isEmpty ofName?

end Dialect

/-- A size that a word of 64 bits can hold. -/
def Json.size? : Json → Option Nat
  | .integer n => if 0 ≤ n ∧ n < Int.pow 2 64 then some n.toNat else none
  | _ => none

namespace Preview.Options

/-- The options of a preview as data. -/
def toJson (o : Options) : Json :=
  .object [("dialect", o.dialect.toJson),
    ("sample_deal_numbers", .array (o.deals.map .integer)),
    ("sample_tranche_ids", Json.strings o.tranches),
    ("sample_cycle", (o.cycle.map Json.integer).getD .null)]

/-- The options of a preview that data set. -/
def ofJson? (v : Json) : Option Options := do
  let ms ← v.record? ["dialect", "sample_deal_numbers", "sample_tranche_ids", "sample_cycle"]
  let usual := standard
  return { dialect := ← ms.orElse "dialect" Dialect.ofJson? usual.dialect
           deals := ← ms.orElse "sample_deal_numbers" (Json.listOf? Json.int64?) usual.deals
           tranches := ← ms.orElse "sample_tranche_ids" Json.strings? usual.tranches
           cycle := ← ms.orElse "sample_cycle" (fun x => x.int64?.map some) usual.cycle }

end Preview.Options

namespace Settings

/-- Why settings cannot be loaded. -/
inductive Error where
  | missingFile (path : String)
  | unreadableFile (reason : String)
  /-- The text is no document, or not that of settings. -/
  | malformed
  | missingVariable (e : Environment.Missing)
  | unusable (u : Unusable)
  deriving Repr, DecidableEq

/-- The wording of an error. -/
def Error.message : Error → String
  | .missingFile path => s!"Config file not found: {path}"
  | .unreadableFile reason => s!"Failed to read config file: {reason}"
  | .malformed => "Failed to parse config file: the text does not describe settings"
  | .missingVariable e => e.message
  | .unusable u => s!"Invalid configuration: {u.reason}"

/-- Settings as data. -/
def toJson (s : Settings) : Json :=
  .object [("preview", s.preview.toJson),
    ("validator", .object [("max_sql_length", .integer s.maxLength),
      ("max_placeholders", .integer s.maxPlaceholders), ("strict_parse", .bool s.strict)]),
    ("catalog", .object [("path", .ofOption s.catalogPath)])]

/-- The settings with the limits that data set. -/
def withLimits? (s : Settings) (v : Json) : Option Settings := do
  let ms ← v.record? ["max_sql_length", "max_placeholders", "strict_parse"]
  return { s with
    maxLength := ← ms.orElse "max_sql_length" Json.size? s.maxLength
    maxPlaceholders := ← ms.orElse "max_placeholders" Json.size? s.maxPlaceholders
    strict := ← ms.orElse "strict_parse" Json.bool? s.strict }

/-- The settings with the catalog that data set. -/
def withCatalog? (s : Settings) (v : Json) : Option Settings := do
  let ms ← v.record? ["path"]
  return { s with catalogPath := ← ms.optional "path" Json.string? }

/-- The settings that data describe. -/
def ofJson? (v : Json) : Option Settings := do
  let ms ← v.record? ["preview", "validator", "catalog"]
  let preview ← ms.orElse "preview" Preview.Options.ofJson? .standard
  let s : Settings := { standard with preview }
  let s ← ms.orElse "validator" s.withLimits? s
  ms.orElse "catalog" s.withCatalog? s

/-- The settings that a text describes. -/
def read (text : List Char) : Except Error Settings :=
  match (Toml.read? text).bind ofJson? with
  | none => .error .malformed
  | some s =>
    match s.unusable? with
    | some u => .error (.unusable u)
    | none => .ok s

/-- Where the catalog is, unless it is the standard one. -/
def expandedPath (s : Settings) (env : Environment) : Except Error (Option String) :=
  match s.catalogPath with
  | none => .ok none
  | some path =>
    match env.expand path.toList with
    | .ok p => .ok (some (String.ofList p))
    | .error e => .error (.missingVariable e)

end Settings

end DealSql
