import DealSql.Schema.Catalog.Data
import DealSql.Toml.Document

/-!
# Catalogs as documents

Reading a catalog from the text of a document, and what can go wrong where a
catalog is loaded.
-/

namespace DealSql.Catalog

/-- Why a catalog cannot be loaded. -/
inductive Error where
  | missingFile (path : String)
  | unreadableFile (reason : String)
  /-- The text is no document, or not that of a catalog. -/
  | malformed
  | repetition (r : Repetition)
  deriving Repr, DecidableEq

/-- The wording of an error. -/
def Error.message : Error → String
  | .missingFile path => s!"Catalog file not found: {path}"
  | .unreadableFile reason => s!"Failed to read catalog file: {reason}"
  | .malformed => "Failed to parse catalog: the text does not describe a catalog"
  | .repetition r => r.message

/-- The catalog that a text describes. -/
def read (text : List Char) : Except Error Catalog :=
  match (Toml.read? text).bind ofJson? with
  | none => .error .malformed
  | some c =>
    match c.repetition? with
    | some r => .error (.repetition r)
    | none => .ok c

end DealSql.Catalog
