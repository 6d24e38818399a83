import DealSql.Calculation.Data
import DealSql.Schema.Catalog

/-!
# Catalogs as data

A catalog is an object with three lists of entries; none may be left out.
An entry needs a label and what it is about, everything else has a default.
-/

namespace DealSql

namespace FieldEntry

/-- A field as data; a description that is missing is left out. -/
def toJson (e : FieldEntry) : Json :=
  .object ([("name", .string e.name), ("display_label", .string e.label),
      ("semantic_type", e.type.toJson)] ++
    (e.description.map fun d => ("description", Json.string d)).toList ++
    [("nullable", .bool e.nullable)])

/-- The field that data describe. -/
def ofJson? (v : Json) : Option FieldEntry := do
  let ms ← v.record? ["name", "display_label", "semantic_type", "description", "nullable"]
  return { name := ← ms.string "name"
           label := ← ms.string "display_label"
           type := ← (← ms.require "semantic_type") |>
             Json.alternative? Json.isEmpty FieldType.ofName?
           description := ← ms.optional "description" Json.string?
           nullable := ← ms.orElse "nullable" Json.bool? false }

end FieldEntry

namespace SourceEntry

/-- A source as data. -/
def toJson (e : SourceEntry) : Json :=
  .object [("model", e.source.toJson), ("display_label", .string e.label),
    ("description", .string e.description), ("fields", .array (e.fields.map FieldEntry.toJson))]

/-- The source that data describe. -/
def ofJson? (v : Json) : Option SourceEntry := do
  let ms ← v.record? ["model", "display_label", "description", "fields"]
  return { source := ← (← ms.require "model") |>
             Json.alternative? Json.isEmpty Source.ofName?
           label := ← ms.string "display_label"
           description := ← ms.stringOrEmpty "description"
           fields := ← ms.orElse "fields" (Json.listOf? FieldEntry.ofJson?) [] }

end SourceEntry

namespace FunctionEntry

/-- A function as data. -/
def toJson (e : FunctionEntry) : Json :=
  .object [("function", e.function.toJson), ("display_label", .string e.label),
    ("description", .string e.description), ("requires_weight", .bool e.requiresWeight),
    ("numeric_only", .bool e.numericOnly)]

/-- The function that data describe. -/
def ofJson? (v : Json) : Option FunctionEntry := do
  let ms ← v.record?
    ["function", "display_label", "description", "requires_weight", "numeric_only"]
  return { function := ← (← ms.require "function") |>
             Json.alternative? Json.isEmpty Function.ofName?
           label := ← ms.string "display_label"
           description := ← ms.stringOrEmpty "description"
           requiresWeight := ← ms.orElse "requires_weight" Json.bool? false
           numericOnly := ← ms.orElse "numeric_only" Json.bool? false }

end FunctionEntry

namespace LevelEntry

/-- A level as data. -/
def toJson (e : LevelEntry) : Json :=
  .object [("level", e.level.toJson), ("display_label", .string e.label),
    ("description", .string e.description)]

/-- The level that data describe. -/
def ofJson? (v : Json) : Option LevelEntry := do
  let ms ← v.record? ["level", "display_label", "description"]
  return { level := ← (← ms.require "level") |>
             Json.alternative? Json.isEmpty Level.ofName?
           label := ← ms.string "display_label"
           description := ← ms.stringOrEmpty "description" }

end LevelEntry

namespace Catalog

/-- A catalog as data. -/
def toJson (c : Catalog) : Json :=
  .object [("source_models", .array (c.sources.map SourceEntry.toJson)),
    ("aggregation_functions", .array (c.functions.map FunctionEntry.toJson)),
    ("group_levels", .array (c.levels.map LevelEntry.toJson))]

/-- The catalog that data describe. -/
def ofJson? (v : Json) : Option Catalog := do
  let ms ← v.record? ["source_models", "aggregation_functions", "group_levels"]
  return { sources := ← (← ms.require "source_models") |> Json.listOf? SourceEntry.ofJson?
           functions := ← (← ms.require "aggregation_functions") |>
             Json.listOf? FunctionEntry.ofJson?
           levels := ← (← ms.require "group_levels") |> Json.listOf? LevelEntry.ofJson? }

end Catalog

end DealSql
