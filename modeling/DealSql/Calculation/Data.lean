import DealSql.Calculation
import DealSql.Json.Basic

/-!
# Calculations as data

A calculation is an object whose member `kind` says how it is defined and
whose other members hold its parts, or an array with the kind and then the
parts.  Parts that may be missing may also be null; members with other names
do not matter.
-/

namespace DealSql

namespace Source

/-- A source as data. -/
def toJson (s : Source) : Json := .string s.name

end Source

namespace Level

/-- A level as data. -/
def toJson (l : Level) : Json := .string l.name

end Level

namespace Function

/-- A function as data. -/
def toJson (f : Function) : Json := .string f.name

/-- The function that data name by themselves. -/
def ofJson? (v : Json) : Option Function := v.alternative? Json.isNull ofName?

end Function

namespace FieldType

/-- A type as data. -/
def toJson (t : FieldType) : Json := .string t.name

/-- The type that data name by themselves. -/
def ofJson? (v : Json) : Option FieldType := v.alternative? Json.isNull ofName?

end FieldType

namespace Calculation

/-- The alternative that a part of a calculation names. -/
def part? {α : Type} (ofName? : String → Option α) (v : Json) : Option α :=
  v.alternative? Json.isUnit ofName?

/-- A calculation as data. -/
def toJson (c : Calculation) : Json :=
  .object (("kind", .string c.kind) :: match c with
    | .aggregation a =>
      [("name", .string a.name), ("description", .string a.description),
       ("source_model", a.source.toJson), ("source_field", .ofOption a.sourceField),
       ("aggregation_function", (a.function.map Function.toJson).getD .null),
       ("weight_field", .ofOption a.weightField), ("group_level", a.level.toJson)]
    | .field f =>
      [("name", .string f.name), ("source_model", f.source.toJson),
       ("source_field", .ofOption f.sourceField), ("group_level", f.level.toJson)]
    | .custom s =>
      [("name", .string s.name), ("description", .string s.description),
       ("raw_sql", .string s.sql), ("result_column_name", .string s.resultColumn),
       ("group_level", s.level.toJson)])

/-- The aggregation with the given members. -/
def aggregationOf? (ms : Json.Members) : Option Calculation := do
  return .aggregation
    { name := ← ms.string "name"
      description := ← ms.stringOrEmpty "description"
      source := ← (← ms.require "source_model") |> part? Source.ofName?
      sourceField := ← ms.optional "source_field" Json.string?
      function := ← ms.optional "aggregation_function" (part? Function.ofName?)
      weightField := ← ms.optional "weight_field" Json.string?
      level := ← (← ms.require "group_level") |> part? Level.ofName? }

/-- The reported field with the given members. -/
def fieldOf? (ms : Json.Members) : Option Calculation := do
  return .field
    { name := ← ms.string "name"
      source := ← (← ms.require "source_model") |> part? Source.ofName?
      sourceField := ← ms.optional "source_field" Json.string?
      level := ← (← ms.require "group_level") |> part? Level.ofName? }

/-- The statement with the given members. -/
def customOf? (ms : Json.Members) : Option Calculation := do
  return .custom
    { name := ← ms.string "name"
      description := ← ms.stringOrEmpty "description"
      sql := ← ms.string "raw_sql"
      resultColumn := ← ms.string "result_column_name"
      level := ← (← ms.require "group_level") |> part? Level.ofName? }

/-- The name of the way in which a calculation is defined, with its parts. -/
def kindAndParts? : Json → Option (String × Json)
  | .object ms => (Json.Members.string ms "kind").map (·, .object ms)
  | .array (k :: parts) => k.string?.map (·, .array parts)
  | _ => none

/-- The calculation that data define. -/
def ofJson? (v : Json) : Option Calculation := do
  let (kind, parts) ← kindAndParts? v
  match kind with
  | "user_aggregation" =>
    (parts.record? ["name", "description", "source_model", "source_field",
      "aggregation_function", "weight_field", "group_level"]).bind aggregationOf?
  | "system_field" =>
    (parts.record? ["name", "source_model", "source_field", "group_level"]).bind fieldOf?
  | "system_sql" =>
    (parts.record? ["name", "description", "raw_sql", "result_column_name",
      "group_level"]).bind customOf?
  | _ => none

end Calculation

end DealSql
