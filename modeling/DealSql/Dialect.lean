import DealSql.Text.Quoted
import DealSql.Text.Case

/-!
# Dialects

The three SQL dialects in which statements are written and read, and how
each writes identifiers, strings and truth values.  Brackets enclose the
identifiers of T-SQL and double quotes those of the others; a string of
T-SQL with characters outside ASCII is marked as national.
-/

namespace DealSql

open DealSql.Text

/-- A dialect of SQL. -/
inductive Dialect where
  | postgres
  | duckdb
  | tsql
  deriving Repr, DecidableEq, Inhabited

namespace Dialect

/-- All dialects, in the order in which statements are read in them. -/
def all : List Dialect := [.postgres, .duckdb, .tsql]

/-- The name of a dialect. -/
def name : Dialect → String
  | .postgres => "postgres"
  | .duckdb => "duckdb"
  | .tsql => "tsql"

/-- The dialect with a name exactly as written in settings. -/
def ofName? (s : String) : Option Dialect := all.find? fun d => d.name == s

/-- The names under which users may ask for a dialect, in any letter case. -/
def aliases : Dialect → List String
  | .postgres => ["postgres", "postgresql"]
  | .duckdb => ["duckdb"]
  | .tsql => ["tsql", "mssql", "sqlserver"]

/-- A dialect that no alias names. -/
structure Unknown where
  /-- The name asked for, in lower case. -/
  name : String
  deriving Repr, DecidableEq

/-- The wording of an unknown dialect. -/
def Unknown.message (e : Unknown) : String := s!"unknown dialect '{e.name}'"

/-- The dialect that a user asks for. -/
def parse (s : String) : Except Unknown Dialect :=
  let folded := foldCase s.toList
  match all.find? fun d => isOneOf folded d.aliases with
  | some d => .ok d
  | none => .error ⟨String.ofList folded⟩

/-- The marks around an identifier. -/
def identifierMarks : Dialect → Char × Char
  | .tsql => ('[', ']')
  | _ => ('"', '"')

/-- An identifier as the dialect writes it. -/
def quoteIdentifier (d : Dialect) (s : List Char) : List Char :=
  quoteWith d.identifierMarks.1 d.identifierMarks.2 s

/-- Whether the dialect marks a string as national. -/
def marksNational (d : Dialect) (s : List Char) : Bool :=
  d == .tsql && s.any fun c => 0x80 ≤ c.toNat

/-- A string as the dialect writes it. -/
def quoteString (d : Dialect) (s : List Char) : List Char :=
  if d.marksNational s then 'N' :: quoteWith '\'' '\'' s else quoteWith '\'' '\'' s

/-- A truth value as the dialect writes it. -/
def truth (d : Dialect) (b : Bool) : List Char :=
  match d, b with
  | .tsql, true => ['1']
  | .tsql, false => ['0']
  | _, true => "true".toList
  | _, false => "false".toList

end Dialect

end DealSql
