import DealSql.Distinct
import DealSql.Review.Issue
import DealSql.Dialect
import DealSql.Statement.Lexeme
import DealSql.Statement.Mask

/-!
# The gate

A statement must be a single one, and no keyword may change data.  What is
code depends on the dialect, so a statement is looked at in several views:
with its comments masked, and as each dialect reads it.  Where a dialect
cannot read the statement, all of it counts as code.

How a dialect reads a statement is asked of a `Parser`, so that what the
gate promises can be told apart from what the parser does.

* `mem_gateIssuesWith` — an issue is raised exactly when some view signals it.
* `nodup_gateIssuesWith` — and it is raised once.
-/

namespace DealSql.Review

open DealSql.Text DealSql.Statement

/-- The keywords that no calculation may use. -/
def blockedKeywords : List String :=
  ["DROP", "DELETE", "UPDATE", "INSERT", "ALTER", "TRUNCATE", "CREATE", "MERGE", "GRANT",
   "REVOKE", "EXEC", "EXECUTE"]

/-- What a review asks about statements in a dialect. -/
structure Parser where
  /-- The code of a statement without its comments; nothing where it cannot be read. -/
  strip : Dialect → List Char → Option (List Char)
  /-- Whether the dialect accepts a statement. -/
  accepts : Dialect → List Char → Bool

/-- The views in which a statement is looked at, as a parser reads it. -/
def codeViewsWith (parser : Parser) (sql : List Char) : List (List Char) :=
  maskComments sql :: Dialect.all.map fun d => (parser.strip d sql).getD sql

/-- The blocked keyword that a word is. -/
def blockedKeyword? (w : List Char) : Option String :=
  blockedKeywords.find? fun k => sameWord w k.toList

/-- What a lexeme of a view signals. -/
def signal? (view : List Char) (l : Lexeme) : Option Issue :=
  match l.kind with
  | .punct ';' =>
    if (trim (dropBytes (l.offset + 1) view)).isEmpty then none else some .multipleStatements
  | .punct _ => none
  | .word w => (blockedKeyword? w).map .blockedKeyword

/-- What a view signals, in the order of the text. -/
def signals (view : List Char) : List Issue := (plainLexemes view).filterMap (signal? view)

/-- The issues of all views, each once. -/
def gateIssuesWith (parser : Parser) (sql : List Char) : List Issue :=
  distinct ((codeViewsWith parser sql).flatMap signals)

/-- An issue is raised exactly when some view signals it. -/
theorem mem_gateIssuesWith {parser : Parser} {sql : List Char} {i : Issue} :
    i ∈ gateIssuesWith parser sql ↔ ∃ v ∈ codeViewsWith parser sql, i ∈ signals v := by
  have h := keys_distinctBy (id : Issue → Issue) ((codeViewsWith parser sql).flatMap signals) i
  simpa [gateIssuesWith, distinct] using h

/-- No issue is raised twice. -/
theorem nodup_gateIssuesWith (parser : Parser) (sql : List Char) :
    (gateIssuesWith parser sql).Nodup := by
  have h := nodup_distinctBy (id : Issue → Issue) ((codeViewsWith parser sql).flatMap signals)
  simpa [gateIssuesWith, distinct] using h

end DealSql.Review
