import DealSql.Review.Gate
import DealSql.Review.SelectList
import DealSql.Review.Shape
import DealSql.Statement.SelectGrammar
import DealSql.Statement.Token.Reader

/-!
# Verdicts

The review of a statement: the checks one after the other, and what they
amount to.  A statement that is too long or blank is not looked into, and a
dialect is asked to accept it only when nothing else makes it invalid.
-/

namespace DealSql.Review

open DealSql.Text DealSql.Statement

/-- How strict a review is. -/
structure Options where
  /-- The greatest number of characters. -/
  maxLength : Nat
  /-- The greatest number of placeholders. -/
  maxPlaceholders : Nat
  /-- Whether the dialect must accept the statement. -/
  strict : Bool
  dialect : Dialect
  deriving Repr, DecidableEq

/-- The usual limits, without asking a dialect. -/
def Options.standard : Options := ⟨50000, 100, false, .postgres⟩

/-- The outcome of a review. -/
structure Verdict where
  issues : List Issue
  placeholders : List Placeholder
  shape : Shape
  deriving Repr, DecidableEq

namespace Verdict

/-- The wordings of the issues that make a statement invalid. -/
def errors (v : Verdict) : List String := (v.issues.filter Issue.isFatal).map Issue.message

/-- The wordings of the other issues. -/
def warnings (v : Verdict) : List String :=
  (v.issues.filter fun i => !i.isFatal).map Issue.message

/-- Whether a statement is valid. -/
def isValid (v : Verdict) : Bool := !v.issues.any Issue.isFatal

/-- The verdict on a statement that is not looked into. -/
def rejected (i : Issue) : Verdict := ⟨[i], [], .unknown⟩

end Verdict

/-- Whether a name may name a result: a letter of ASCII, then letters,
digits and underscores. -/
def isResultColumn (name : List Char) : Bool :=
  match name with
  | [] => false
  | c :: r => c.isAlpha && r.all fun d => d.isAlphanum || d == '_'

/-- The columns that every report of a level must select. -/
def requiredColumns : Level → List RequiredColumn
  | .deal => [⟨"dl_nbr", "deal.dl_nbr"⟩]
  | .tranche => [⟨"dl_nbr", "deal.dl_nbr"⟩, ⟨"tr_id", "tranche.tr_id"⟩]

/-- Whether a statement has a `FROM` that belongs to a query. -/
def hasQueryFrom (ls : List Lexeme) : Bool :=
  (positions ls).any fun p => p.here.isKeyword "FROM" && p.isQueryFrom

/-- A statement begins as a query and has a `FROM`. -/
def entryIssues (ls : List Lexeme) : List Issue :=
  (if ls.head?.any fun l => l.isKeyword "SELECT" || l.isKeyword "WITH" then []
    else [.notAQuery]) ++
  (if hasQueryFrom ls then [] else [.missingFrom])

/-- A statement passes the check of its entry when it begins as a query and has a
`FROM`. -/
theorem entryIssues_eq_nil_iff {ls : List Lexeme} : entryIssues ls = [] ↔
    (ls.head?.any fun l => l.isKeyword "SELECT" || l.isKeyword "WITH") = true ∧
      hasQueryFrom ls = true := by
  simp [entryIssues]

/-- A statement selects the required columns of its level. -/
def requiredColumnIssues (items : List (List Lexeme)) (level : Level) : List Issue :=
  if items.any isStar then []
  else ((requiredColumns level).filter fun c => !items.any (selectsColumn c.name)).map
    fun c => .missingRequiredColumn c level

/-- A statement selects its result. -/
def resultColumnIssues (items : List (List Lexeme)) (column : String) : List Issue :=
  if !isResultColumn column.toList then [.invalidResultColumn column]
  else if items.any fun item =>
      isStar item || (outputName? item).any (sameWord · column.toList) then []
  else [.missingResultColumn column]

/-- The placeholders of a statement are right and not too many. -/
def placeholderIssues (s : Placeholder.Scan) (max : Nat) : List Issue :=
  if s.groups > max then [.tooManyPlaceholders s.groups max]
  else s.faults.map .placeholder

/-- The placeholders that a review reports. -/
def placeholdersUsed (s : Placeholder.Scan) (max : Nat) : List Placeholder :=
  if s.groups > max then [] else s.placeholders

/-- What stands in for a placeholder while a dialect is asked. -/
def standIn (p : Placeholder) : List Char :=
  match p.category with
  | .period => ['0']
  | .filter => "1 = 1".toList
  | .identifierList => "(0)".toList

/-- A statement with its placeholders neutralized. -/
def neutralize (sql : List Char) : List Char := Placeholder.fill standIn sql

/-- A parser that reads statements as the dialects do, whatever it accepts. -/
def Parser.reading (accepts : Dialect → List Char → Bool) : Parser := ⟨stripComments, accepts⟩

/-- The parser of the dialects. -/
def Parser.standard : Parser := .reading isWellFormed

/-- The dialect accepts the statement. -/
def acceptanceIssues (parser : Parser) (d : Dialect) (sql : List Char) : List Issue :=
  if parser.accepts d (neutralize sql) then [] else [.unparsable]

/-- The review of the statement of a calculation, as a parser reads it. -/
def reviewWith (parser : Parser) (o : Options) (sql : List Char) (level : Level)
    (column : String) : Verdict :=
  if sql.length > o.maxLength then .rejected (.tooLong sql.length o.maxLength)
  else if (trim sql).isEmpty then .rejected .emptySql
  else
    let ls := structuralLexemes sql
    let items := selectList ls
    let scan := Placeholder.scan sql
    let issues := entryIssues ls ++ requiredColumnIssues items level ++
      resultColumnIssues items column ++ placeholderIssues scan o.maxPlaceholders ++
      gateIssuesWith parser sql
    let strict := if o.strict && !issues.any Issue.isFatal then
        acceptanceIssues parser o.dialect sql
      else []
    ⟨issues ++ strict, placeholdersUsed scan o.maxPlaceholders, shape ls⟩

/-- The review of the statement of a calculation. -/
def review (o : Options) (sql : List Char) (level : Level) (column : String) : Verdict :=
  reviewWith .standard o sql level column

end DealSql.Review
