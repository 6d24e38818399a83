import DealSql.Statement.Grammar
import DealSql.Statement.Token.Reader

/-!
# Well-formed queries

The statements that a strict check accepts when a program runs: queries, with
common table expressions and set operations, separated by semicolons.  The
dialects differ in how the tokens are read, and in that DuckDB allows a comma
after the last element of a list.

The grammar stands in for the parsers of the dialects, which know more forms
of statements than it has.  What a review promises does not rest on it: that
holds for every `Parser`, whatever it accepts.
-/

namespace DealSql.Statement

open DealSql.Text

/-- The parts of a query that refer to one another. -/
inductive QueryPart where
  | query
  | body
  | expr
  | term
  | operand
  | tables
  deriving Repr, DecidableEq

namespace SelectGrammar

open Grammar

/-- A grammar over the parts of a query. -/
abbrev G := Grammar QueryPart

/-- The words that cannot name a column unless `AS` announces the name. -/
def reservedForColumns : List String :=
  ["WITH", "EXPLAIN", "ANALYZE", "SELECT", "WHERE", "GROUP", "SORT", "HAVING", "ORDER",
   "TOP", "LATERAL", "VIEW", "LIMIT", "OFFSET", "FETCH", "UNION", "EXCEPT", "INTERSECT",
   "CLUSTER", "DISTRIBUTE", "RETURNING", "FROM", "INTO", "END"]

/-- The words that cannot name a table unless `AS` announces the name. -/
def reservedForTables : List String :=
  ["WITH", "EXPLAIN", "ANALYZE", "SELECT", "WHERE", "GROUP", "SORT", "HAVING", "ORDER",
   "PIVOT", "UNPIVOT", "TOP", "LATERAL", "VIEW", "LIMIT", "OFFSET", "FETCH", "UNION",
   "EXCEPT", "INTERSECT", "ON", "JOIN", "INNER", "CROSS", "FULL", "LEFT", "RIGHT",
   "NATURAL", "USING", "CLUSTER", "DISTRIBUTE", "GLOBAL", "ANTI", "SEMI", "RETURNING",
   "OUTER", "SET", "QUALIFY", "WINDOW", "END", "FOR", "PARTITION"]

/-- Whether a token is a word or a quoted name. -/
def isName : Token → Bool
  | .word _ => true
  | .name .. => true
  | _ => false

/-- Whether a token is a value by itself. -/
def isValue : Token → Bool
  | .number _ => true
  | .string .. => true
  | .dollarString .. => true
  | .parameter _ => true
  | _ => false

/-- Whether a token is a plain string. -/
def isPlainString : Token → Bool
  | .string .plain _ => true
  | _ => false

/-- Whether a token is an operator between two values. -/
def isInfix : Token → Bool
  | .symbol s => !s.isEmpty && s.all Rule.isOperatorChar && s != ['!'] && s != ['?']
  | _ => false

/-- A word or a quoted name. -/
def anyName : G := .one isName

/-- A name with the names that qualify it. -/
def path : G := .seq anyName (.many (.seq (symbol ".") anyName))

/-- Elements with commas between them. -/
def commaList (d : Dialect) (g : G) : G :=
  all [g, .many (.seq (symbol ",") g),
    if d = .duckdb then optional (symbol ",") else .nothing]

/-- A name given to what stands before it. -/
def label (reserved : List String) : G :=
  any (.seq (keyword "AS") (.one fun t => isName t || isPlainString t))
    [.seq (.unless (isKeyword reserved)) (.one fun t => isName t || isPlainString t)]

/-- A selected item. -/
def item : G :=
  any (symbol "*")
    [all [anyName, .many (.seq (symbol ".") anyName), symbol ".", symbol "*"],
     all [.unless (isKeyword ["FROM"]), .rule .expr, optional (label reservedForColumns)]]

/-- The elements by which rows are ordered. -/
def ordering (d : Dialect) : G :=
  all [keyword "ORDER", keyword "BY",
    commaList d (all [.rule .expr, optional (keywords ["ASC", "DESC"]),
      optional (.seq (keyword "NULLS") (keywords ["FIRST", "LAST"]))])]

/-- A query under a name that the main query may use. -/
def commonTable (d : Dialect) : G :=
  all [anyName, optional (parens (commaList d anyName)), keyword "AS",
    optional (.seq (optional (keyword "NOT")) (keyword "MATERIALIZED")), parens (.rule .query)]

/-- A query with the clauses before and after its body. -/
def query (d : Dialect) : G :=
  all [optional (all [keyword "WITH", optional (keyword "RECURSIVE"),
        commaList d (commonTable d)]),
    .rule .body, optional (ordering d),
    .many (any (.seq (keyword "LIMIT") (.rule .expr))
      [all [keyword "OFFSET", .rule .expr, optional (keywords ["ROW", "ROWS"])],
       all [keyword "FETCH", keywords ["FIRST", "NEXT"], optional (.one isValue),
        keywords ["ROW", "ROWS"], keyword "ONLY"]])]

/-- What a query selects, and from where. -/
def select (d : Dialect) : G :=
  all [keyword "SELECT",
    optional (any (keyword "ALL")
      [.seq (keyword "DISTINCT") (optional (.seq (keyword "ON")
        (parens (commaList d (.rule .expr)))))]),
    optional (.seq (keyword "TOP") (any (.one isValue) [parens (.rule .expr)])),
    commaList d item,
    optional (.seq (keyword "FROM") (.rule .tables)),
    optional (.seq (keyword "WHERE") (.rule .expr)),
    optional (all [keyword "GROUP", keyword "BY", commaList d (.rule .expr)]),
    optional (.seq (keyword "HAVING") (.rule .expr))]

/-- A query without the clauses around it, and the set operations on it. -/
def body (d : Dialect) : G :=
  let simple : G := any (select d) [parens (.rule .query)]
  .seq simple (.many (all [keywords ["UNION", "EXCEPT", "INTERSECT"],
    optional (keywords ["ALL", "DISTINCT"]), simple]))

/-- The kind of a join. -/
def joinKind : G :=
  any (keyword "JOIN")
    [.seq (keywords ["INNER", "CROSS"]) (keyword "JOIN"),
     all [optional (keyword "NATURAL"), keywords ["LEFT", "RIGHT", "FULL"],
      optional (keyword "OUTER"), keyword "JOIN"],
     .seq (keyword "NATURAL") (keyword "JOIN")]

/-- A table, a query or a function in place of a table, with its name. -/
def table (d : Dialect) : G :=
  .seq
    (any (.seq (optional (keyword "LATERAL")) (parens (.rule .query)))
      [parens (.rule .tables),
       .seq path (optional (parens (optional (commaList d (.rule .expr)))))])
    (optional (.seq (label reservedForTables) (optional (parens (commaList d anyName)))))

/-- The tables of a query and how they are joined. -/
def tables (d : Dialect) : G :=
  let joined : G := .seq (table d) (.many (all [joinKind, table d,
    optional (any (.seq (keyword "ON") (.rule .expr))
      [.seq (keyword "USING") (parens (commaList d anyName))])]))
  commaList d joined

/-- The name of a type. -/
def typeName (d : Dialect) : G :=
  any (.seq (keyword "DOUBLE") (keyword "PRECISION"))
    [all [keywords ["TIME", "TIMESTAMP"], optional (parens (.one isValue)),
      keywords ["WITH", "WITHOUT"], keyword "TIME", keyword "ZONE"],
     .seq path (optional (parens (commaList d (.one isValue))))]

/-- A string that is a value of a type of dates and times. -/
def dated : G :=
  .seq (keywords ["DATE", "TIME", "TIMESTAMP", "TIMESTAMPTZ", "DATETIME"]) (.one isPlainString)

/-- Where the rows of a window begin or end. -/
def bound : G :=
  any (.seq (keyword "CURRENT") (keyword "ROW"))
    [.seq (any (keyword "UNBOUNDED") [.rule .expr]) (keywords ["PRECEDING", "FOLLOWING"])]

/-- The rows of a window that a function is applied to. -/
def frame : G :=
  .seq (keywords ["ROWS", "RANGE", "GROUPS"])
    (any (all [keyword "BETWEEN", bound, keyword "AND", bound]) [bound])

/-- The functions whose arguments stand between keywords. -/
def wordedCall : G :=
  any (.seq (keyword "EXTRACT") (parens (all [anyName, keyword "FROM", .rule .expr])))
    [.seq (keyword "SUBSTRING") (parens (all [.rule .expr, keyword "FROM", .rule .expr,
      optional (.seq (keyword "FOR") (.rule .expr))])),
     .seq (keyword "POSITION") (parens (all [.rule .term, keyword "IN", .rule .expr]))]

/-- A function applied to its arguments. -/
def call (d : Dialect) : G :=
  all [path,
    parens (.seq (optional (keywords ["DISTINCT", "ALL"]))
      (optional (.seq (any (symbol "*") [commaList d (.rule .expr)])
        (optional (ordering d))))),
    optional (.seq (keyword "FILTER") (parens (.seq (keyword "WHERE") (.rule .expr)))),
    optional (.seq (keyword "OVER") (any anyName
      [parens (all [optional (all [keyword "PARTITION", keyword "BY", commaList d (.rule .expr)]),
        optional (ordering d), optional frame])]))]

/-- A value that no operator divides. -/
def operand (d : Dialect) : G :=
  .seq
    (any (.seq (any (symbol "-") [symbol "+", symbol "~", keyword "NOT"]) (.rule .operand))
      [parens (.rule .query),
       parens (commaList d (.rule .expr)),
       .one isValue,
       all [keyword "CASE", optional (.seq (.unless (isKeyword ["WHEN"])) (.rule .expr)),
        some1 (all [keyword "WHEN", .rule .expr, keyword "THEN", .rule .expr]),
        optional (.seq (keyword "ELSE") (.rule .expr)), keyword "END"],
       .seq (keyword "EXISTS") (parens (.rule .query)),
       .seq (keyword "CAST") (parens (all [.rule .expr, keyword "AS", typeName d])),
       wordedCall,
       dated,
       .seq (keyword "INTERVAL") (.seq (.one isValue) (optional anyName)),
       call d,
       path])
    (.many (any (.seq (symbol "::") (typeName d))
      [all [symbol "[", .rule .expr, symbol "]"],
       all [keyword "AT", keyword "TIME", keyword "ZONE", .rule .operand]]))

/-- Values with operators between them. -/
def term : G := .seq (.rule .operand) (.many (.seq (.one isInfix) (.rule .operand)))

/-- What may follow a term in an expression. -/
def predicate (d : Dialect) : G :=
  any (.seq (keywords ["AND", "OR", "XOR"]) (.rule .term))
    [all [keyword "IS", optional (keyword "NOT"),
      any (keywords ["NULL", "TRUE", "FALSE", "UNKNOWN"])
        [all [keyword "DISTINCT", keyword "FROM", .rule .term]]],
     .seq (optional (keyword "NOT"))
      (any (.seq (keyword "IN") (any (parens (.rule .query))
          [parens (commaList d (.rule .expr))]))
        [all [keyword "BETWEEN", .rule .term, keyword "AND", .rule .term],
         all [keywords ["LIKE", "ILIKE"], .rule .term,
          optional (.seq (keyword "ESCAPE") (.one isPlainString))]])]

/-- Terms with the tests and connectives on them. -/
def expr (d : Dialect) : G := .seq (.rule .term) (.many (predicate d))

/-- The rules of a dialect. -/
def rules (d : Dialect) : QueryPart → G
  | .query => query d
  | .body => body d
  | .expr => expr d
  | .term => term
  | .operand => operand d
  | .tables => tables d

/-- Queries with semicolons between them. -/
def statements : G :=
  all [.many (symbol ";"),
    optional (.seq (.rule .query) (.many (.seq (some1 (symbol ";")) (.rule .query)))),
    .many (symbol ";")]

end SelectGrammar

/-- Whether a token counts in the grammar. -/
def Token.isSignificant : Token → Bool
  | .blank _ => false
  | .comment => false
  | _ => true

/-- Whether a dialect accepts a text as a list of queries. -/
def isWellFormed (d : Dialect) (sql : List Char) : Bool :=
  match tokens d sql with
  | some ts =>
    Grammar.fits (SelectGrammar.rules d) SelectGrammar.statements (ts.filter Token.isSignificant)
  | none => false

end DealSql.Statement
