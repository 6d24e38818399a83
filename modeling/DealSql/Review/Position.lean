import DealSql.Statement.Lexeme

/-!
# Positions among lexemes

A lexeme with those before and after it, and the `FROM` keywords that
belong to a query: not that of `IS DISTINCT FROM`, and inside parentheses
only where the parentheses hold a query.
-/

namespace DealSql.Review

open DealSql.Statement

/-- A lexeme with those before it, the nearest first, and those after it. -/
structure Position where
  before : List Lexeme
  here : Lexeme
  after : List Lexeme
  deriving Repr, DecidableEq

/-- The positions of lexemes that follow some others. -/
def positionsFrom (before : List Lexeme) : List Lexeme → List Position
  | [] => []
  | l :: r => ⟨before, l, r⟩ :: positionsFrom (l :: before) r

/-- All positions among lexemes. -/
def positions (ls : List Lexeme) : List Position := positionsFrom [] ls

/-- Whether the nearest parenthesis that opens one level outside a depth is
followed by `SELECT`, where `next` follows the lexemes before. -/
def opensQuery (depth : Nat) (next : Lexeme) : List Lexeme → Bool
  | [] => true
  | l :: before =>
    if l.isPunct '(' && l.depth == depth - 1 then next.isKeyword "SELECT"
    else opensQuery depth l before

namespace Position

/-- Whether the lexeme just before is a keyword. -/
def follows (p : Position) (keyword : String) : Bool :=
  p.before.head?.any (·.isKeyword keyword)

/-- Whether a `FROM` at this position belongs to a query. -/
def isQueryFrom (p : Position) : Bool :=
  !p.follows "DISTINCT" && (p.here.depth == 0 || opensQuery p.here.depth p.here p.before)

end Position

end DealSql.Review
