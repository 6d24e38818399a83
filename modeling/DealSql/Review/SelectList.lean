import DealSql.Statement.Lexeme
import DealSql.Statement.Mask

/-!
# Select lists

The items that the outermost query selects, what each of them is called,
and which of them is a given column and nothing else.
-/

namespace DealSql.Review

open DealSql.Text DealSql.Statement

/-- The lexemes of a statement on which its structure is judged. -/
def structuralLexemes (sql : List Char) : List Lexeme := lexemes (maskLiterals sql)

/-- The parts of a list between the elements that pass a test. -/
def splitAtEach {α : Type} (test : α → Bool) : List α → List (List α)
  | [] => [[]]
  | a :: r =>
    if test a then [] :: splitAtEach test r
    else match splitAtEach test r with
      | part :: parts => (a :: part) :: parts
      | [] => [[a]]

/-- Whether a lexeme is the `SELECT` of an outermost query. -/
def isOuterSelect (l : Lexeme) : Bool := l.depth == 0 && l.isKeyword "SELECT"

/-- Whether a lexeme ends the list of an outermost query. -/
def endsList (l : Lexeme) : Bool := l.depth == 0 && (l.isKeyword "FROM" || l.isPunct ';')

/-- Whether a lexeme separates the items of an outermost query. -/
def separatesItems (l : Lexeme) : Bool := l.depth == 0 && l.isPunct ','

/-- Whether a lexeme says that rows are distinct or not. -/
def isDistinctness (l : Lexeme) : Bool := l.isKeyword "DISTINCT" || l.isKeyword "ALL"

/-- What follows the words that may stand before the first item. -/
def afterModifiers (ls : List Lexeme) : List Lexeme :=
  match ls.dropWhile isDistinctness with
  | [] => []
  | l :: r => if l.isKeyword "TOP" then r.drop 1 else l :: r

/-- The items that the outermost query selects. -/
def selectList (ls : List Lexeme) : List (List Lexeme) :=
  let list := (afterModifiers (ls.dropWhile (fun l => !isOuterSelect l)).tail).takeWhile
    fun l => !endsList l
  (splitAtEach separatesItems list).filter fun item => !item.isEmpty

/-- Whether an item stands for all columns. -/
def isStar : List Lexeme → Bool
  | [l] => l.isPunct '*'
  | [_, dot, l] => dot.isPunct '.' && l.isPunct '*'
  | _ => false

/-- An item without the words, each followed by a point, that qualify it. -/
def unqualified : List Lexeme → List Lexeme
  | l :: dot :: r => if l.word?.isSome && dot.isPunct '.' then unqualified r else l :: dot :: r
  | ls => ls

/-- Whether lexemes are a new name for an item, or none. -/
def isLabel : List Lexeme → Bool
  | [] => true
  | [name] => name.word?.isSome
  | [keyword, name] => keyword.isKeyword "AS" && name.word?.isSome
  | _ => false

/-- Whether an item is a column and nothing else, possibly qualified and
possibly under a new name. -/
def selectsColumn (column : String) (item : List Lexeme) : Bool :=
  match unqualified item with
  | l :: r => l.isKeyword column && isLabel r
  | [] => false

/-- The name under which an item appears. -/
def outputName? (item : List Lexeme) : Option (List Char) := item.getLast?.bind Lexeme.word?

end DealSql.Review
