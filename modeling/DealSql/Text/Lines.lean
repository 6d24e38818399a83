import DealSql.Text.Blank

/-!
# Lines

A text is cut into lines at its line feeds.  A carriage return directly
before a line feed belongs to the end of the line; the text after the last
line feed is a line of its own unless it is empty.
-/

namespace DealSql.Text

/-- The lines of a text, where `acc` holds the current line backwards. -/
def linesFrom (acc : List Char) : List Char → List (List Char)
  | [] => if acc.isEmpty then [] else [acc.reverse]
  | c :: r =>
    if c = '\n' then
      (if acc.head? = some '\r' then acc.tail.reverse else acc.reverse) :: linesFrom [] r
    else linesFrom (c :: acc) r

/-- The lines of a text. -/
def lines (s : List Char) : List (List Char) := linesFrom [] s

/-- A text on one line: its lines, trimmed and joined by spaces. -/
def flatten (s : List Char) : List Char := [' '].intercalate ((lines s).map trim)

end DealSql.Text
