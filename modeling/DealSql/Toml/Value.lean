import DealSql.Toml.Scalar
import DealSql.Toml.Table

/-!
# Keys and values of a document

A value is a scalar, an array or an inline table.  An array may go on over
several lines with comments between its items and may end with a comma; an
inline table stands on one line.  Arrays and inline tables may be nested to
a fixed depth.
-/

namespace DealSql.Toml

open DealSql.Text

/-- The rest of a text after blanks on the same line. -/
def skipBlanks (s : List Char) : List Char := s.dropWhile fun c => c == ' ' || c == '\t'

/-- The rest of a text after a comment, if one comes first. -/
def skipComment (s : List Char) : List Char :=
  if s.head? = some '#' then s.dropWhile isPlain else s

/-- The rest of a text after blanks, comments and new lines.  At most `fuel`
lines are skipped. -/
def skipLines : Nat → List Char → List Char
  | 0, s => s
  | fuel + 1, s =>
    let r := skipComment (skipBlanks s)
    match newline? r with
    | some rest => skipLines fuel rest
    | none => r

/-! ## Keys -/

/-- Whether a character may stand in a key without quotes. -/
def isKeyChar (c : Char) : Bool := c.isAlphanum || c == '_' || c == '-'

/-- One key. -/
def key (s : List Char) : Reading String :=
  let bare := s.takeWhile isKeyChar
  if bare.isEmpty then (lineString s).map fun x => (String.ofList x.1, x.2)
  else some (String.ofList bare, s.drop bare.length)

/-- Keys with dots between them.  At most `fuel` are read. -/
def keyPath : Nat → List Char → Reading (List String)
  | 0, _ => none
  | fuel + 1, s =>
    (key s).bind fun x =>
      match skipBlanks x.2 with
      | '.' :: r => (keyPath fuel (skipBlanks r)).map fun y => (x.1 :: y.1, y.2)
      | r => some ([x.1], r)

/-- The keys of an assignment, with what follows its sign. -/
def assigned (s : List Char) : Reading (List String) :=
  (keyPath (s.length + 1) s).bind fun x =>
    match x.2 with
    | '=' :: r => some (x.1, skipBlanks r)
    | _ => none

/-! ## Values -/

/-- How deep arrays and inline tables may be nested. -/
def maxDepth : Nat := 80

mutual

/-- A value within so many arrays and inline tables. -/
def valueWithin : Nat → Nat → List Char → Reading Json
  | 0, _, _ => none
  | fuel + 1, depth, s =>
    match s with
    | '[' :: r => if depth < maxDepth then itemsWithin fuel (depth + 1) [] r else none
    | '\x7b' :: r =>
      if depth < maxDepth then
        match skipBlanks r with
        | '\x7d' :: rest => some (.object [], rest)
        | r' => membersWithin fuel (depth + 1) (.empty .stated) r'
      else none
    | r => scalar r

/-- The rest of an array after the given items, which stand backwards. -/
def itemsWithin : Nat → Nat → List Json → List Char → Reading Json
  | 0, _, _, _ => none
  | fuel + 1, depth, items, s =>
    match skipLines (s.length + 1) s with
    | ']' :: rest => some (.array items.reverse, rest)
    | r =>
      (valueWithin fuel depth r).bind fun x =>
        match skipLines (x.2.length + 1) x.2 with
        | ',' :: rest => itemsWithin fuel depth (x.1 :: items) rest
        | ']' :: rest => some (.array (x.1 :: items).reverse, rest)
        | _ => none

/-- The rest of an inline table with the given members, from its next key. -/
def membersWithin : Nat → Nat → Table → List Char → Reading Json
  | 0, _, _, _ => none
  | fuel + 1, depth, t, s =>
    (assigned s).bind fun path =>
      (valueWithin fuel depth path.2).bind fun x =>
        (t.assign path.1 x.1).bind fun u =>
          match skipBlanks x.2 with
          | ',' :: rest => membersWithin fuel depth u (skipBlanks rest)
          | '\x7d' :: rest => some (u.toJson, rest)
          | _ => none

end

/-- A value.  Every step that nests or goes on takes a character, so two
steps for each are enough. -/
def value (s : List Char) : Reading Json := valueWithin (2 * s.length + 2) 0 s

end DealSql.Toml
