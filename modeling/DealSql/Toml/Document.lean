import DealSql.Toml.Value

/-!
# Documents

A document is a list of statements on lines of their own: headers and
assignments, which are carried out one after the other on the table of the
whole document.  An assignment is about the table of the last header.
-/

namespace DealSql.Toml

open DealSql.Text

/-- A statement of a document. -/
inductive Statement where
  /-- The header of a table. -/
  | table (path : List String)
  /-- The header of one more table in a list. -/
  | tables (path : List String)
  | assign (path : List String) (v : Json)
  deriving Repr

/-- A header after its opening brackets, which are closed by as many. -/
def header (closing : List Char) (s : List Char) : Reading (List String) :=
  (keyPath (s.length + 1) (skipBlanks s)).bind fun x =>
    if closing.isPrefixOf x.2 then some (x.1, x.2.drop closing.length) else none

/-- A statement. -/
def statement : List Char → Reading Statement
  | '[' :: '[' :: r => (header [']', ']'] r).map fun x => (.tables x.1, x.2)
  | '[' :: r => (header [']'] r).map fun x => (.table x.1, x.2)
  | r => (assigned r).bind fun x => (value x.2).map fun y => (.assign x.1 y.1, y.2)

/-- The rest of a text after the end of a line, which may hold a comment. -/
def lineEnd? (s : List Char) : Option (List Char) :=
  match skipComment (skipBlanks s) with
  | [] => some []
  | r => newline? r

/-- The statements of a text.  At most `fuel` are read. -/
def statementsWithin : Nat → List Char → Option (List Statement)
  | 0, _ => none
  | fuel + 1, s =>
    match skipLines (s.length + 1) s with
    | [] => some []
    | r =>
      (statement r).bind fun x =>
        (lineEnd? x.2).bind fun rest => (statementsWithin fuel rest).map (x.1 :: ·)

/-- The statements of a text, which may begin with a byte order mark. -/
def statements? (s : List Char) : Option (List Statement) :=
  let r := if s.head? = some '\uFEFF' then s.tail else s
  statementsWithin (r.length + 1) r

/-- A document that is being built. -/
structure Draft where
  root : Table
  /-- The path of the last header. -/
  current : List String
  deriving Repr

/-- The draft with a statement carried out. -/
def Draft.add (d : Draft) : Statement → Option Draft
  | .table path => (d.root.stateTable path).map fun t => ⟨t, path⟩
  | .tables path => (d.root.addTable path).map fun t => ⟨t, path⟩
  | .assign path v =>
    (d.root.atHeader d.current (·.assign path v)).map fun t => ⟨t, d.current⟩

/-- The table that statements build. -/
def build? (ss : List Statement) : Option Table :=
  (ss.foldlM Draft.add ⟨.empty .stated, []⟩).map Draft.root

/-- The object that a text spells. -/
def read? (s : List Char) : Option Json :=
  ((statements? s).bind build?).map Table.toJson

end DealSql.Toml
