import DealSql.Json.Basic

/-!
# Tables of a document

A document is built up statement by statement.  A header states a table or
adds one to a list of tables; an assignment gives a value to a key.  Both
reach their table along a path of keys, and a table that is missing on the
way is supplied.

What may still be done to a table depends on where it comes from:

* a table that a header states is closed to dotted keys of other tables;
* a table supplied on the way to a header may still be stated;
* a table supplied by a dotted key is filled by dotted keys only;
* values, and so arrays and inline tables, are closed.
-/

namespace DealSql.Toml

/-- Where a table comes from. -/
inductive Origin where
  | stated
  /-- Supplied on the way to a header. -/
  | implied
  /-- Supplied by a dotted key. -/
  | dotted
  deriving Repr, DecidableEq

/-- What stands at a key. -/
inductive Node where
  | value (v : Json)
  | table (origin : Origin) (entries : List (String × Node))
  /-- A list of tables, of which the last can still be filled. -/
  | tables (complete : List (List (String × Node))) (last : List (String × Node))
  deriving Repr, Inhabited

/-- A table. -/
structure Table where
  origin : Origin
  entries : List (String × Node)
  deriving Repr

namespace Table

/-- A table as it stands at a key. -/
def toNode (t : Table) : Node := .table t.origin t.entries

/-- A table with nothing in it. -/
def empty (origin : Origin) : Table := ⟨origin, []⟩

/-- What stands at a key. -/
def find? (t : Table) (key : String) : Option Node := t.entries.lookup key

/-- The table with a node at a key, in place of the one there or behind all
others. -/
def put (t : Table) (key : String) (n : Node) : Table :=
  if (t.find? key).isSome then
    { t with entries := t.entries.map fun e => if e.1 == key then (key, n) else e }
  else { t with entries := t.entries ++ [(key, n)] }

/-! ## Changing a table at the end of a path -/

/-- How a path is meant: as the keys of a header or as a dotted key. -/
inductive PathKind where
  | header
  | dottedKey
  deriving Repr, DecidableEq

/-- The table to supply where one is missing on the way. -/
def supplied : PathKind → Table
  | .header => empty .implied
  | .dottedKey => empty .dotted

/-- Whether a path may lead through a table. -/
def isOpenTo (t : Table) (kind : PathKind) : Bool :=
  kind == .header || t.origin != .stated

/-- The table with the table at the end of a path changed. -/
def change (kind : PathKind) (f : Table → Option Table) : List String → Table → Option Table
  | [], t => f t
  | k :: path, t =>
    match t.find? k with
    | none => (change kind f path (supplied kind)).map fun u => t.put k u.toNode
    | some (.table origin entries) =>
      let inner : Table := ⟨origin, entries⟩
      if inner.isOpenTo kind then (change kind f path inner).map fun u => t.put k u.toNode
      else none
    | some (.tables complete last) =>
      (change kind f path ⟨.stated, last⟩).map fun u => t.put k (.tables complete u.entries)
    | some (.value _) => none

/-- A path of keys with its last key apart. -/
def splitLast? (path : List String) : Option (List String × String) :=
  path.getLast?.map (path.dropLast, ·)

/-- The table with a value at a key, which must not be taken.  A dotted key
fills only tables that dotted keys supplied. -/
def assign (path : List String) (v : Json) (t : Table) : Option Table := do
  let (way, key) ← splitLast? path
  change .dottedKey (fun u =>
    if (u.origin == .dotted) == way.isEmpty then none
    else if (u.find? key).isSome then none
    else some (u.put key (.value v))) way t

/-- The table with a table stated by a header. -/
def stateTable (path : List String) (t : Table) : Option Table := do
  let (way, key) ← splitLast? path
  change .header (fun u =>
    match u.find? key with
    | none => some (u.put key (.table .stated []))
    | some (.table .implied entries) => some (u.put key (.table .stated entries))
    | _ => none) way t

/-- The table with one more table in a list of tables. -/
def addTable (path : List String) (t : Table) : Option Table := do
  let (way, key) ← splitLast? path
  change .header (fun u =>
    match u.find? key with
    | none => some (u.put key (.tables [] []))
    | some (.tables complete last) => some (u.put key (.tables (complete ++ [last]) []))
    | _ => none) way t

/-- The table with a change to the table that the last header was about. -/
def atHeader (path : List String) (f : Table → Option Table) (t : Table) : Option Table :=
  change .header f path t

end Table

/-! ## Tables as data -/

mutual

/-- A node as data. -/
def Node.toJson : Node → Json
  | .value v => v
  | .table _ entries => .object (membersJson entries)
  | .tables complete last => .array (tablesJson complete ++ [.object (membersJson last)])

/-- The entries of a table as data. -/
def membersJson : List (String × Node) → List (String × Json)
  | [] => []
  | (k, n) :: r => (k, n.toJson) :: membersJson r

/-- Tables as data. -/
def tablesJson : List (List (String × Node)) → List Json
  | [] => []
  | t :: r => .object (membersJson t) :: tablesJson r

end

/-- A table as data. -/
def Table.toJson (t : Table) : Json := .object (membersJson t.entries)

end DealSql.Toml
