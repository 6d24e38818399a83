/-!
# JSON values

Values with their members in the order in which they are written.  Numbers
that are not integers are kept as they are written, because nothing here
computes with them.
-/

namespace DealSql

/-- A JSON value. -/
inductive Json where
  | null
  | bool (b : Bool)
  | integer (n : Int)
  /-- A number with a fraction or an exponent. -/
  | real (text : String)
  | string (s : String)
  | array (items : List Json)
  | object (members : List (String × Json))
  deriving Repr, Inhabited

namespace Json

/-- The members of an object from which a value is read. -/
abbrev Members := List (String × Json)

/-- The members of a record: those of an object, or the items of an array,
which stand for the first keys in their order. -/
def record? (keys : List String) : Json → Option Members
  | .object ms => some ms
  | .array xs => if xs.length ≤ keys.length then some (keys.zip xs) else none
  | _ => none

/-- The items of an array. -/
def items? : Json → Option (List Json)
  | .array xs => some xs
  | _ => none

/-- The items of an array, each read in the same way. -/
def listOf? {α : Type} (read : Json → Option α) (v : Json) : Option (List α) :=
  v.items?.bind fun xs => xs.mapM read

/-- A truth value. -/
def bool? : Json → Option Bool
  | .bool b => some b
  | _ => none

/-- The text of a string. -/
def string? : Json → Option String
  | .string s => some s
  | _ => none

/-- Whether a value is null. -/
def isNull : Json → Bool
  | .null => true
  | _ => false

/-- Whether a value stands for no value among the parts of an object whose kind
is read first: null, or an empty object. -/
def isUnit : Json → Bool
  | .null => true
  | .object [] => true
  | _ => false

/-- Whether a value stands for no value in a document, where there is no null:
an empty object, or an empty array. -/
def isEmpty : Json → Bool
  | .object [] => true
  | .array [] => true
  | _ => false

/-- The name of an alternative: a string, or an object whose only member has
the name and stands for no value. -/
def name? (isNothing : Json → Bool) : Json → Option String
  | .string s => some s
  | .object [(s, v)] => if isNothing v then some s else none
  | _ => none

/-- The alternative that a value names. -/
def alternative? {α : Type} (isNothing : Json → Bool) (ofName? : String → Option α) (v : Json) :
    Option α :=
  (v.name? isNothing).bind ofName?

/-- A string, or null where there is none. -/
def ofOption (s : Option String) : Json :=
  match s with
  | some t => .string t
  | none => .null

/-- A list of strings. -/
def strings (xs : List String) : Json := .array (xs.map .string)

end Json

namespace Json.Members

/-- What an optional member holds; a member that is written twice is refused. -/
def find (ms : Members) (key : String) : Option (Option Json) :=
  match ms.filter fun m => m.1 == key with
  | [] => some none
  | [m] => some (some m.2)
  | _ => none

/-- What a required member holds. -/
def require (ms : Members) (key : String) : Option Json := (ms.find key).join

/-- A required string. -/
def string (ms : Members) (key : String) : Option String :=
  (ms.require key).bind Json.string?

/-- A value with a default where it is missing. -/
def orElse {α : Type} (ms : Members) (key : String) (read : Json → Option α) (default : α) :
    Option α :=
  (ms.find key).bind fun v? =>
    match v? with
    | some v => read v
    | none => some default

/-- A string that is empty where it is missing. -/
def stringOrEmpty (ms : Members) (key : String) : Option String :=
  ms.orElse key Json.string? ""

/-- A value that may be missing or null. -/
def optional {α : Type} (ms : Members) (key : String) (read : Json → Option α) :
    Option (Option α) :=
  (ms.find key).bind fun v? =>
    match v? with
    | none => some none
    | some .null => some none
    | some v => (read v).map some

end Json.Members

end DealSql
