/-!
# Tokens

What a dialect reads a statement as: words, quoted names, numbers, the
several kinds of string, symbols, blanks and comments.  Printing the tokens
one after another, with a space for every comment, gives the statement's
code with its strings decoded.
-/

namespace DealSql.Statement

/-- The kinds of quoted string. -/
inductive StringKind where
  | plain
  | national
  | hex
  | bits
  | escaped
  | unicode
  /-- The bit string between double quotes. -/
  | wideBits
  deriving Repr, DecidableEq

/-- How a string of a kind begins. -/
def StringKind.opening : StringKind → List Char
  | .plain => ['\'']
  | .national => ['N', '\'']
  | .hex => ['X', '\'']
  | .bits => ['B', '\'']
  | .escaped => ['E', '\'']
  | .unicode => ['U', '&', '\'']
  | .wideBits => ['B', '"']

/-- How a string of a kind ends. -/
def StringKind.closing : StringKind → Char
  | .wideBits => '"'
  | _ => '\''

/-- A token of a statement. -/
inductive Token where
  /-- A word outside quotes. -/
  | word (text : List Char)
  /-- A name between the given marks. -/
  | name (opening closing : Char) (text : List Char)
  | number (text : List Char)
  | string (kind : StringKind) (text : List Char)
  /-- A string between dollar signs, with the tag between them. -/
  | dollarString (tag text : List Char)
  /-- A parameter marked by a dollar sign or a question mark. -/
  | parameter (text : List Char)
  | symbol (text : List Char)
  | blank (c : Char)
  | comment
  deriving Repr, DecidableEq

/-- The printed form of a token. -/
def Token.text : Token → List Char
  | .word t => t
  | .name opening closing t => opening :: t ++ [closing]
  | .number t => t
  | .string kind t => kind.opening ++ t ++ [kind.closing]
  | .dollarString tag t => '$' :: tag ++ '$' :: t ++ '$' :: tag ++ ['$']
  | .parameter t => t
  | .symbol t => t
  | .blank c => [c]
  | .comment => [' ']

end DealSql.Statement
