import DealSql.Text.Alphabetic
import DealSql.Text.Numeric
import DealSql.Text.Blank
import DealSql.Text.Bytes
import DealSql.Text.Case

/-!
# Lexemes

A masked statement splits into words and single characters of punctuation,
each with its byte position and with the number of parentheses open around
it.  An opening parenthesis and the one that closes it carry the depth
outside them; a closing parenthesis too many leaves the depth at zero.

With `names`, a double-quoted or bracketed name is one word whose text is
what stands between its delimiters.  Read that way only a text whose
literals are masked, or a quote inside a literal would swallow the code
that follows.
-/

namespace DealSql.Statement

open DealSql.Text

/-- A word character: a letter or number of any script, `_` or `$`. -/
def isWordChar (c : Char) : Bool :=
  isAlphabetic c || isNumeric c || c == '_' || c == '$'

/-- The delimiter that closes a quoted name. -/
def closing? : Char → Option Char
  | '"' => some '"'
  | '[' => some ']'
  | _ => none

/-- What a lexeme is. -/
inductive Lexeme.Kind where
  | word (text : List Char)
  | punct (c : Char)
  deriving Repr, DecidableEq

/-- A word or a character of punctuation, where it begins in bytes, and how
many parentheses are open around it. -/
structure Lexeme where
  kind : Lexeme.Kind
  offset : Nat
  depth : Nat
  deriving Repr, DecidableEq

namespace Lexeme

/-- The text of a word. -/
def word? (l : Lexeme) : Option (List Char) :=
  match l.kind with
  | .word w => some w
  | .punct _ => none

/-- Whether a lexeme is a given keyword, in any letter case. -/
def isKeyword (l : Lexeme) (keyword : String) : Bool :=
  match l.kind with
  | .word w => sameWord w keyword.toList
  | .punct _ => false

/-- Whether a lexeme is a given character. -/
def isPunct (l : Lexeme) (c : Char) : Bool := l.kind == .punct c

theorem word?_isSome_iff {l : Lexeme} : l.word?.isSome = true ↔ ∃ w, l.kind = .word w := by
  cases hkind : l.kind <;> simp [word?, hkind]

theorem isKeyword_iff {l : Lexeme} {k : String} :
    l.isKeyword k = true ↔ ∃ w, l.kind = .word w ∧ sameWord w k.toList = true := by
  cases hkind : l.kind <;> simp [isKeyword, hkind]

theorem isPunct_iff {l : Lexeme} {c : Char} : l.isPunct c = true ↔ l.kind = .punct c := by
  simp [isPunct]

end Lexeme

/-- What is left after the first character that fails the test, that
character excluded. -/
def afterFirst (stop : Char) (s : List Char) : List Char :=
  (s.dropWhile (· != stop)).drop 1

theorem length_dropWhile_le (p : Char → Bool) (s : List Char) :
    (s.dropWhile p).length ≤ s.length := (List.dropWhile_sublist p).length_le

theorem length_afterFirst_le (stop : Char) (s : List Char) :
    (afterFirst stop s).length ≤ s.length := by
  have := length_dropWhile_le (· != stop) s
  simp only [afterFirst, List.length_drop]
  omega

/-- The lexemes of a text that begins at a position and at a depth. -/
def lexFrom (names : Bool) (offset depth : Nat) : List Char → List Lexeme
  | [] => []
  | c :: r =>
    if isBlank c then lexFrom names (offset + c.utf8Size) depth r
    else if isWordChar c then
      let w := c :: r.takeWhile isWordChar
      ⟨.word w, offset, depth⟩ ::
        lexFrom names (offset + byteLength w) depth (r.dropWhile isWordChar)
    else match if names then closing? c else none with
      | some stop =>
        let inner := r.takeWhile (· != stop)
        ⟨.word inner, offset, depth⟩ ::
          lexFrom names (offset + byteLength inner + 2) depth (afterFirst stop r)
      | none =>
        let outside := if c = ')' then depth - 1 else depth
        ⟨.punct c, offset, outside⟩ ::
          lexFrom names (offset + c.utf8Size) (if c = '(' then outside + 1 else outside) r
termination_by s => s.length
decreasing_by
  · simp
  · have := length_dropWhile_le isWordChar r
    simp only [List.length_cons]; omega
  · have := length_afterFirst_le stop r
    simp only [List.length_cons]; omega
  · simp

/-- The lexemes of a text, quoted names read as words. -/
def lexemes (text : List Char) : List Lexeme := lexFrom true 0 0 text

/-- The lexemes of a text, quotes and brackets read as punctuation. -/
def plainLexemes (text : List Char) : List Lexeme := lexFrom false 0 0 text

end DealSql.Statement
