import DealSql.Dialect
import DealSql.Text.Alphabetic
import DealSql.Text.Numeric
import DealSql.Text.Blank
import DealSql.Statement.Lexeme
import DealSql.Statement.Token
import DealSql.Statement.Token.Strings

/-!
# Reading a statement in a dialect

The tokens of a statement as one dialect reads it.  A token is found by the
first of an ordered list of rules that applies to the next character; a
rule may also find the text malformed, as when a string never ends.

* `Rule.find_length` — every token takes at least one character, which is
  why the reading ends.
* `stripComments` — the code of a statement, with a space for every comment.
-/

namespace DealSql.Statement

open DealSql.Text DealSql.Statement.Strings

/-- Whether a word of the dialect may begin with a character. -/
def isWordStart (d : Dialect) (c : Char) : Bool :=
  isAlphabetic c || c == '_' || (d == .tsql && (c == '#' || c == '@'))

/-- Whether a word of the dialect may go on with a character. -/
def isWordPart (d : Dialect) (c : Char) : Bool :=
  isAlphabetic c || c.isDigit || c == '_' || c == '$' ||
    (d == .tsql && (c == '#' || c == '@'))

/-- What a rule makes of a text: it does not apply, or finds it malformed,
or reads a token and leaves the rest. -/
inductive Found where
  | pass
  | malformed
  | token (t : Token) (rest : List Char)
  deriving Repr, DecidableEq

namespace Found

/-- A token if something was read, and a malformed text otherwise. -/
def ofReading {α : Type} (f : α → Token) : Reading α → Found
  | some (a, rest) => .token (f a) rest
  | none => .malformed

/-- The first finding, or the second where the first does not apply. -/
def orElse : Found → Found → Found
  | .pass, y => y
  | x, _ => x

/-- Whether no more than `n` characters are left. -/
def Within (n : Nat) : Found → Prop
  | .token _ rest => rest.length ≤ n
  | _ => True

theorem within_orElse {n : Nat} {x y : Found} (hx : x.Within n) (hy : y.Within n) :
    (x.orElse y).Within n := by
  cases x <;> simp_all [orElse, Within]

theorem within_ofReading {α : Type} {f : α → Token} {n : Nat} {x : Reading α}
    (h : ∀ a rest, x = some (a, rest) → rest.length ≤ n) : (ofReading f x).Within n := by
  match x, h with
  | none, _ => trivial
  | some (a, rest), h => exact h a rest rfl

/-- A token comes of something that was read. -/
theorem ofReading_eq_token {α : Type} {f : α → Token} {x : Reading α} {t : Token}
    {rest : List Char} : ofReading f x = .token t rest ↔ ∃ a, x = some (a, rest) ∧ f a = t := by
  rcases x with _ | ⟨a, r⟩
  · simp [ofReading]
  · constructor
    · rintro ⟨⟩
      exact ⟨a, rfl, rfl⟩
    · rintro ⟨b, ⟨⟩, rfl⟩
      rfl

end Found

/-- A rule reads a token that begins with a character, given what follows
it, and leaves no more than that. -/
structure Rule where
  read : Dialect → Char → List Char → Found
  within : ∀ d c r, (read d c r).Within r.length

namespace Rule

/-! ## Blanks and strings -/

/-- A space, tab or line end.  A carriage return, alone or before a line
feed, is a line end. -/
def readBlank (_ : Dialect) (c : Char) (r : List Char) : Found :=
  if c = ' ' ∨ c = '\t' ∨ c = '\n' then .token (.blank c) r
  else if c = '\r' then .token (.blank '\n') (if r.head? = some '\n' then r.tail else r)
  else .pass

/-- The rule for blanks. -/
def blank : Rule where
  read := readBlank
  within := by
    intro d c r
    unfold readBlank
    split
    · exact Nat.le_refl _
    · split
      · split <;> simp [Found.Within]
      · trivial

/-- The kind of string that begins here, with what follows its opening
marks.  Bit strings and Unicode strings are known to PostgreSQL alone. -/
def stringOpening? (d : Dialect) (c : Char) (r : List Char) : Option (StringKind × List Char) :=
  let quoted := r.head? = some '\''
  if c = '\'' then some (.plain, r)
  else if c.toLower = 'b' ∧ d = .postgres ∧ quoted then some (.bits, r.tail)
  else if c.toLower = 'b' ∧ d = .postgres ∧ r.head? = some '"' then some (.wideBits, r.tail)
  else if c.toLower = 'n' ∧ quoted then some (.national, r.tail)
  else if c.toLower = 'x' ∧ quoted then some (.hex, r.tail)
  else if c.toLower = 'e' ∧ quoted then some (.escaped, r.tail)
  else if c.toLower = 'u' ∧ d = .postgres ∧ r.head? = some '&' ∧ r.tail.head? = some '\'' then
    some (.unicode, r.tail.tail)
  else none

/-- The text of a string of a kind, and what follows it. -/
def closeString : StringKind → List Char → Reading (List Char)
  | .plain, r => closeQuoted '\'' r
  | .bits, r => closeQuoted '\'' r
  | .wideBits, r => closeQuoted '"' r
  | .national, r => closeEscaped nationalEscapes r
  | .hex, r => closeEscaped nationalEscapes r
  | .escaped, r => closeEscaped byteEscapes r
  | .unicode, r => closeEscaped unicodeEscapes r

/-- A string of any kind but those between dollar signs. -/
def readString (d : Dialect) (c : Char) (r : List Char) : Found :=
  match stringOpening? d c r with
  | some (kind, inside) => .ofReading (.string kind) (closeString kind inside)
  | none => .pass

theorem stringOpening_length {d : Dialect} {c : Char} {r inside : List Char} {k : StringKind}
    (h : stringOpening? d c r = some (k, inside)) : inside.length ≤ r.length := by
  unfold stringOpening? at h
  dsimp only at h
  repeat' split at h
  all_goals simp only [Option.some.injEq, Prod.mk.injEq, reduceCtorEq] at h
  all_goals (obtain ⟨-, rfl⟩ := h; grind)

theorem closeString_length {k : StringKind} {r t rest : List Char}
    (h : closeString k r = some (t, rest)) : rest.length ≤ r.length := by
  cases k <;> first
    | exact Nat.le_of_lt (closeQuoted_length h)
    | exact closeEscaped_length h

/-- The rule for strings. -/
def string : Rule where
  read := readString
  within := by
    intro d c r
    unfold readString
    split
    · next k inside h =>
      refine Found.within_ofReading fun t rest ht => ?_
      have := stringOpening_length h
      have := closeString_length ht
      omega
    · trivial

/-- The mark that closes a quoted name in a dialect. -/
def nameClosing? (d : Dialect) (c : Char) : Option Char :=
  match c, d with
  | '"', _ => some '"'
  | '\x60', .duckdb => some '\x60'
  | '[', .tsql => some ']'
  | _, _ => none

/-- A quoted name; a doubled closing mark stands for one. -/
def readName (d : Dialect) (c : Char) (r : List Char) : Found :=
  match nameClosing? d c with
  | some stop => .ofReading (.name c stop) (closeQuoted stop r)
  | none => .pass

/-- The rule for quoted names. -/
def name : Rule where
  read := readName
  within := by
    intro d c r
    unfold readName
    split
    · exact Found.within_ofReading fun t rest ht => Nat.le_of_lt (closeQuoted_length ht)
    · trivial

/-! ## Numbers -/

/-- The digits at the start of a text. -/
def digits (s : List Char) : List Char := s.takeWhile Char.isDigit

/-- The exponent at the start of a text, if a digit belongs to it. -/
def exponent (s : List Char) : List Char :=
  match s with
  | e :: r =>
    if e = 'e' ∨ e = 'E' then
      let sign := match r with
        | c :: _ => if c = '+' ∨ c = '-' then [c] else []
        | [] => []
      let ds := digits (r.drop sign.length)
      if ds.isEmpty then [] else e :: sign ++ ds
    else []
  | [] => []

/-- The number at the start of a text that begins with a digit or a point:
digits, a point, digits, and an exponent.  A lone point has no exponent. -/
def numberText (s : List Char) : List Char :=
  let whole := digits s
  let r := s.drop whole.length
  let point := if r.head? = some '.' then ['.'] else []
  let fraction := digits (r.drop point.length)
  let base := whole ++ point ++ fraction
  if base = ['.'] then base else base ++ exponent (s.drop base.length)

/-- A number, a hexadecimal number or a lone point. -/
def readNumber (_ : Dialect) (c : Char) (r : List Char) : Found :=
  if c.isDigit ∨ c = '.' then
    if c = '0' ∧ r.head? = some 'x' then
      .token (.string .hex (r.tail.takeWhile isHex)) (r.tail.dropWhile isHex)
    else
      let t := numberText (c :: r)
      let rest := r.drop (t.length - 1)
      if t = ['.'] then .token (.symbol t) r
      else if rest.head? = some 'L' then .token (.number (t ++ ['L'])) rest.tail
      else .token (.number t) rest
  else .pass

/-- The rule for numbers. -/
def number : Rule where
  read := readNumber
  within := by
    intro d c r
    unfold readNumber
    split
    · split
      · have := length_dropWhile_le isHex r.tail
        simp only [Found.Within, List.length_tail] at *
        omega
      · dsimp only
        split
        · exact Nat.le_refl _
        · split
          · simp only [Found.Within, List.length_tail, List.length_drop]; omega
          · simp [Found.Within]
    · trivial

/-! ## Comments -/

/-- A comment to the end of the line, the line feed included, or a block
comment, which may hold others. -/
def readComment (_ : Dialect) (c : Char) (r : List Char) : Found :=
  if c = '-' ∧ r.head? = some '-' then .token .comment (afterFirst '\n' r)
  else if c = '/' ∧ r.head? = some '*' then
    match blockComment 0 ' ' r.tail with
    | some rest => .token .comment rest
    | none => .malformed
  else .pass

/-- The rule for comments. -/
def comment : Rule where
  read := readComment
  within := by
    intro d c r
    unfold readComment
    split
    · exact length_afterFirst_le _ _
    · split
      · split
        · next rest h =>
          have := blockComment_length h
          simp only [Found.Within, List.length_tail] at *
          omega
        · trivial
      · trivial

/-! ## Words, operators and parameters -/

/-- A word of T-SQL that begins with `#`, `@` or `@@`.  The character that
follows belongs to the word whatever it is, unless it is a space or makes
an operator. -/
def readMarkedWord (d : Dialect) (c : Char) (r : List Char) : Found :=
  let word (start : List Char) : Found :=
    .token (.word (start ++ (r.drop (start.length - 1)).takeWhile (isWordPart d)))
      ((r.drop (start.length - 1)).dropWhile (isWordPart d))
  if d ≠ .tsql then .pass
  else match c, r with
    | '#', x :: _ => if x = ' ' ∨ x = '-' ∨ x = '>' then .pass else word [c, x]
    | '@', '@' :: y :: _ => if y = ' ' then .pass else word [c, '@', y]
    | '@', x :: _ => if x = ' ' ∨ x = '>' ∨ x = '?' ∨ x = '@' then .pass else word [c, x]
    | _, _ => .pass

/-- The rule for marked words. -/
def markedWord : Rule where
  read := readMarkedWord
  within := by
    intro d c r
    have h : ∀ n, ((r.drop n).dropWhile (isWordPart d)).length ≤ r.length := by
      intro n
      have := length_dropWhile_le (isWordPart d) (r.drop n)
      simp only [List.length_drop] at this
      omega
    unfold readMarkedWord
    dsimp only
    split
    · trivial
    · split <;> first | (split <;> first | trivial | exact h _) | trivial

/-- A question mark.  In PostgreSQL it makes an operator with a bar or an
ampersand and otherwise takes the next character with it; elsewhere it is a
parameter with its number. -/
def readQuestion (d : Dialect) (c : Char) (r : List Char) : Found :=
  if c ≠ '?' then .pass
  else if d = .postgres then
    match r with
    | '|' :: r' => .token (.symbol ['?', '|']) r'
    | '&' :: r' => .token (.symbol ['?', '&']) r'
    | _ => .token (.symbol ['?']) r.tail
  else .token (.parameter (c :: r.takeWhile isNumeric)) (r.dropWhile isNumeric)

/-- The rule for question marks. -/
def question : Rule where
  read := readQuestion
  within := by
    intro d c r
    unfold readQuestion
    split
    · trivial
    · split
      · split
        · simp [Found.Within]
        · simp [Found.Within]
        · simp [Found.Within]
      · exact length_dropWhile_le _ _

/-- An operator: how it is spelled after its first character, and whether
PostgreSQL extends it by the operator characters that follow. -/
structure Operator where
  spelling : List Char
  grows : Bool

/-- The operators, those that begin alike with the longest first.  A single
character that PostgreSQL does not extend needs no entry. -/
def operators : List Operator :=
  let growing (s : String) : Operator := ⟨s.toList, true⟩
  let fixed (s : String) : Operator := ⟨s.toList, false⟩
  [growing "->>", growing "->", growing "-", growing "%",
   growing "||/", growing "||", growing "|/", growing "|",
   growing "<=>", growing "<=", growing "<>", growing "<<", growing "<@", growing "<",
   growing ">=", growing ">>", growing ">", growing "&&", growing "&",
   growing "~~*", growing "~~", growing "~*", growing "~",
   growing "#>>", growing "#>", growing "#-", growing "#",
   fixed "=>", fixed "==", fixed "!~~*", fixed "!~~", fixed "!~*", fixed "!~",
   fixed "!!", fixed "!=", fixed "::", fixed ":=", fixed "^@",
   fixed "@@", fixed "@>", fixed "@?"]

/-- The operator of integer division, which DuckDB alone has. -/
def integerDivision : Operator := ⟨['/', '/'], false⟩

/-- The characters of which PostgreSQL makes operators. -/
def isOperatorChar (c : Char) : Bool := "+-*/<>=~!@#%^&|`?".toList.contains c

/-- How an operator prints: inequality has one form. -/
def Operator.printed (o : Operator) : List Char :=
  if o.spelling = ['!', '='] then ['<', '>'] else o.spelling

/-- An operator of more than one character, or one that may be extended. -/
def readOperator (d : Dialect) (c : Char) (r : List Char) : Found :=
  let known := if d = .duckdb then integerDivision :: operators else operators
  match known.find? fun o => o.spelling.isPrefixOf (c :: r) with
  | some o =>
    let rest := r.drop (o.spelling.length - 1)
    let extra := if d = .postgres ∧ o.grows then rest.takeWhile isOperatorChar else []
    .token (.symbol (if extra.isEmpty then o.printed else o.spelling ++ extra))
      (rest.drop extra.length)
  | none => .pass

/-- The rule for operators. -/
def operator : Rule where
  read := readOperator
  within := by
    intro d c r
    unfold readOperator
    dsimp only
    split
    · simp only [Found.Within, List.length_drop]; omega
    · trivial

/-- A word. -/
def readWord (d : Dialect) (c : Char) (r : List Char) : Found :=
  if isWordStart d c then
    .token (.word (c :: r.takeWhile (isWordPart d))) (r.dropWhile (isWordPart d))
  else .pass

/-- The rule for words. -/
def word : Rule where
  read := readWord
  within := by
    intro d c r
    unfold readWord
    split
    · exact length_dropWhile_le _ _
    · trivial

/-- Whether a character may stand in a tag between dollar signs. -/
def isTagChar (c : Char) : Bool := isAlphabetic c || isNumeric c || c == '_'

/-- A string between dollar signs, or a parameter. -/
def readDollar (_ : Dialect) (c : Char) (r : List Char) : Found :=
  if c ≠ '$' then .pass
  else if r.head? = some '$' then .ofReading (.dollarString []) (dollarPlain false r.tail)
  else
    let tag := r.takeWhile isTagChar
    let rest := r.dropWhile isTagChar
    if rest.head? = some '$' then .ofReading (.dollarString tag) (dollarTagged tag rest.tail)
    else .token (.parameter (c :: tag)) rest

/-- The rule for dollar signs. -/
def dollar : Rule where
  read := readDollar
  within := by
    intro d c r
    have h := length_dropWhile_le isTagChar r
    unfold readDollar
    split
    · trivial
    · split
      · refine Found.within_ofReading fun t rest ht => ?_
        have := dollarPlain_length ht
        simp only [List.length_tail] at this
        omega
      · dsimp only
        split
        · refine Found.within_ofReading fun t rest ht => ?_
          have := dollarTagged_length ht
          simp only [List.length_tail] at this
          omega
        · exact h

/-! ## The reading -/

/-- The rules in the order in which they are tried. -/
def all : List Rule :=
  [blank, string, name, number, comment, markedWord, question, operator, word, dollar]

/-- A character that no rule knows: any other blank is a space. -/
def other (c : Char) (r : List Char) : Found :=
  .token (if isBlank c then .blank ' ' else .symbol [c]) r

/-- What the first rule that applies makes of a text. -/
def find (d : Dialect) (c : Char) (r : List Char) : Found :=
  all.foldr (fun rule found => (rule.read d c r).orElse found) (other c r)

/-- Every token takes at least one character. -/
theorem find_within (d : Dialect) (c : Char) (r : List Char) :
    (find d c r).Within r.length := by
  unfold find
  induction all with
  | nil => exact Nat.le_refl _
  | cons rule rules ih => exact Found.within_orElse (rule.within d c r) ih

theorem find_length {d : Dialect} {c : Char} {r rest : List Char} {t : Token}
    (h : find d c r = .token t rest) : rest.length ≤ r.length := by
  have := find_within d c r
  rwa [h] at this

end Rule

/-- The tokens of a statement in a dialect; nothing when it is malformed. -/
def tokens (d : Dialect) : List Char → Option (List Token)
  | [] => some []
  | c :: r =>
    match _h : Rule.find d c r with
    | .token t rest => (tokens d rest).map (t :: ·)
    | _ => none
termination_by s => s.length
decreasing_by
  have := Rule.find_length _h
  simp only [List.length_cons]
  omega

/-- The code of a statement as a dialect reads it, with a space for every
comment; nothing when it is malformed. -/
def stripComments (d : Dialect) (sql : List Char) : Option (List Char) :=
  (tokens d sql).map fun ts => ts.flatMap Token.text

end DealSql.Statement
