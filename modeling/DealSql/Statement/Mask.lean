import DealSql.Text.Bytes

/-!
# Masked statements

Comments and the insides of string literals must not be taken for code.
Reading a statement from the left gives every character its *role*; a mask
then replaces the characters of the unwanted roles by as many spaces as
they have bytes.  Positions therefore mean the same in the statement and
in its mask, and line feeds always stay.

The reading knows no dialect: two dashes open a comment to the end of the
line, a slash and a star one to the next star and slash, a single quote a
literal in which a doubled quote stands for one, and a double quote a name
up to the next double quote.  What is not closed runs to the end.

* `marksFrom_text` — the marks spell the statement, in order.
* `byteLength_mask` — a mask has the length of its statement.
-/

namespace DealSql.Statement

open DealSql.Text

/-- What a character of a statement belongs to.  The quotes around a
literal or a name are code. -/
inductive Role where
  | code
  | comment
  | literal
  | name
  deriving Repr, DecidableEq

/-- Where the reading stands before a character.  The states that end in
`Second` stand before the second character of a two-character mark. -/
inductive Region where
  | code
  | lineSecond
  | line
  | blockSecond
  | block
  | closeSecond
  | literal
  | quoteSecond
  | name
  deriving Repr, DecidableEq

/-- The role of a character and the region after it, given the character
that follows. -/
def Region.read (c : Char) (ahead : Option Char) : Region → Role × Region
  | .code =>
    if c = '-' ∧ ahead = some '-' then (.comment, .lineSecond)
    else if c = '/' ∧ ahead = some '*' then (.comment, .blockSecond)
    else if c = '\'' then (.code, .literal)
    else if c = '"' then (.code, .name)
    else (.code, .code)
  | .lineSecond => (.comment, .line)
  | .line => if c = '\n' then (.code, .code) else (.comment, .line)
  | .blockSecond => (.comment, .block)
  | .block => if c = '*' ∧ ahead = some '/' then (.comment, .closeSecond) else (.comment, .block)
  | .closeSecond => (.comment, .code)
  | .literal =>
    if c = '\'' then if ahead = some '\'' then (.literal, .quoteSecond) else (.code, .code)
    else (.literal, .literal)
  | .quoteSecond => (.literal, .literal)
  | .name => if c = '"' then (.code, .code) else (.name, .name)

/-- The characters of a statement with their roles, read from a region. -/
def marksFrom (g : Region) : List Char → List (Char × Role)
  | [] => []
  | c :: r =>
    let (role, next) := g.read c r.head?
    (c, role) :: marksFrom next r

/-- The characters of a statement with their roles. -/
def marks (sql : List Char) : List (Char × Role) := marksFrom .code sql

/-- What is masked: comments alone, or the insides of literals as well. -/
inductive Mask where
  | comments
  | commentsAndLiterals
  deriving Repr, DecidableEq

/-- Whether a mask hides the characters of a role. -/
def Mask.hides : Mask → Role → Bool
  | _, .comment => true
  | .commentsAndLiterals, .literal => true
  | _, _ => false

/-- As many spaces as a character has bytes; a line feed stays. -/
def blanks (c : Char) : List Char :=
  if c = '\n' then ['\n'] else List.replicate c.utf8Size ' '

/-- What a mask shows for a marked character. -/
def Mask.show (m : Mask) (x : Char × Role) : List Char :=
  if m.hides x.2 then blanks x.1 else [x.1]

/-- The masked form of a statement read from a region. -/
def maskFrom (m : Mask) (g : Region) (sql : List Char) : List Char :=
  (marksFrom g sql).flatMap m.show

/-- A statement with everything but its visible parts replaced by spaces. -/
def mask (m : Mask) (sql : List Char) : List Char := maskFrom m .code sql

/-- A statement without its comments. -/
def maskComments (sql : List Char) : List Char := mask .comments sql

/-- A statement without its comments and the insides of its literals. -/
def maskLiterals (sql : List Char) : List Char := mask .commentsAndLiterals sql

/-- The marks spell the statement, in order. -/
theorem marksFrom_text (g : Region) (sql : List Char) :
    (marksFrom g sql).map Prod.fst = sql := by
  induction sql generalizing g with
  | nil => rfl
  | cons c r ih => simp [marksFrom, ih]

/-- The blanks for a character take its place byte for byte. -/
theorem byteLength_blanks (c : Char) : byteLength (blanks c) = c.utf8Size := by
  unfold blanks
  split
  · next h => subst h; rfl
  · generalize c.utf8Size = n
    induction n with
    | zero => rfl
    | succ k ih =>
      have hs : ' '.utf8Size = 1 := rfl
      simp [List.replicate_succ, byteLength, ih, hs]
      omega

/-- A hidden mark is shown as blanks. -/
theorem Mask.show_of_hides {m : Mask} {c : Char} {r : Role} (h : m.hides r = true) :
    m.show (c, r) = blanks c :=
  if_pos h

/-- A mark that is not hidden is shown as it is. -/
theorem Mask.show_of_visible {m : Mask} {c : Char} {r : Role} (h : m.hides r = false) :
    m.show (c, r) = [c] :=
  if_neg (by simp [h])

/-- A mark is shown as its character or as the blanks for it. -/
theorem mem_show {m : Mask} {x : Char × Role} {c : Char} (h : c ∈ m.show x) :
    c = x.1 ∨ c ∈ blanks x.1 := by
  cases hx : m.hides x.2 with
  | true => exact Or.inr (by rwa [Mask.show_of_hides hx] at h)
  | false => exact Or.inl (by simpa [Mask.show_of_visible hx] using h)

/-- A mask shows the first character, then the rest from the region behind it. -/
theorem maskFrom_cons (m : Mask) (g : Region) (c : Char) (r : List Char) :
    maskFrom m g (c :: r) =
      m.show (c, (g.read c r.head?).1) ++ maskFrom m (g.read c r.head?).2 r :=
  rfl

/-- What is shown for a mark takes its place byte for byte. -/
theorem byteLength_show (m : Mask) (x : Char × Role) :
    byteLength (m.show x) = x.1.utf8Size := by
  unfold Mask.show
  split
  · exact byteLength_blanks _
  · simp [byteLength]

/-- A mask has the length of its statement. -/
theorem byteLength_maskFrom (m : Mask) (g : Region) (sql : List Char) :
    byteLength (maskFrom m g sql) = byteLength sql := by
  induction sql generalizing g with
  | nil => rfl
  | cons c r ih =>
    have h := ih (g.read c r.head?).2
    unfold maskFrom at h
    simp [maskFrom, marksFrom, byteLength_show, byteLength, h]

/-- A mask of a whole statement has its length. -/
theorem byteLength_mask (m : Mask) (sql : List Char) :
    byteLength (mask m sql) = byteLength sql := byteLength_maskFrom m .code sql

end DealSql.Statement
