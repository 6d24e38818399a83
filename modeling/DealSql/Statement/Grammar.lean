import DealSql.Statement.Token
import DealSql.Text.Case

/-!
# Grammars over tokens

A grammar is an expression over tests of single tokens.  Alternatives are
tried in order and the first that fits is kept, and a repetition takes as
many rounds as it can, so that a text has at most one reading.  Grammars
refer to each other by name through a table of rules.
-/

namespace DealSql.Statement

open DealSql.Text

/-- A grammar whose rules have the names `ν`. -/
inductive Grammar (ν : Type) where
  /-- Takes nothing. -/
  | nothing
  /-- Takes a token that passes a test. -/
  | one (test : Token → Bool)
  /-- One part after the other. -/
  | seq (a b : Grammar ν)
  /-- The first part if it fits, and else the second. -/
  | choice (a b : Grammar ν)
  /-- As many rounds as fit. -/
  | many (a : Grammar ν)
  /-- Takes nothing, provided the next token fails a test. -/
  | unless (test : Token → Bool)
  /-- What a rule says. -/
  | rule (x : ν)

namespace Grammar

variable {ν : Type}

/-- What is left of the tokens after the longest reading; nothing when the
grammar does not fit.  The steps are bounded by `fuel`. -/
def run (rules : ν → Grammar ν) : Nat → Grammar ν → List Token → Option (List Token)
  | 0, _, _ => none
  | _ + 1, .nothing, ts => some ts
  | _ + 1, .one _, [] => none
  | _ + 1, .one test, t :: ts => if test t then some ts else none
  | fuel + 1, .seq a b, ts =>
    match run rules fuel a ts with
    | some rest => run rules fuel b rest
    | none => none
  | fuel + 1, .choice a b, ts =>
    match run rules fuel a ts with
    | some rest => some rest
    | none => run rules fuel b ts
  | fuel + 1, .many a, ts =>
    match run rules fuel a ts with
    | some rest =>
      if rest.length < ts.length then run rules fuel (.many a) rest else some ts
    | none => some ts
  | _ + 1, .unless test, ts => if ts.head?.any test then none else some ts
  | fuel + 1, .rule x, ts => run rules fuel (rules x) ts

/-- Whether a grammar fits all of a list of tokens.  Between two tokens a
reading takes far fewer steps than are allowed here. -/
def fits (rules : ν → Grammar ν) (g : Grammar ν) (ts : List Token) : Bool :=
  run rules (200 * (ts.length + 1)) g ts == some []

/-- The parts one after the other. -/
def all : List (Grammar ν) → Grammar ν
  | [] => .nothing
  | g :: gs => .seq g (all gs)

/-- The first part that fits. -/
def any (g : Grammar ν) : List (Grammar ν) → Grammar ν
  | [] => g
  | h :: hs => .choice g (any h hs)

/-- A part that may be left out. -/
def optional (g : Grammar ν) : Grammar ν := .choice g .nothing

/-- At least one round. -/
def some1 (g : Grammar ν) : Grammar ν := .seq g (.many g)

/-- Whether a token is one of some keywords. -/
def isKeyword (words : List String) : Token → Bool
  | .word w => isOneOf w words
  | _ => false

/-- Whether a token is a symbol. -/
def isSymbol (s : String) : Token → Bool
  | .symbol t => t == s.toList
  | _ => false

/-- A keyword. -/
def keyword (word : String) : Grammar ν := .one (isKeyword [word])

/-- One of some keywords. -/
def keywords (words : List String) : Grammar ν := .one (isKeyword words)

/-- A symbol. -/
def symbol (s : String) : Grammar ν := .one (isSymbol s)

/-- A part in parentheses. -/
def parens (g : Grammar ν) : Grammar ν := all [symbol "(", g, symbol ")"]

end Grammar

end DealSql.Statement
