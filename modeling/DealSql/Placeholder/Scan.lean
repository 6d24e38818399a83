import DealSql.Distinct
import DealSql.Placeholder.Basic
import DealSql.Statement.Mask

/-!
# Placeholders in a statement

The braces of a statement, its comments masked, fall into groups: a group
opens at a brace outside any group, and closes at the brace that matches
it.  A group that holds no further brace names a placeholder or is a fault
of its own; one with braces inside, one that never closes, and a closing
brace outside a group are faults whatever they hold.

* `braceGroups` — the groups in the order in which they open.
* `scan` — what the groups amount to.
-/

namespace DealSql

open DealSql.Text DealSql.Statement

namespace Placeholder

/-- A group of braces, with the position where it begins. -/
inductive BraceGroup where
  /-- A pair of braces with no brace between them. -/
  | simple (start : Nat) (content : List Char)
  /-- A group with braces inside. -/
  | nested (start : Nat) (closed : Bool)
  /-- A brace that never closes, with no brace after it. -/
  | unclosed (start : Nat)
  /-- A closing brace outside any group. -/
  | stray (start : Nat)
  deriving Repr, DecidableEq

/-- Where the reading of braces stands: outside, in a group whose content
so far is given backwards, or in a group with so many braces open. -/
inductive BraceState where
  | outside
  | inside (start : Nat) (content : List Char)
  | nested (start : Nat) (opened : Nat)
  deriving Repr, DecidableEq

/-- The groups that close after a state, in a text that begins at a position. -/
def groupsFrom (offset : Nat) : BraceState → List Char → List BraceGroup
  | .outside, [] => []
  | .inside start _, [] => [.unclosed start]
  | .nested start _, [] => [.nested start false]
  | .outside, c :: r =>
    if c = '\x7b' then groupsFrom (offset + 1) (.inside offset []) r
    else if c = '\x7d' then .stray offset :: groupsFrom (offset + 1) .outside r
    else groupsFrom (offset + c.utf8Size) .outside r
  | .inside start content, c :: r =>
    if c = '\x7b' then groupsFrom (offset + 1) (.nested start 2) r
    else if c = '\x7d' then
      .simple start content.reverse :: groupsFrom (offset + 1) .outside r
    else groupsFrom (offset + c.utf8Size) (.inside start (c :: content)) r
  | .nested start opened, c :: r =>
    if c = '\x7b' then groupsFrom (offset + 1) (.nested start (opened + 1)) r
    else if c = '\x7d' then
      if opened = 1 then .nested start true :: groupsFrom (offset + 1) .outside r
      else groupsFrom (offset + 1) (.nested start (opened - 1)) r
    else groupsFrom (offset + c.utf8Size) (.nested start opened) r

/-- The groups of braces of a text. -/
def braceGroups (text : List Char) : List BraceGroup := groupsFrom 0 .outside text

/-- A fault in the placeholders of a statement, with its position. -/
inductive Fault where
  | unknown (name : String) (offset : Nat)
  | nested (offset : Nat)
  | empty (offset : Nat)
  | whitespace (name : String) (offset : Nat)
  | illegalCharacter (name : String) (offset : Nat)
  | unclosed (offset : Nat)
  | unmatchedClose (offset : Nat)
  deriving Repr, DecidableEq

namespace Fault

/-- Where a fault is. -/
def offset : Fault → Nat
  | .unknown _ n => n
  | .nested n => n
  | .empty n => n
  | .whitespace _ n => n
  | .illegalCharacter _ n => n
  | .unclosed n => n
  | .unmatchedClose n => n

/-- The name that is at fault. -/
def name? : Fault → Option String
  | .unknown n _ => some n
  | .whitespace n _ => some n
  | .illegalCharacter n _ => some n
  | _ => none

/-- The wording of a fault. -/
def message : Fault → String
  | .unknown name _ => s!"Unknown placeholder '{name}'"
  | .nested offset => s!"Nested braces in placeholder starting at offset {offset}"
  | .empty offset => s!"Empty placeholder '\x7b\x7d' at offset {offset}"
  | .whitespace name _ => s!"Placeholder '{name}' must not contain whitespace"
  | .illegalCharacter name _ =>
    s!"Placeholder '{name}' may only contain letters, digits and underscores"
  | .unclosed offset => s!"Unclosed '\x7b' at offset {offset}"
  | .unmatchedClose offset => s!"Unmatched '\x7d' at offset {offset}"

end Fault

/-- A placeholder in a statement, and where it begins and ends, its braces included. -/
structure Occurrence where
  placeholder : Placeholder
  start : Nat
  stop : Nat
  deriving Repr, DecidableEq

/-- Whether a name may hold a character. -/
def isNameChar (c : Char) : Bool := c.isAlphanum || c == '_'

/-- The placeholder that the content of a group names, or what is wrong with it. -/
def classify (start : Nat) (content : List Char) : Except Fault Placeholder :=
  if (trim content).isEmpty then .error (.empty start)
  else if content.any isBlank then
    .error (.whitespace (String.ofList (trim content)) start)
  else if !content.all isNameChar then
    .error (.illegalCharacter (String.ofList content) start)
  else match parse? content with
    | some p => .ok p
    | none => .error (.unknown (String.ofList content) start)

namespace BraceGroup

/-- The placeholder that a group is. -/
def occurrence? : BraceGroup → Option Occurrence
  | .simple start content =>
    match classify start content with
    | .ok p => some ⟨p, start, start + byteLength content + 2⟩
    | .error _ => none
  | _ => none

/-- What is wrong with a group. -/
def faults : BraceGroup → List Fault
  | .simple start content =>
    match classify start content with
    | .ok _ => []
    | .error e => [e]
  | .nested start closed => .nested start :: if closed then [] else [.unclosed start]
  | .unclosed start => [.unclosed start]
  | .stray start => [.unmatchedClose start]

/-- Whether a group begins with an opening brace. -/
def opens : BraceGroup → Bool
  | .stray _ => false
  | _ => true

end BraceGroup

/-- The placeholders of a statement. -/
structure Scan where
  occurrences : List Occurrence
  faults : List Fault
  /-- The number of groups, right or wrong. -/
  groups : Nat
  deriving Repr, DecidableEq

namespace Scan

/-- The placeholders of a statement, each once, in the order of first appearance. -/
def placeholders (s : Scan) : List Placeholder :=
  distinct (s.occurrences.map Occurrence.placeholder)

/-- Whether nothing is wrong with the placeholders. -/
def isClean (s : Scan) : Bool := s.faults.isEmpty

end Scan

/-- The placeholders of a statement and what is wrong with them. -/
def scan (sql : List Char) : Scan :=
  let groups := braceGroups (maskComments sql)
  { occurrences := groups.filterMap BraceGroup.occurrence?
    faults := groups.flatMap BraceGroup.faults
    groups := groups.countP BraceGroup.opens }

/-- A statement with every placeholder replaced by its value. -/
def fillFrom (value : Placeholder → List Char) (sql : List Char) (cursor : Nat) :
    List Occurrence → List Char
  | [] => dropBytes cursor sql
  | o :: os =>
    sliceBytes cursor o.start sql ++ value o.placeholder ++ fillFrom value sql o.stop os

/-- A statement with the placeholders found in it replaced by their values. -/
def fill (value : Placeholder → List Char) (sql : List Char) : List Char :=
  fillFrom value sql 0 (scan sql).occurrences

end Placeholder

end DealSql
