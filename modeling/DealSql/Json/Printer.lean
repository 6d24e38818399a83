import DealSql.Json.Basic
import DealSql.Text.Integer

/-!
# Printing JSON

A value over several lines: every item and member on a line of its own,
indented by two spaces for every level, and nothing between the brackets of
an empty array or object.  Characters outside ASCII stand for themselves.
-/

namespace DealSql.Json

open DealSql.Text

/-- A hexadecimal digit. -/
def hexDigit (n : Nat) : Char := (Nat.toDigits 16 n).headD '0'

/-- A character inside a string. -/
def escapeChar (c : Char) : List Char :=
  if c = '"' then ['\\', '"']
  else if c = '\\' then ['\\', '\\']
  else if c = '\n' then ['\\', 'n']
  else if c = '\r' then ['\\', 'r']
  else if c = '\t' then ['\\', 't']
  else if c = '\x08' then ['\\', 'b']
  else if c = '\x0c' then ['\\', 'f']
  else if c.toNat < 0x20 then
    ['\\', 'u', '0', '0', hexDigit (c.toNat / 16), hexDigit (c.toNat % 16)]
  else [c]

/-- A string between its quotes. -/
def quoted (s : String) : List Char := '"' :: s.toList.flatMap escapeChar ++ ['"']

/-- A new line at a level. -/
def newline (level : Nat) : List Char := '\n' :: List.replicate (2 * level) ' '

mutual

/-- A value that begins at a level. -/
def print (level : Nat) : Json → List Char
  | .null => "null".toList
  | .bool true => "true".toList
  | .bool false => "false".toList
  | .integer n => Text.integer n
  | .real t => t.toList
  | .string s => quoted s
  | .array [] => ['[', ']']
  | .array (x :: xs) =>
    '[' :: newline (level + 1) ++ print (level + 1) x ++ printItems (level + 1) xs ++
      newline level ++ [']']
  | .object [] => ['\x7b', '\x7d']
  | .object ((k, v) :: ms) =>
    '\x7b' :: newline (level + 1) ++ quoted k ++ [':', ' '] ++ print (level + 1) v ++
      printMembers (level + 1) ms ++ newline level ++ ['\x7d']

/-- The items after the first. -/
def printItems (level : Nat) : List Json → List Char
  | [] => []
  | x :: xs => ',' :: newline level ++ print level x ++ printItems level xs

/-- The members after the first. -/
def printMembers (level : Nat) : List (String × Json) → List Char
  | [] => []
  | (k, v) :: ms =>
    ',' :: newline level ++ quoted k ++ [':', ' '] ++ print level v ++ printMembers level ms

end

/-- A value over several lines. -/
def pretty (v : Json) : String := String.ofList (print 0 v)

end DealSql.Json
