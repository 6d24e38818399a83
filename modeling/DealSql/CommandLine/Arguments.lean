/-!
# Arguments

The arguments of a program are switches and operands.  A switch has a long
name after two dashes and may have a letter after one; letters may be put
together.  The value of a switch is attached to it, behind an equals sign or
right behind its letter, or is the next argument, which then must not look
like a switch.  Two dashes alone end the switches.
-/

namespace DealSql.CommandLine

/-- A switch that may be given. -/
structure Switch where
  name : String
  letter : Option Char
  takesValue : Bool
  /-- Whether it may be given more than once. -/
  repeatable : Bool
  deriving Repr, DecidableEq

/-- A switch that has been given, with an empty value where it takes none. -/
structure Given where
  switch : Switch
  value : String
  deriving Repr, DecidableEq

/-- What the arguments were. -/
structure Arguments where
  given : List Given
  operands : List String
  deriving Repr, DecidableEq

namespace Arguments

/-- Whether an argument is meant as a switch. -/
def looksLikeSwitch (a : String) : Bool := a.toList.head? == some '-' && a != "-"

/-- The value of a switch, and how many further arguments it takes up. -/
def valueOf? (s : Switch) (attached : Option String) (rest : List String) :
    Option (Given × Nat) :=
  match s.takesValue, attached with
  | false, none => some (⟨s, ""⟩, 0)
  | false, some _ => none
  | true, some v => some (⟨s, v⟩, 0)
  | true, none =>
    match rest with
    | [] => none
    | v :: _ => if looksLikeSwitch v then none else some (⟨s, v⟩, 1)

/-- The switch of an argument after its two dashes. -/
def named? (ss : List Switch) (a : List Char) (rest : List String) : Option (List Given × Nat) :=
  let name := a.takeWhile (· != '=')
  let attached :=
    if name.length < a.length then some (String.ofList (a.drop (name.length + 1))) else none
  (ss.find? fun s => s.name.toList == name).bind fun s =>
    (valueOf? s attached rest).map fun x => ([x.1], x.2)

/-- The switches of an argument after its dash.  What follows the letter of
a switch with a value is the value. -/
def lettered? (ss : List Switch) (rest : List String) : List Char → Option (List Given × Nat)
  | [] => some ([], 0)
  | c :: cs =>
    (ss.find? fun s => s.letter == some c).bind fun s =>
      if s.takesValue then
        let value := if cs.head? = some '=' then cs.tail else cs
        let attached := if cs.isEmpty then none else some (String.ofList value)
        (valueOf? s attached rest).map fun x => ([x.1], x.2)
      else (lettered? ss rest cs).map fun x => (⟨s, ""⟩ :: x.1, x.2)

/-- The switches of an argument. -/
def switches? (ss : List Switch) (a : String) (rest : List String) : Option (List Given × Nat) :=
  match a.toList with
  | '-' :: '-' :: name => named? ss name rest
  | '-' :: letters => lettered? ss rest letters
  | _ => none

/-- The arguments as they stand.  The switches may be mixed with the operands,
or else the first operand ends them. -/
def readAll (ss : List Switch) (mixed : Bool) : List String → Option Arguments
  | [] => some ⟨[], []⟩
  | a :: rest =>
    if a = "--" then some ⟨[], if mixed then rest else a :: rest⟩
    else if looksLikeSwitch a then
      (switches? ss a rest).bind fun x =>
        (readAll ss mixed (rest.drop x.2)).map fun r => { r with given := x.1 ++ r.given }
    else if mixed then
      (readAll ss mixed rest).map fun r => { r with operands := a :: r.operands }
    else some ⟨[], a :: rest⟩
termination_by args => args.length
decreasing_by all_goals simp only [List.length_cons, List.length_drop]; omega

/-- The values given for a switch. -/
def values (a : Arguments) (s : Switch) : List String :=
  (a.given.filter fun g => g.switch == s).map Given.value

/-- Whether no switch is given more often than it may be. -/
def isProper (a : Arguments) (ss : List Switch) : Bool :=
  ss.all fun s => s.repeatable || (a.values s).length ≤ 1

/-- The arguments, where every switch is known and given no more often than
it may be. -/
def read? (ss : List Switch) (mixed : Bool) (args : List String) : Option Arguments :=
  (readAll ss mixed args).filter fun a => a.isProper ss

end Arguments

end DealSql.CommandLine
