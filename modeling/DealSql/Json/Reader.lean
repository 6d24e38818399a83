import DealSql.Json.Basic
import DealSql.Text.Escaped

/-!
# Reading JSON

A text is split into tokens, and the tokens are taken one by one by a
machine whose state holds the arrays and objects that are still open.
Arrays and objects may be nested to a fixed depth.
-/

namespace DealSql.Json

open DealSql.Text

/-- A token of JSON. -/
inductive Token where
  | openArray
  | closeArray
  | openObject
  | closeObject
  | comma
  | colon
  /-- A value without parts. -/
  | scalar (v : Json)
  deriving Repr

/-! ## Tokens -/

/-- The code unit of four hexadecimal digits. -/
def unit (r : List Char) : Reading Nat :=
  if 4 ≤ r.length then (hexValue? (r.take 4)).map (·, r.drop 4) else none

/-- The second unit of a pair of surrogates, with the escape before it. -/
def lowUnit : List Char → Reading Nat
  | '\\' :: 'u' :: r => (unit r).filter fun x => 0xDC00 ≤ x.1 && x.1 < 0xE000
  | _ => none

/-- The character of an escape after its `u`: four digits, or eight for a
pair of surrogates with the escape between them. -/
def unicodeEscape (r : List Char) : Reading Char :=
  (unit r).bind fun x =>
    if 0xD800 ≤ x.1 ∧ x.1 < 0xDC00 then
      (lowUnit x.2).map fun y =>
        (Char.ofNat (0x10000 + (x.1 - 0xD800) * 0x400 + (y.1 - 0xDC00)), y.2)
    else (charOf? x.1).map (·, x.2)

theorem unit_length {r rest : List Char} {n : Nat} (h : unit r = some (n, rest)) :
    rest.length ≤ r.length := by
  unfold unit at h
  split at h
  · obtain ⟨d, -, he⟩ := Option.map_eq_some_iff.1 h
    simp only [Prod.mk.injEq] at he
    simp [← he.2]
  · simp at h

theorem unicodeEscape_length {r rest : List Char} {c : Char}
    (h : unicodeEscape r = some (c, rest)) : rest.length ≤ r.length := by
  obtain ⟨⟨n, mid⟩, hu, hx⟩ := Option.bind_eq_some_iff.1 h
  have hmid := unit_length hu
  split at hx
  · obtain ⟨⟨m, last⟩, hl, he⟩ := Option.map_eq_some_iff.1 hx
    simp only [Prod.mk.injEq] at he
    unfold lowUnit at hl
    split at hl
    · have := unit_length (Option.filter_eq_some_iff.1 hl).1
      simp_all only [List.length_cons]; omega
    · simp at hl
  · obtain ⟨d, -, he⟩ := Option.map_eq_some_iff.1 hx
    simp only [Prod.mk.injEq] at he
    simp_all

/-- The character of an escape after its backslash. -/
def escape : List Char → Reading Char
  | [] => none
  | c :: r =>
    if c = 'u' then unicodeEscape r
    else if c = '"' ∨ c = '\\' ∨ c = '/' then some (c, r)
    else (control? c).map (·, r)

/-- The escapes of JSON. -/
def escapes : EscapeRule where
  read := escape
  shrinks := by
    intro s c rest h
    cases s with
    | nil => simp [escape] at h
    | cons d r =>
      simp only [escape] at h
      split at h
      · have := unicodeEscape_length h
        simp only [List.length_cons]; omega
      · split at h
        · simp_all
        · obtain ⟨e, -, he⟩ := Option.map_eq_some_iff.1 h
          simp only [Prod.mk.injEq] at he
          simp [← he.2]

/-- Whether a character stands for itself in a string. -/
def isPlain (c : Char) : Bool := 0x20 ≤ c.toNat

/-- Whether a character may stand in a number. -/
def isNumberChar (c : Char) : Bool := c.isDigit || "+-.eE".toList.contains c

/-- The digits of a part of a number, with what follows; there must be one. -/
def digits? (s : List Char) : Option (List Char × List Char) :=
  let ds := s.takeWhile Char.isDigit
  if ds.isEmpty then none else some (ds, s.drop ds.length)

/-- The value of a run of digits. -/
def digitsValue (ds : List Char) : Nat :=
  ds.foldl (fun n c => n * 10 + (c.toNat - '0'.toNat)) 0

/-- The least number that double precision cannot hold. -/
def doubleBound : Nat := Nat.pow 2 1024 - Nat.pow 2 970

/-- Whether double precision can hold a decimal number.  The bound has 309
digits before the point. -/
def isFinite (whole fraction : List Char) (exponent : Int) : Bool :=
  let significant := (whole ++ fraction).dropWhile (· == '0')
  let count := significant.length
  let places : Int := count - fraction.length + exponent
  significant.isEmpty || places < 309 ||
    (places == 309 &&
      digitsValue significant * Nat.pow 10 (309 - count) <
        doubleBound * Nat.pow 10 (count - 309))

/-- The value of a number.  There is no integer that is zero with a sign. -/
def number? (s : List Char) : Option Json := do
  let negative := s.head? = some '-'
  let s' := if negative then s.tail else s
  let (whole, r) ← digits? s'
  if whole.head? = some '0' ∧ whole.length ≠ 1 then none
  let (fraction, r) ← match r with
    | '.' :: r => digits? r
    | _ => some ([], r)
  let (exponent, r) ← match r with
    | e :: r =>
      if e = 'e' ∨ e = 'E' then
        match r with
        | '-' :: r => (digits? r).map fun x => (some (-(digitsValue x.1 : Int)), x.2)
        | '+' :: r => (digits? r).map fun x => (some (digitsValue x.1 : Int), x.2)
        | r => (digits? r).map fun x => (some (digitsValue x.1 : Int), x.2)
      else none
    | [] => some (none, [])
  if !r.isEmpty then none
  else if fraction.isEmpty && exponent.isNone then
    let n : Int := digitsValue whole
    some (if !negative then .integer n else if n = 0 then .real (String.ofList s) else .integer (-n))
  else if isFinite whole fraction (exponent.getD 0) then some (.real (String.ofList s))
  else none

/-- The value of a word. -/
def word? (s : List Char) : Option Json :=
  if s = "true".toList then some (.bool true)
  else if s = "false".toList then some (.bool false)
  else if s = "null".toList then some .null
  else none

/-- Whether a character may stand between tokens. -/
def isSpace (c : Char) : Bool := c == ' ' || c == '\n' || c == '\t' || c == '\r'

/-- The tokens of a text; at most `fuel` characters are read. -/
def tokensWithin : Nat → List Char → Option (List Token)
  | 0, _ => none
  | _ + 1, [] => some []
  | fuel + 1, c :: r =>
    let followedBy (t : Token) (rest : List Char) := (tokensWithin fuel rest).map (t :: ·)
    if isSpace c then tokensWithin fuel r
    else if c = '[' then followedBy .openArray r
    else if c = ']' then followedBy .closeArray r
    else if c = '\x7b' then followedBy .openObject r
    else if c = '\x7d' then followedBy .closeObject r
    else if c = ',' then followedBy .comma r
    else if c = ':' then followedBy .colon r
    else if c = '"' then
      (upToQuote escapes isPlain r).bind fun x =>
        followedBy (.scalar (.string (String.ofList x.1))) x.2
    else if c = '-' ∨ c.isDigit then
      let t := (c :: r).takeWhile isNumberChar
      (number? t).bind fun v => followedBy (.scalar v) ((c :: r).drop t.length)
    else
      let t := (c :: r).takeWhile Char.isAlpha
      (word? t).bind fun v => followedBy (.scalar v) ((c :: r).drop t.length)

/-- The tokens of a text. -/
def tokens? (s : List Char) : Option (List Token) := tokensWithin (s.length + 1) s

/-! ## Values -/

/-- An array or object that is still open, its parts backwards. -/
inductive Frame where
  | array (items : List Json)
  | object (members : List (String × Json)) (key : String)
  deriving Repr

/-- What may come next, with the open arrays and objects, the innermost first. -/
inductive State where
  | value (stack : List Frame)
  /-- A value, or the end of the array that has just been opened. -/
  | firstItem (stack : List Frame)
  /-- A key, or the end of the object that has just been opened. -/
  | firstKey (stack : List Frame)
  | key (members : List (String × Json)) (stack : List Frame)
  | colon (members : List (String × Json)) (key : String) (stack : List Frame)
  /-- A comma or the end, after a value that belongs to the given frame. -/
  | after (frame : Frame) (stack : List Frame)
  | done (v : Json)
  deriving Repr

/-- How many arrays and objects may be open at once. -/
def maxDepth : Nat := 127

/-- The state after a complete value. -/
def State.close (v : Json) : List Frame → State
  | [] => .done v
  | .array items :: stack => .after (.array (v :: items)) stack
  | .object members k :: stack => .after (.object ((k, v) :: members) k) stack

/-- The state where a value begins with a token. -/
def State.begin (stack : List Frame) : Token → Option State
  | .scalar v => some (.close v stack)
  | .openArray => if stack.length < maxDepth then some (.firstItem stack) else none
  | .openObject => if stack.length < maxDepth then some (.firstKey stack) else none
  | _ => none

/-- The state after a token. -/
def State.step : State → Token → Option State
  | .value stack, t => State.begin stack t
  | .firstItem stack, .closeArray => some (.close (.array []) stack)
  | .firstItem stack, t => State.begin (.array [] :: stack) t
  | .firstKey stack, .closeObject => some (.close (.object []) stack)
  | .firstKey stack, .scalar (.string k) => some (.colon [] k stack)
  | .key members stack, .scalar (.string k) => some (.colon members k stack)
  | .colon members k stack, .colon => some (.value (.object members k :: stack))
  | .after (.array items) stack, .comma => some (.value (.array items :: stack))
  | .after (.array items) stack, .closeArray =>
    some (.close (.array items.reverse) stack)
  | .after (.object members _) stack, .comma => some (.key members stack)
  | .after (.object members _) stack, .closeObject =>
    some (.close (.object members.reverse) stack)
  | _, _ => none

/-- The value that a text spells. -/
def read? (s : List Char) : Option Json :=
  match (tokens? s).bind fun ts => ts.foldlM State.step (.value []) with
  | some (.done v) => some v
  | _ => none

end DealSql.Json
