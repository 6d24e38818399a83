import DealSql.Json.Reader
import DealSql.Text.Escaped
import DealSql.Text.Integer

/-!
# Scalars of a document

Strings of four kinds, integers in four bases, numbers with a fraction or an
exponent, truth values, and dates and times.  A scalar that is no string is
a run of characters that is read as a whole.

Numbers that are not integers, and dates and times, are kept as they are
written.  Integers are kept as long as a word of 128 bits can hold them.
-/

namespace DealSql.Toml

open DealSql.Text

/-- Whether a character may stand in a string or a comment for itself. -/
def isPlain (c : Char) : Bool := c == '\t' || (0x20 ≤ c.toNat && c.toNat ≠ 0x7f)

/-- The rest of a text after a new line, if one comes first. -/
def newline? : List Char → Option (List Char)
  | '\n' :: r => some r
  | '\r' :: '\n' :: r => some r
  | _ => none

/-! ## Strings -/

/-- The character of an escape after its backslash. -/
def escape : List Char → Reading Char
  | [] => none
  | c :: r =>
    if c = 'u' then codePoint 4 id r
    else if c = 'U' then codePoint 8 id r
    else if c = '"' ∨ c = '\\' then some (c, r)
    else (control? c).map (·, r)

/-- The escapes of basic strings. -/
def escapes : EscapeRule where
  read := escape
  shrinks := by
    intro s c rest h
    cases s with
    | nil => simp [escape] at h
    | cons d r =>
      simp only [escape] at h
      simp only [List.length_cons]
      split at h
      · have := codePoint_length h; omega
      · split at h
        · have := codePoint_length h; omega
        · split at h
          · simp_all
          · obtain ⟨e, -, he⟩ := Option.map_eq_some_iff.1 h
            simp only [Prod.mk.injEq] at he
            simp [← he.2]

/-- A literal string after its opening mark. -/
def literal (s : List Char) : Reading (List Char) :=
  let t := s.takeWhile fun c => isPlain c && c != '\''
  match s.drop t.length with
  | '\'' :: r => some (t, r)
  | _ => none

/-- How many of the next characters, at most five, are a mark. -/
def marksAhead (mark : Char) (s : List Char) : Nat :=
  ((s.take 5).takeWhile (· == mark)).length

/-- Whether a character may stand between the lines that a backslash joins. -/
def isGap (c : Char) : Bool := c == ' ' || c == '\t' || c == '\n' || c == '\r'

/-- What follows a backslash that joins lines: only blanks may stand before
the end of its line. -/
def joined? (s : List Char) : Option (List Char) :=
  (newline? (s.dropWhile fun c => c == ' ' || c == '\t')).map fun r => r.dropWhile isGap

/-- A string of several lines after its opening marks.  Up to two marks may
stand before the closing ones.  Where escapes are allowed, a backslash
begins one or joins the lines around it.  At most `fuel` steps are taken. -/
def multiline (mark : Char) (escaped : Bool) : Nat → List Char → Reading (List Char)
  | 0, _ => none
  | _ + 1, [] => none
  | fuel + 1, c :: r =>
    let n := marksAhead mark (c :: r)
    if 3 ≤ n then some (List.replicate (n - 3) mark, (c :: r).drop n)
    else if escaped && c == '\\' then
      match joined? r with
      | some rest => multiline mark escaped fuel rest
      | none => (escape r).bind fun x => push x.1 (multiline mark escaped fuel x.2)
    else match newline? (c :: r) with
      | some rest => push '\n' (multiline mark escaped fuel rest)
      | none => if isPlain c then push c (multiline mark escaped fuel r) else none

/-- A string of several lines after its opening marks, without the new line
right behind them. -/
def multilineString (mark : Char) (escaped : Bool) (s : List Char) : Reading (List Char) :=
  multiline mark escaped (s.length + 1) ((newline? s).getD s)

/-- A string on one line. -/
def lineString : List Char → Reading (List Char)
  | '"' :: r => upToQuote escapes isPlain r
  | '\'' :: r => literal r
  | _ => none

/-- A string of any kind. -/
def string : List Char → Reading (List Char)
  | '"' :: '"' :: '"' :: r => multilineString '"' true r
  | '\'' :: '\'' :: '\'' :: r => multilineString '\'' false r
  | r => lineString r

/-! ## Numbers -/

/-- Digits without the underscores between them; an underscore needs a
digit on either side. -/
def ungrouped? (isDigit : Char → Bool) (s : List Char) : Option (List Char) :=
  let parts := s.splitOn '_'
  if parts.all fun p => !p.isEmpty && p.all isDigit then some parts.flatten else none

/-- The sign of a number, and the rest. -/
def signOf : List Char → List Char × List Char
  | '+' :: r => (['+'], r)
  | '-' :: r => (['-'], r)
  | r => ([], r)

/-- The value of digits in a base. -/
def valueIn (base : Nat) (ds : List Char) : Nat :=
  ds.foldl (fun n c => n * base + (hexDigit? c).getD 0) 0

/-- The digits of a decimal number before its point. -/
def wholeDigits? (s : List Char) : Option (List Char) :=
  (ungrouped? Char.isDigit s).filter fun ds => ds.length = 1 ∨ ds.head? ≠ some '0'

/-- The integers that can be kept. -/
def isKept (n : Int) : Bool := -Int.pow 2 127 ≤ n && n < Int.pow 2 128

/-- The value of an integer. -/
def integer? (s : List Char) : Option Int :=
  let based (base : Nat) (isDigit : Char → Bool) (r : List Char) : Option Int :=
    (ungrouped? isDigit r).map fun ds => (valueIn base ds : Int)
  let n : Option Int := match s with
    | '0' :: 'x' :: r => based 16 isHex r
    | '0' :: 'o' :: r => based 8 isOctal r
    | '0' :: 'b' :: r => based 2 (fun c => c == '0' || c == '1') r
    | _ =>
      let (sign, r) := signOf s
      (wholeDigits? r).map fun ds =>
        if sign = ['-'] then -(valueIn 10 ds : Int) else (valueIn 10 ds : Int)
  n.filter isKept

/-- Whether a text is a number with a fraction or an exponent that double
precision can hold, or one of the special numbers. -/
def isReal (s : List Char) : Bool :=
  let r := (signOf s).2
  if r = "inf".toList ∨ r = "nan".toList then true
  else
    let mantissa := r.takeWhile fun c => c != 'e' && c != 'E'
    let power := (r.drop mantissa.length).drop 1
    let whole := mantissa.takeWhile (· != '.')
    let places := (mantissa.drop whole.length).drop 1
    let exponent := (signOf power).2
    let hasPower := mantissa.length < r.length
    let hasPlaces := whole.length < mantissa.length
    match wholeDigits? whole, ungrouped? Char.isDigit places,
        ungrouped? Char.isDigit exponent with
    | none, _, _ => false
    | some w, p?, e? =>
      (hasPower || hasPlaces) && (!hasPlaces || p?.isSome) && (!hasPower || e?.isSome) &&
        Json.isFinite w (p?.getD [])
          (if (signOf power).1 = ['-'] then -(valueIn 10 (e?.getD []) : Int)
            else (valueIn 10 (e?.getD []) : Int))

/-! ## Dates and times -/

/-- The value of exactly so many digits. -/
def fixed? (n : Nat) (s : List Char) : Option Nat :=
  if s.length = n ∧ s.all Char.isDigit then some (valueIn 10 s) else none

/-- The number of days of a month. -/
def daysIn (year month : Nat) : Nat :=
  if month = 2 then
    if year % 4 = 0 ∧ (year % 100 ≠ 0 ∨ year % 400 = 0) then 29 else 28
  else if month = 4 ∨ month = 6 ∨ month = 9 ∨ month = 11 then 30 else 31

/-- Whether a text is a date. -/
def isDate (s : List Char) : Bool :=
  s.length = 10 && s[4]? == some '-' && s[7]? == some '-' &&
    match fixed? 4 (s.take 4), fixed? 2 ((s.drop 5).take 2), fixed? 2 (s.drop 8) with
    | some y, some m, some d => 1 ≤ m && m ≤ 12 && 1 ≤ d && d ≤ daysIn y m
    | _, _, _ => false

/-- Whether a text is the hour and minute of a time. -/
def isHourMinute (s : List Char) : Bool :=
  s.length = 5 && s[2]? == some ':' &&
    match fixed? 2 (s.take 2), fixed? 2 (s.drop 3) with
    | some h, some m => h ≤ 23 && m ≤ 59
    | _, _ => false

/-- Whether a text is a time of day, with a fraction of the second or without. -/
def isTime (s : List Char) : Bool :=
  isHourMinute (s.take 5) && s[5]? == some ':' &&
    (fixed? 2 ((s.drop 6).take 2)).any (· ≤ 60) &&
    match s.drop 8 with
    | [] => true
    | '.' :: r => !r.isEmpty && r.all Char.isDigit
    | _ => false

/-- Whether a text is the distance from universal time. -/
def isOffset : List Char → Bool
  | [] => true
  | ['Z'] => true
  | ['z'] => true
  | c :: r => (c == '+' || c == '-') && isHourMinute r

/-- Whether a text is a date, a time, or both. -/
def isDateTime (s : List Char) : Bool :=
  isDate s || isTime s ||
    (isDate (s.take 10) && (s[10]?).any (fun c => c == 'T' || c == 't' || c == ' ') &&
      let r := s.drop 11
      let time := r.takeWhile fun c => c.isDigit || c == ':' || c == '.'
      isTime time && isOffset (r.drop time.length))

/-! ## Plain scalars -/

/-- Whether a character may stand in a scalar that is no string. -/
def isScalarChar (c : Char) : Bool := c.isAlphanum || "+-_.:".toList.contains c

/-- The run of characters that a scalar is written with.  A blank may stand
between a date and a time. -/
def scalarRun (s : List Char) : List Char :=
  let run := s.takeWhile isScalarChar
  match s.drop run.length with
  | ' ' :: d :: r =>
    if isDate run && d.isDigit then run ++ ' ' :: (d :: r).takeWhile isScalarChar else run
  | _ => run

/-- The value of a scalar that is no string. -/
def scalarValue? (run : List Char) : Option Json :=
  if run = "true".toList then some (.bool true)
  else if run = "false".toList then some (.bool false)
  else match integer? run with
    | some n => some (.integer n)
    | none => if isReal run || isDateTime run then some (.real (String.ofList run)) else none

/-- A scalar. -/
def scalar (s : List Char) : Reading Json :=
  if s.head? = some '"' ∨ s.head? = some '\'' then
    (string s).map fun x => (.string (String.ofList x.1), x.2)
  else
    let run := scalarRun s
    (scalarValue? run).map (·, s.drop run.length)

end DealSql.Toml
