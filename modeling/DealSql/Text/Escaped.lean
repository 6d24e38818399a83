/-!
# Escapes

In many kinds of string a backslash begins an escape, which stands for a
character.  A kind of string is given by its `EscapeRule`, which reads what
follows a backslash.

* `codePoint_length`, `upToQuote_length` — what is left is no longer than
  what was given.
-/

namespace DealSql.Text

/-- What is read, and what follows it. -/
abbrev Reading (α : Type) := Option (α × List Char)

/-- Puts a character in front of what is read. -/
def push (c : Char) (x : Reading (List Char)) : Reading (List Char) :=
  x.map fun y => (c :: y.1, y.2)

theorem push_eq_some {c : Char} {x : Reading (List Char)} {t rest : List Char}
    (h : push c x = some (t, rest)) : ∃ u, x = some (u, rest) ∧ t = c :: u := by
  obtain ⟨⟨u, v⟩, hx, he⟩ := Option.map_eq_some_iff.1 h
  simp only [Prod.mk.injEq] at he
  exact ⟨u, by rw [hx, he.2], he.1.symm⟩

/-! ## Digits and characters -/

/-- The value of a hexadecimal digit. -/
def hexDigit? (c : Char) : Option Nat :=
  if c.isDigit then some (c.toNat - '0'.toNat)
  else if 'a' ≤ c ∧ c ≤ 'f' then some (c.toNat - 'a'.toNat + 10)
  else if 'A' ≤ c ∧ c ≤ 'F' then some (c.toNat - 'A'.toNat + 10)
  else none

/-- Whether a character is a hexadecimal digit. -/
def isHex (c : Char) : Bool := (hexDigit? c).isSome

/-- Whether a character is an octal digit. -/
def isOctal (c : Char) : Bool := '0' ≤ c && c ≤ '7'

/-- The value of a nonempty run of hexadecimal digits. -/
def hexValue? (s : List Char) : Option Nat :=
  if s.isEmpty then none
  else s.foldlM (fun n c => (hexDigit? c).map (n * 16 + ·)) 0

/-- The value of a run of octal digits. -/
def octalValue (s : List Char) : Nat :=
  s.foldl (fun n c => n * 8 + (c.toNat - '0'.toNat)) 0

/-- The character with a code point, if there is one. -/
def charOf? (n : Nat) : Option Char :=
  if n.isValidChar then some (Char.ofNat n) else none

/-- The character that the next `n` characters give as hexadecimal digits. -/
def codePoint (n : Nat) (digits : List Char → List Char) (r : List Char) : Reading Char :=
  if n ≤ r.length then
    ((hexValue? (digits (r.take n))).bind charOf?).map (·, r.drop n)
  else none

theorem codePoint_length {n : Nat} {digits : List Char → List Char} {r rest : List Char}
    {c : Char} (h : codePoint n digits r = some (c, rest)) : rest.length ≤ r.length := by
  unfold codePoint at h
  split at h
  · obtain ⟨d, -, he⟩ := Option.map_eq_some_iff.1 h
    simp only [Prod.mk.injEq] at he
    simp [← he.2]
  · simp at h

/-! ## Rules -/

/-- How a kind of string reads what follows a backslash. -/
structure EscapeRule where
  read : List Char → Reading Char
  shrinks : ∀ {s : List Char} {c : Char} {rest : List Char},
    read s = some (c, rest) → rest.length ≤ s.length

/-- The control character that a letter after a backslash stands for. -/
def control? : Char → Option Char
  | 'b' => some '\x08'
  | 'f' => some '\x0c'
  | 'n' => some '\n'
  | 'r' => some '\r'
  | 't' => some '\t'
  | _ => none

/-! ## Strings in double quotes -/

/-- The text up to the next double quote, where a backslash begins an escape
and every other character must be a plain one. -/
def upToQuote (rule : EscapeRule) (plain : Char → Bool) : List Char → Reading (List Char)
  | [] => none
  | c :: r =>
    if c = '"' then some ([], r)
    else if c = '\\' then
      match _h : rule.read r with
      | some (d, rest) => push d (upToQuote rule plain rest)
      | none => none
    else if plain c then push c (upToQuote rule plain r)
    else none
termination_by s => s.length
decreasing_by
  · have := rule.shrinks _h
    simp only [List.length_cons]; omega
  · simp

theorem upToQuote_length {rule : EscapeRule} {plain : Char → Bool} {s t rest : List Char}
    (h : upToQuote rule plain s = some (t, rest)) : rest.length < s.length := by
  fun_induction upToQuote rule plain s generalizing t rest with
  | case1 => simp at h
  | case2 => simp_all
  | case3 r d rest' hx _ ih =>
    obtain ⟨u, hu, -⟩ := push_eq_some h
    have := ih hu
    have := rule.shrinks hx
    simp only [List.length_cons]; omega
  | case4 => simp at h
  | case5 c r _ _ _ ih =>
    obtain ⟨u, hu, -⟩ := push_eq_some h
    have := ih hu
    simp only [List.length_cons]; omega
  | case6 => simp at h

end DealSql.Text
