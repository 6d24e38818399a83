import DealSql.Text.Escaped
import DealSql.Text.Quoted

/-!
# The insides of strings and comments

Readers for what stands between the marks of a string or a comment.  Each
is given the text after the opening marks and answers with what was read
and what follows the closing mark, or with nothing when the string is
malformed or never ends.

Three kinds of string give a backslash a meaning; they differ only in their
`EscapeRule`, which reads what follows it.

* `closeEscaped_length`, `dollarPlain_length`, `dollarTagged_length`,
  `blockComment_length` — what is left is no longer than what was given.
-/

namespace DealSql.Statement.Strings

open DealSql.Text

/-! ## Digits and characters -/

/-- The character of a byte; only those of ASCII stand for themselves. -/
def byteChar? (n : Nat) : Option Char :=
  if n % 256 ≤ 127 then some (Char.ofNat (n % 256)) else none

/-- The digits of a code point after an optional plus sign. -/
def unsigned : List Char → List Char
  | '+' :: d :: r => d :: r
  | r => r

/-- The leading characters, at most two, that satisfy a test. -/
def upToTwo (p : Char → Bool) (r : List Char) : List Char := (r.take 2).takeWhile p

/-! ## Strings with escapes -/

/-- The further control characters of national strings. -/
def nationalControl? : Char → Option Char
  | '0' => some '\x00'
  | 'a' => some '\x07'
  | 'Z' => some '\x1a'
  | c => control? c

/-- In national strings a letter may stand for a control character, and any
other character for itself. -/
def nationalEscape : List Char → Reading Char
  | [] => none
  | c :: r => some ((nationalControl? c).getD c, r)

/-- In escape strings a backslash begins a control character, a code point
of four or eight digits, a byte in hexadecimal or octal, or the next
character itself.  The null character cannot be written. -/
def byteEscape : List Char → Reading Char
  | [] => none
  | c :: r =>
    let x : Reading Char :=
      if let some d := control? c then some (d, r)
      else if c = 'u' then codePoint 4 unsigned r
      else if c = 'U' then codePoint 8 unsigned r
      else if c = 'x' then
        let digits := upToTwo isHex r
        if digits.isEmpty then some ('x', r)
        else ((hexValue? digits).bind byteChar?).map (·, r.drop digits.length)
      else if isOctal c then
        let digits := upToTwo isOctal r
        (byteChar? (octalValue (c :: digits))).map (·, r.drop digits.length)
      else some (c, r)
    x.filter fun y => y.1 != '\x00'

/-- In Unicode strings a backslash begins a code point of four digits, or of
six after a plus sign, or stands for itself when doubled. -/
def unicodeEscape : List Char → Reading Char
  | '\\' :: r => some ('\\', r)
  | '+' :: r => codePoint 6 id r
  | r => codePoint 4 id r

/-- The escapes of national and hexadecimal strings. -/
def nationalEscapes : EscapeRule where
  read := nationalEscape
  shrinks := by
    intro s c rest h
    cases s with
    | nil => simp [nationalEscape] at h
    | cons d r =>
      simp only [nationalEscape, Option.some.injEq, Prod.mk.injEq] at h
      simp [← h.2]

/-- The escapes of escape strings. -/
def byteEscapes : EscapeRule where
  read := byteEscape
  shrinks := by
    intro s c rest h
    cases s with
    | nil => simp [byteEscape] at h
    | cons d r =>
      have hx := (Option.filter_eq_some_iff.1 h).1
      simp only [List.length_cons]
      split at hx
      · simp_all
      · split at hx
        · have := codePoint_length hx; omega
        · split at hx
          · have := codePoint_length hx; omega
          · split at hx
            · dsimp only at hx
              split at hx
              · simp_all
              · obtain ⟨e, -, he⟩ := Option.map_eq_some_iff.1 hx
                simp only [Prod.mk.injEq] at he
                simp only [← he.2, List.length_drop]; omega
            · split at hx
              · obtain ⟨e, -, he⟩ := Option.map_eq_some_iff.1 hx
                simp only [Prod.mk.injEq] at he
                simp only [← he.2, List.length_drop]; omega
              · simp_all

/-- The escapes of Unicode strings. -/
def unicodeEscapes : EscapeRule where
  read := unicodeEscape
  shrinks := by
    intro s c rest h
    unfold unicodeEscape at h
    split at h
    · simp_all
    · have := codePoint_length h
      simp only [List.length_cons]; omega
    · exact codePoint_length h

/-- The text up to the first single quote that stands alone: a doubled quote
stands for one, and a backslash begins an escape. -/
def closeEscaped (rule : EscapeRule) : List Char → Reading (List Char)
  | [] => none
  | c :: r =>
    if c = '\'' then
      if r.head? = some '\'' then push '\'' (closeEscaped rule r.tail) else some ([], r)
    else if c = '\\' then
      match _h : rule.read r with
      | some (d, rest) => push d (closeEscaped rule rest)
      | none => none
    else push c (closeEscaped rule r)
termination_by s => s.length
decreasing_by
  · simp only [List.length_cons, List.length_tail]; omega
  · have := rule.shrinks _h
    simp only [List.length_cons]; omega
  · simp

theorem closeEscaped_length {rule : EscapeRule} {s t rest : List Char}
    (h : closeEscaped rule s = some (t, rest)) : rest.length ≤ s.length := by
  fun_induction closeEscaped rule s generalizing t rest with
  | case1 => simp at h
  | case2 r hr ih =>
    obtain ⟨u, hu, -⟩ := push_eq_some h
    have := ih hu
    simp only [List.length_cons, List.length_tail] at *; omega
  | case3 => simp_all
  | case4 r d rest' hx hq ih =>
    obtain ⟨u, hu, -⟩ := push_eq_some h
    have := ih hu
    have := rule.shrinks hx
    simp only [List.length_cons]; omega
  | case5 => simp at h
  | case6 c r _ _ ih =>
    obtain ⟨u, hu, -⟩ := push_eq_some h
    have := ih hu
    simp only [List.length_cons]; omega

/-! ## Strings between dollar signs -/

/-- A string between two pairs of dollar signs.  A single dollar sign inside
is kept only when another character follows it. -/
def dollarPlain (afterDollar : Bool) : List Char → Reading (List Char)
  | [] => none
  | c :: r =>
    if afterDollar then
      if c = '$' then some ([], r) else push '$' (push c (dollarPlain false r))
    else if c = '$' then dollarPlain true r
    else push c (dollarPlain false r)

theorem dollarPlain_length {b : Bool} {s t rest : List Char}
    (h : dollarPlain b s = some (t, rest)) : rest.length ≤ s.length := by
  induction s generalizing b t with
  | nil => simp [dollarPlain] at h
  | cons c r ih =>
    unfold dollarPlain at h
    split at h
    · split at h
      · simp only [Option.some.injEq, Prod.mk.injEq] at h
        simp [← h.2]
      · obtain ⟨u, hu, -⟩ := push_eq_some h
        obtain ⟨v, hv, -⟩ := push_eq_some hu
        have := ih hv
        simp only [List.length_cons]; omega
    · split at h
      · have := ih h
        simp only [List.length_cons]; omega
      · obtain ⟨u, hu, -⟩ := push_eq_some h
        have := ih hu
        simp only [List.length_cons]; omega

/-- How far a text agrees with a tag: to its end, up to a character that
differs (taken with those before it), or up to the end of the text. -/
inductive TagMatch where
  | whole (rest : List Char)
  | differs (taken rest : List Char)
  | ends
  deriving Repr, DecidableEq

/-- What a comparison with a tag leaves. -/
def TagMatch.rest : TagMatch → List Char
  | .whole r => r
  | .differs _ r => r
  | .ends => []

/-- Compares the start of a text with a tag. -/
def matchTag : List Char → List Char → TagMatch
  | [], r => .whole r
  | _ :: _, [] => .ends
  | t :: tag, c :: r =>
    if c = t then
      match matchTag tag r with
      | .differs taken rest => .differs (c :: taken) rest
      | .whole rest => .whole rest
      | .ends => .ends
    else .differs [c] r

theorem matchTag_length (tag s : List Char) : (matchTag tag s).rest.length ≤ s.length := by
  induction tag generalizing s with
  | nil => simp [matchTag, TagMatch.rest]
  | cons t tag ih =>
    cases s with
    | nil => simp [matchTag, TagMatch.rest]
    | cons c r =>
      have h := ih r
      unfold matchTag
      split
      · split <;> simp_all [TagMatch.rest] <;> omega
      · simp [TagMatch.rest]

/-- A string between two tags in dollar signs.  After a dollar sign
characters are taken as long as they spell the tag; what was taken belongs
to the text when it does not spell the whole tag and another dollar sign. -/
def dollarTagged (tag : List Char) : List Char → Reading (List Char)
  | [] => none
  | c :: r =>
    if c = '$' then
      match _h : matchTag tag r with
      | .ends => none
      | .whole rest =>
        if rest.head? = some '$' then some ([], rest.tail)
        else (dollarTagged tag rest).map fun x => ('$' :: tag ++ x.1, x.2)
      | .differs taken rest =>
        (dollarTagged tag rest).map fun x => ('$' :: taken ++ x.1, x.2)
    else push c (dollarTagged tag r)
termination_by s => s.length
decreasing_by
  · have := matchTag_length tag r
    simp only [_h, TagMatch.rest] at this
    simp only [List.length_cons]; omega
  · have := matchTag_length tag r
    simp only [_h, TagMatch.rest] at this
    simp only [List.length_cons]; omega
  · simp

theorem dollarTagged_length {tag s t rest : List Char}
    (h : dollarTagged tag s = some (t, rest)) : rest.length ≤ s.length := by
  fun_induction dollarTagged tag s generalizing t rest with
  | case1 => simp at h
  | case2 => simp at h
  | case3 r rest' hm _ =>
    have := matchTag_length tag r
    simp only [hm, TagMatch.rest] at this
    simp only [Option.some.injEq, Prod.mk.injEq] at h
    simp only [← h.2, List.length_cons, List.length_tail]; omega
  | case4 r rest' hm _ ih =>
    have := matchTag_length tag r
    simp only [hm, TagMatch.rest] at this
    obtain ⟨⟨u, v⟩, hx, he⟩ := Option.map_eq_some_iff.1 h
    have := ih hx
    simp only [Prod.mk.injEq] at he
    simp only [← he.2, List.length_cons]; omega
  | case5 r taken rest' hm ih =>
    have := matchTag_length tag r
    simp only [hm, TagMatch.rest] at this
    obtain ⟨⟨u, v⟩, hx, he⟩ := Option.map_eq_some_iff.1 h
    have := ih hx
    simp only [Prod.mk.injEq] at he
    simp only [← he.2, List.length_cons]; omega
  | case6 c r _ ih =>
    obtain ⟨u, hu, -⟩ := push_eq_some h
    have := ih hu
    simp only [List.length_cons]; omega

/-! ## Block comments -/

/-- What follows a block comment, with `inner` comments open inside it.  A
pair that opens or closes one is recognised from the last two characters
inside the comment, so that neighbouring pairs may share a character. -/
def blockComment (inner : Nat) (last : Char) : List Char → Option (List Char)
  | [] => none
  | c :: r =>
    if last = '/' ∧ c = '*' then blockComment (inner + 1) c r
    else if last = '*' ∧ c = '/' then
      match inner with
      | 0 => some r
      | n + 1 => blockComment n c r
    else blockComment inner c r

theorem blockComment_length {n : Nat} {last : Char} {s rest : List Char}
    (h : blockComment n last s = some rest) : rest.length ≤ s.length := by
  induction s generalizing n last with
  | nil => simp [blockComment] at h
  | cons c r ih =>
    unfold blockComment at h
    split at h
    · have := ih h
      simp only [List.length_cons]; omega
    · split at h
      · split at h
        · simp only [Option.some.injEq] at h
          simp [← h]
        · have := ih h
          simp only [List.length_cons]; omega
      · have := ih h
        simp only [List.length_cons]; omega

end DealSql.Statement.Strings
