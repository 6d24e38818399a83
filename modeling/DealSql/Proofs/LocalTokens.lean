import DealSql.Proofs.LocalReadings
import Mathlib.Data.List.Find
import DealSql.Proofs.VerbatimTexts

/-!
# Tokens that stop before a place

What a dialect reads before a placeholder it reads in the same way before the
value, unless the value begins with a character with which the token would
go on: a digit after a word, a number or a parameter, or a quote after a
closing quote.

* `find_local` — a token that leaves the brace of a placeholder, and the
  value in its place.
-/

namespace DealSql.Statement

open DealSql.Text DealSql.Statement.Strings

/-- The characters with which values begin, and the brace of a placeholder. -/
def valueStarts : List Char := "\x7b(\"[0123456789".toList

/-- Whether a token goes on with a character that stands right behind it. -/
def Token.growsBy (b : Char) : Token → Bool
  | .word w => b.isDigit || (b == '"' && sameWord w ['b'])
  | .name _ closing _ => b == closing && b != '\x7b'
  | .number _ => b.isDigit
  | .string kind _ => b == kind.closing || (b.isDigit && kind == .hex)
  | .parameter _ => b.isDigit
  | .symbol s => b.isDigit && s == ['.']
  | _ => false

/-- Whether a token that leaves some of a text goes on with a character
behind that text: at once, or with an exponent that still has no digits. -/
def Token.goesOn (b : Char) (left : List Char) (t : Token) : Bool :=
  match left, t with
  | [], t => t.growsBy b
  | left, .number _ => b.isDigit && exponentStarts.contains left
  | _, _ => false

/-- A token that ends before a brace does not go on with it. -/
theorem Token.goesOn_brace (t : Token) (left : List Char) : t.goesOn '\x7b' left = false := by
  cases left with
  | nil =>
    cases t with
    | string kind _ => cases kind <;> rfl
    | name opening closing _ => simp [Token.goesOn, Token.growsBy]
    | _ => simp [Token.goesOn, Token.growsBy]
  | cons c r => cases t <;> simp [Token.goesOn]

/-- What is found before a place, with another text at the place. -/
structure Found.Agrees (b : Char) (y z q : List Char) (t : Token) (f f' : Found) : Prop where
  pass : f = .pass → f' = .pass
  token : f = .token t (y ++ '\x7b' :: z) → f' = .token t (y ++ b :: q)

variable {d : Dialect} {b c : Char} {x y z q : List Char} {t : Token}

/-- What stands first is told apart from the characters at the place. -/
theorem head?_local {e : Char} (he : e ≠ '\x7b') (hb : b ≠ e) :
    (x ++ b :: q).head? = some e ↔ (x ++ '\x7b' :: z).head? = some e := by
  cases x with
  | nil => simp [hb, he.symm]
  | cons f x => rfl

/-- A text that begins with a character does so before the place. -/
theorem exists_head {e : Char} (he : e ≠ '\x7b') (h : (x ++ '\x7b' :: z).head? = some e) :
    ∃ x', x = e :: x' := by
  cases x with
  | nil => exact absurd (by simpa using h) he.symm
  | cons f x =>
    obtain rfl : f = e := by simpa using h
    exact ⟨x, rfl⟩

namespace Found

theorem agrees_pass : Agrees b y z q t .pass .pass := ⟨fun _ => rfl, fun h => by cases h⟩

theorem agrees_malformed (f : Found) : Agrees b y z q t .malformed f where
  pass h := by cases h
  token h := by cases h

/-- A token that is found in any case. -/
theorem agrees_token {u u' : Token} {r r' : List Char}
    (h : u = t → r = y ++ '\x7b' :: z → u' = t ∧ r' = y ++ b :: q) :
    Agrees b y z q t (.token u r) (.token u' r') where
  pass h := by cases h
  token heq := by
    simp only [Found.token.injEq] at heq
    obtain ⟨hu, hr⟩ := h heq.1 heq.2
    rw [hu, hr]

theorem agrees_ofReading {α : Type} {f : α → Token} {i i' : Reading α}
    (h : ∀ a, f a = t → i = some (a, y ++ '\x7b' :: z) → i' = some (a, y ++ b :: q)) :
    Agrees b y z q t (.ofReading f i) (.ofReading f i') where
  pass heq := by
    cases i with
    | none => cases heq
    | some r => cases heq
  token heq := by
    obtain ⟨a, hread, ha⟩ := ofReading_eq_token.1 heq
    rw [h a ha hread, ofReading, ha]

end Found

namespace Rule

open Found

/-- A run that makes a token goes on with no character at the place. -/
theorem agrees_run {p : Char → Bool} {f : List Char → Token} (hbrace : p '\x7b' = false)
    (hstop : (∃ r, t = f r) → y = [] → p b = false) :
    Agrees b y z q t
      (.token (f ((x ++ '\x7b' :: z).takeWhile p)) ((x ++ '\x7b' :: z).dropWhile p))
      (.token (f ((x ++ b :: q).takeWhile p)) ((x ++ b :: q).dropWhile p)) := by
  refine agrees_token fun hu hr => ?_
  obtain ⟨htake, hdrop⟩ := run_local hbrace hr (hstop ⟨_, hu.symm⟩)
  rw [htake, hdrop]
  exact ⟨hu, rfl⟩

theorem local_blank (hb : b ∈ valueStarts) :
    Agrees b y z q t (readBlank d c (x ++ '\x7b' :: z)) (readBlank d c (x ++ b :: q)) := by
  unfold readBlank
  split
  · refine agrees_token fun hu hr => ⟨hu, ?_⟩
    rw [List.append_cancel_right hr]
  split
  · have hline : ∀ e ∈ valueStarts, e ≠ '\n' := by decide
    have hhead := head?_local (x := x) (z := z) (q := q) (by decide) (hline b hb)
    refine agrees_token fun hu hr => ⟨hu, ?_⟩
    by_cases hnext : (x ++ '\x7b' :: z).head? = some '\n'
    · rw [if_pos hnext] at hr
      rw [if_pos (hhead.2 hnext)]
      obtain ⟨x, rfl⟩ := exists_head (by decide) hnext
      rw [List.append_cancel_right hr]
      rfl
    · rw [if_neg hnext] at hr
      rw [if_neg (fun h => hnext (hhead.1 h)), List.append_cancel_right hr]
  · exact agrees_pass

/-- How a string begins is seen before the place, but for the bit string
between double quotes. -/
theorem stringOpening_append {e : Char} {r : List Char} (he : e ∈ valueStarts)
    (hwide : x = [] → c.toLower = 'b' → d = .postgres → e ≠ '"') :
    stringOpening? d c (x ++ e :: r) =
      (stringOpening? d c x).map fun o => (o.1, o.2 ++ e :: r) := by
  have hquote : ∀ e ∈ valueStarts, e ≠ '\'' ∧ e ≠ '&' := by decide
  obtain ⟨hsingle, hand⟩ := hquote e he
  rw [stringOpening?, stringOpening?]
  simp only [apply_ite (Option.map fun o : StringKind × List Char => (o.1, o.2 ++ e :: r)),
    Option.map_some, Option.map_none]
  rcases x with _ | ⟨f, _ | ⟨g, x⟩⟩
  · have hnone : ¬ (c.toLower = 'b' ∧ d = .postgres ∧ e = '"') :=
      fun h => hwide rfl h.1 h.2.1 h.2.2
    simp [hsingle, hand, hnone]
  · simp [hsingle]
  · simp

theorem local_string (hb : b ∈ valueStarts) (hgoes : t.goesOn b y = false)
    (hwide : x = [] → c.toLower = 'b' → d = .postgres → b ≠ '"') :
    Agrees b y z q t (readString d c (x ++ '\x7b' :: z)) (readString d c (x ++ b :: q)) := by
  rw [readString, readString, stringOpening_append (by decide) (fun _ _ _ => by decide),
    stringOpening_append hb hwide]
  cases hopening : stringOpening? d c x with
  | none => exact agrees_pass
  | some o =>
    obtain ⟨k, x⟩ := o
    refine agrees_ofReading fun u hu hread => ?_
    have hclosing : y = [] → b ≠ k.closing := by
      rintro rfl rfl
      rw [← hu] at hgoes
      simp [Token.goesOn, Token.growsBy] at hgoes
    cases k with
    | plain => exact closeQuoted_local hclosing hread
    | bits => exact closeQuoted_local hclosing hread
    | wideBits => exact closeQuoted_local hclosing hread
    | national => exact closeEscaped_local isLocal_nationalEscapes hclosing hread
    | hex => exact closeEscaped_local isLocal_nationalEscapes hclosing hread
    | escaped => exact closeEscaped_local isLocal_byteEscapes hclosing hread
    | unicode => exact closeEscaped_local isLocal_unicodeEscapes hclosing hread

theorem local_name (hgoes : t.goesOn b y = false) :
    Agrees b y z q t (readName d c (x ++ '\x7b' :: z)) (readName d c (x ++ b :: q)) := by
  unfold readName
  split
  · next stop hstop =>
    have hall : ∀ x ∈ nameMarks, x.2 ≠ '\x7b' := by decide
    have hbrace : stop ≠ '\x7b' := hall _ (nameClosing?_mem hstop)
    refine agrees_ofReading fun u hu hread => closeQuoted_local ?_ hread
    rintro rfl rfl
    rw [← hu] at hgoes
    simp [Token.goesOn, Token.growsBy, hbrace] at hgoes
  · exact agrees_pass

theorem local_comment (hb : b ∈ valueStarts) :
    Agrees b y z q t (readComment d c (x ++ '\x7b' :: z)) (readComment d c (x ++ b :: q)) := by
  have hmarks : ∀ e ∈ valueStarts, e ≠ '-' ∧ e ≠ '*' := by decide
  unfold readComment
  simp only [head?_local (x := x) (z := z) (q := q) (by decide) (hmarks b hb).1,
    head?_local (x := x) (z := z) (q := q) (by decide) (hmarks b hb).2]
  split
  · exact agrees_token fun hu hr => ⟨hu, afterFirst_local (by decide) hr⟩
  split
  · next hslash =>
    obtain ⟨x, rfl⟩ := exists_head (by decide) hslash.2
    rw [List.cons_append, List.tail_cons, List.cons_append, List.tail_cons]
    split
    · next rest hrest =>
      refine ⟨fun h => (by cases h), fun h => ?_⟩
      cases h
      rw [blockComment_local hrest]
    · exact agrees_malformed _
  · exact agrees_pass

theorem stopsNumber_of_mem (hb : b ∈ valueStarts) (hdigit : b.isDigit = false) :
    stopsNumber b = true := by
  have hall : ∀ e ∈ valueStarts, e.isDigit = false → stopsNumber e = true := by decide
  exact hall b hb hdigit

/-- A token that does not go on with a digit is followed by something before the place. -/
theorem ne_nil_of_goesOn (hgoes : t.goesOn b y = false) (hgrows : t.growsBy b = true) :
    y ≠ [] := by
  rintro rfl
  rw [Token.goesOn, hgrows] at hgoes
  cases hgoes

/-- No exponent stands between a number and a digit that it does not go on with. -/
theorem not_mem_exponentStarts {n : List Char} (hgoes : (Token.number n).goesOn b y = false)
    (hdigit : b.isDigit = true) : y ∉ exponentStarts := by
  intro hmem
  cases y with
  | nil => exact absurd hmem (by decide)
  | cons e v => simp [Token.goesOn, hdigit, hmem] at hgoes

/-- The text of a number, with another text at the place. -/
theorem numberText_local {s : List Char} (hb : b ∈ valueStarts)
    (h : b.isDigit = true → (numberText s).length < s.length ∧
      (numberText s = ['.'] ∨ s.drop (numberText s).length ∉ exponentStarts)) :
    numberText (s ++ b :: q) = numberText (s ++ '\x7b' :: z) := by
  have hbrace : numberText (s ++ '\x7b' :: z) = numberText s := numberText_of_stop rfl
  rw [hbrace]
  by_cases hdigit : b.isDigit = true
  · exact numberText_of_short (h hdigit).1 (h hdigit).2
  · have hstop := stopsNumber_of_mem hb (by simpa using hdigit)
    exact numberText_of_stop (by simpa using hstop)

/-- A number takes the character with which it begins, and no more than there is. -/
theorem numberText_bounds (hc : c.isDigit = true ∨ c = '.') (x : List Char) :
    0 < (numberText (c :: x)).length ∧ (numberText (c :: x)).length - 1 ≤ x.length := by
  obtain ⟨hhead, -⟩ := numberText_ends (r := x) hc
  have hlength := (numberText_begins (c :: x)).length_le
  rw [List.length_cons] at hlength
  cases hn : numberText (c :: x) with
  | nil => simp [hn] at hhead
  | cons e n =>
    rw [hn, List.length_cons] at hlength
    simp only [List.length_cons]
    omega

/-- A number is the same with another text at the place, when a digit there
is kept off by something that is no exponent. -/
theorem numberText_apart (hb : b ∈ valueStarts) (hc : c.isDigit = true ∨ c = '.')
    (h : b.isDigit = true → x.drop ((numberText (c :: x)).length - 1) ≠ [] ∧
      (numberText (c :: x) = ['.'] ∨
        x.drop ((numberText (c :: x)).length - 1) ∉ exponentStarts)) :
    numberText (c :: (x ++ b :: q)) = numberText (c :: x) := by
  obtain ⟨hne, hle⟩ := numberText_bounds hc x
  have hleft : (c :: x).drop (numberText (c :: x)).length =
      x.drop ((numberText (c :: x)).length - 1) := by
    obtain ⟨n, hn⟩ : ∃ n, (numberText (c :: x)).length = n + 1 :=
      ⟨_, (Nat.sub_add_cancel hne).symm⟩
    rw [hn]
    rfl
  have hsame : numberText (c :: x ++ b :: q) = numberText (c :: x ++ ['\x7b']) := by
    refine numberText_local hb fun hdigit => ?_
    have hpos := List.length_pos_iff.2 (h hdigit).1
    rw [List.length_drop] at hpos
    rw [hleft]
    refine ⟨?_, (h hdigit).2⟩
    rw [List.length_cons]
    omega
  have hbrace : numberText (c :: x ++ ['\x7b']) = numberText (c :: x) := numberText_of_stop rfl
  exact hsame.trans hbrace

/-- A number, with what stands between it and the place. -/
theorem local_number (hb : b ∈ valueStarts) (hgoes : t.goesOn b y = false) :
    Agrees b y z q t (readNumber d c (x ++ '\x7b' :: z)) (readNumber d c (x ++ b :: q)) := by
  have hmarks : ∀ e ∈ valueStarts, e ≠ 'x' ∧ e ≠ 'L' := by decide
  have hhex : ∀ e ∈ valueStarts, e.isDigit = false → isHex e = false := by decide
  unfold readNumber
  split
  · simp only [head?_local (x := x) (z := z) (q := q) (by decide) (hmarks b hb).1]
    split
    · next hx =>
      obtain ⟨x, rfl⟩ := exists_head (by decide) hx.2
      refine agrees_run (f := .string .hex) (by decide) fun hu hy => hhex b hb ?_
      obtain ⟨r, rfl⟩ := hu
      cases hdigit : b.isDigit with
      | false => rfl
      | true =>
        have hgrows : (Token.string .hex r).growsBy b = true := by simp [Token.growsBy, hdigit]
        exact absurd hy (ne_nil_of_goesOn hgoes hgrows)
    · next hc _ =>
      have hle := (numberText_bounds hc x).2
      have hbrace : numberText (c :: (x ++ '\x7b' :: z)) = numberText (c :: x) :=
        numberText_of_stop (s := c :: x) rfl
      have htext := numberText_apart (x := x) (q := q) hb hc
      rw [hbrace, List.drop_append_of_le_length hle]
      refine ⟨fun h => ?_, fun h => ?_⟩
      · split at h
        · cases h
        · split at h <;> cases h
      generalize hn : numberText (c :: x) = n at *
      by_cases hpoint : n = ['.']
      · rw [if_pos hpoint] at h
        simp only [Found.token.injEq] at h
        obtain ⟨rfl, hr⟩ := h
        obtain rfl := List.append_cancel_right hr
        have hsame := htext fun hdigit =>
          ⟨ne_nil_of_goesOn (by simpa [hpoint] using hgoes) (by simp [Token.growsBy, hdigit]),
            Or.inl hpoint⟩
        rw [hsame, if_pos hpoint]
      rw [if_neg hpoint] at h
      by_cases hlong : (x.drop (n.length - 1) ++ '\x7b' :: z).head? = some 'L'
      · rw [if_pos hlong] at h
        obtain ⟨v, hv⟩ := exists_head (by decide) hlong
        rw [hv, List.cons_append, List.tail_cons] at h
        simp only [Found.token.injEq] at h
        have hsame := htext fun _ => by
          have hlong : ∀ e ∈ exponentStarts, e.head? ≠ some 'L' := by decide
          rw [hv]
          exact ⟨by simp, Or.inr fun hmem => hlong _ hmem rfl⟩
        rw [hsame, if_neg hpoint, List.drop_append_of_le_length hle, hv, List.cons_append,
          List.head?_cons, if_pos rfl, List.tail_cons, h.1, List.append_cancel_right h.2]
      · rw [if_neg hlong] at h
        simp only [Found.token.injEq] at h
        obtain ⟨rfl, hr⟩ := h
        obtain rfl := List.append_cancel_right hr
        have hsame := htext fun hdigit =>
          ⟨ne_nil_of_goesOn hgoes (by simp [Token.growsBy, hdigit]),
            Or.inr (not_mem_exponentStarts hgoes hdigit)⟩
        rw [hsame, if_neg hpoint, List.drop_append_of_le_length hle,
          if_neg (fun hhead => hlong ((head?_local (by decide) (hmarks b hb).2).1 hhead))]
  · exact agrees_pass

theorem not_isWordPart_of_mem (hb : b ∈ valueStarts) (hdigit : b.isDigit = false) :
    isWordPart d b = false := by
  have hall : ∀ e ∈ valueStarts, e.isDigit = false → isWordPart d e = false := by
    cases d <;> decide
  exact hall b hb hdigit

/-- A run that makes a word. -/
theorem agrees_word {s : List Char} (hb : b ∈ valueStarts) (hgoes : t.goesOn b y = false) :
    Agrees b y z q t
      (.token (.word (s ++ (x ++ '\x7b' :: z).takeWhile (isWordPart d)))
        ((x ++ '\x7b' :: z).dropWhile (isWordPart d)))
      (.token (.word (s ++ (x ++ b :: q).takeWhile (isWordPart d)))
        ((x ++ b :: q).dropWhile (isWordPart d))) := by
  have hbrace : isWordPart d '\x7b' = false := not_isWordPart_of_mem (by decide) (by decide)
  refine agrees_run (f := fun r => .word (s ++ r)) hbrace fun hu hy => ?_
  obtain ⟨r, rfl⟩ := hu
  refine not_isWordPart_of_mem hb ?_
  cases hdigit : b.isDigit with
  | false => rfl
  | true =>
    have hgrows : (Token.word (s ++ r)).growsBy b = true := by simp [Token.growsBy, hdigit]
    exact absurd hy (ne_nil_of_goesOn hgoes hgrows)

theorem local_word (hb : b ∈ valueStarts) (hgoes : t.goesOn b y = false) :
    Agrees b y z q t (readWord d c (x ++ '\x7b' :: z)) (readWord d c (x ++ b :: q)) := by
  unfold readWord
  split
  · exact agrees_word (s := [c]) hb hgoes
  · exact agrees_pass

/-- A token that takes the brace does not stop before it. -/
theorem agrees_of_dropWhile {u : Token} {p : Char → Bool} (f' : Found) :
    Agrees b y z q t (.token u (z.dropWhile p)) f' where
  pass h := by cases h
  token h := by
    simp only [Found.token.injEq] at h
    have hle := length_dropWhile_le p z
    rw [h.2] at hle
    exact (not_left hle).elim

/-- A word that begins with a number sign. -/
theorem readMarkedWord_hash (e : Char) (r : List Char) :
    readMarkedWord .tsql '#' (e :: r) = if e = ' ' ∨ e = '-' ∨ e = '>' then .pass
      else .token (.word (['#', e] ++ r.takeWhile (isWordPart .tsql)))
        (r.dropWhile (isWordPart .tsql)) := rfl

/-- A word that begins with two at signs. -/
theorem readMarkedWord_atAt (e : Char) (r : List Char) :
    readMarkedWord .tsql '@' ('@' :: e :: r) = if e = ' ' then .pass
      else .token (.word (['@', '@', e] ++ r.takeWhile (isWordPart .tsql)))
        (r.dropWhile (isWordPart .tsql)) := rfl

/-- A word that begins with an at sign and another character. -/
theorem readMarkedWord_at {e : Char} (he : e ≠ '@') (r : List Char) :
    readMarkedWord .tsql '@' (e :: r) = if e = ' ' ∨ e = '>' ∨ e = '?' ∨ e = '@' then .pass
      else .token (.word (['@', e] ++ r.takeWhile (isWordPart .tsql)))
        (r.dropWhile (isWordPart .tsql)) := by
  cases r <;> simp [readMarkedWord, he]

/-- No other character begins a marked word. -/
theorem readMarkedWord_other (hhash : c ≠ '#') (hat : c ≠ '@') (r : List Char) :
    readMarkedWord d c r = .pass := by
  unfold readMarkedWord
  split
  · rfl
  · split
    · exact absurd rfl hhash
    · exact absurd rfl hat
    · exact absurd rfl hat
    · rfl

theorem local_markedWord (hb : b ∈ valueStarts) (hgoes : t.goesOn b y = false) :
    Agrees b y z q t (readMarkedWord d c (x ++ '\x7b' :: z))
      (readMarkedWord d c (x ++ b :: q)) := by
  by_cases hd : d = .tsql
  · subst hd
    by_cases hhash : c = '#'
    · subst hhash
      cases x with
      | nil => exact agrees_of_dropWhile _
      | cons e x =>
        rw [List.cons_append, List.cons_append, readMarkedWord_hash, readMarkedWord_hash]
        split
        · exact agrees_pass
        · exact agrees_word hb hgoes
    by_cases hat : c = '@'
    · subst hat
      cases x with
      | nil => exact agrees_of_dropWhile _
      | cons e x =>
        by_cases he : e = '@'
        · subst he
          cases x with
          | nil => exact agrees_of_dropWhile _
          | cons f x =>
            rw [List.cons_append, List.cons_append, List.cons_append, List.cons_append,
              readMarkedWord_atAt, readMarkedWord_atAt]
            split
            · exact agrees_pass
            · exact agrees_word hb hgoes
        · rw [List.cons_append, List.cons_append, readMarkedWord_at he, readMarkedWord_at he]
          split
          · exact agrees_pass
          · exact agrees_word hb hgoes
    · rw [readMarkedWord_other hhash hat, readMarkedWord_other hhash hat]
      exact agrees_pass
  · simp only [readMarkedWord, ne_eq, hd, not_false_eq_true, if_true]
    exact agrees_pass

/-- A question mark of PostgreSQL takes the next character with it. -/
theorem readQuestion_postgres (e : Char) (r : List Char) :
    readQuestion .postgres '?' (e :: r) =
      .token (.symbol (if e = '|' ∨ e = '&' then ['?', e] else ['?'])) r := by
  by_cases hbar : e = '|'
  · subst hbar
    rfl
  by_cases hand : e = '&'
  · subst hand
    rfl
  · simp [readQuestion, hbar, hand]

theorem local_question (hb : b ∈ valueStarts) (hgoes : t.goesOn b y = false) :
    Agrees b y z q t (readQuestion d c (x ++ '\x7b' :: z)) (readQuestion d c (x ++ b :: q)) := by
  have hmarks : ∀ e ∈ valueStarts, e.isDigit = false → isNumeric e = false := by decide
  by_cases hc : c = '?'
  · subst hc
    by_cases hd : d = .postgres
    · subst hd
      cases x with
      | nil =>
        rw [List.nil_append, readQuestion_postgres]
        refine ⟨fun h => (by cases h), fun h => ?_⟩
        simp only [Found.token.injEq] at h
        exact (not_left (Nat.le_of_eq (congrArg List.length h.2).symm)).elim
      | cons e x =>
        simp only [List.cons_append, readQuestion_postgres]
        exact agrees_token fun hu hr => ⟨hu, by rw [List.append_cancel_right hr]⟩
    · simp only [readQuestion, ne_eq, not_true_eq_false, if_false, hd]
      refine agrees_run (f := fun r => .parameter ('?' :: r)) (by decide) fun hu hy => ?_
      refine hmarks b hb ?_
      obtain ⟨r, rfl⟩ := hu
      cases hdigit : b.isDigit with
      | false => rfl
      | true =>
        have hgrows : (Token.parameter ('?' :: r)).growsBy b = true := by
          simp [Token.growsBy, hdigit]
        exact absurd hy (ne_nil_of_goesOn hgoes hgrows)
  · simp only [readQuestion, ne_eq, hc, not_false_eq_true, if_true]
    exact agrees_pass

/-- What begins a text that goes on with a character which does not belong to it. -/
theorem isPrefixOf_append {s a w : List Char} (h : ∀ e ∈ w.head?, e ∉ s) :
    s.isPrefixOf (a ++ w) = s.isPrefixOf a := by
  induction s generalizing a with
  | nil => rfl
  | cons e s ih =>
    cases a with
    | nil =>
      cases w with
      | nil => rfl
      | cons f w =>
        have hne : e ≠ f := by
          rintro rfl
          exact h e rfl List.mem_cons_self
        simp [List.isPrefixOf, hne]
    | cons f a =>
      have hrest := ih (a := a) fun e he hmem => h e he (List.mem_cons_of_mem _ hmem)
      simp only [List.cons_append, List.isPrefixOf, hrest]

theorem local_operator (hb : b ∈ valueStarts) :
    Agrees b y z q t (readOperator d c (x ++ '\x7b' :: z)) (readOperator d c (x ++ b :: q)) := by
  have hspelling : ∀ o ∈ integerDivision :: operators, ∀ e ∈ valueStarts, e ∉ o.spelling := by
    decide +kernel
  have hnone : ∀ e ∈ valueStarts, isOperatorChar e = false := by decide
  unfold readOperator
  extract_lets known
  have hfind : ∀ e r, e ∈ valueStarts →
      known.find? (fun o => o.spelling.isPrefixOf (c :: (x ++ e :: r))) =
        known.find? fun o => o.spelling.isPrefixOf (c :: x) := by
    intro e r he
    refine List.find?_congr fun o ho => ?_
    refine isPrefixOf_append (a := c :: x) fun f hf => ?_
    obtain rfl : e = f := by simpa using hf
    exact hspelling o (mem_operators ho) e he
  rw [hfind _ _ (by decide), hfind _ _ hb]
  split
  · next o ho =>
    have hle : o.spelling.length - 1 ≤ x.length := by
      have hbegins := List.find?_some ho
      have hlength := (List.isPrefixOf_iff_prefix.1 hbegins).length_le
      rw [List.length_cons] at hlength
      omega
    rw [List.drop_append_of_le_length hle, List.drop_append_of_le_length hle]
    generalize x.drop (o.spelling.length - 1) = x
    by_cases hgrows : d = .postgres ∧ o.grows = true
    · have hdrop : ∀ r : List Char, r.drop (r.takeWhile isOperatorChar).length =
          r.dropWhile isOperatorChar := by
        intro r
        have hleft : (r.takeWhile isOperatorChar ++ r.dropWhile isOperatorChar).drop
            (r.takeWhile isOperatorChar).length = r.dropWhile isOperatorChar := List.drop_left
        rwa [List.takeWhile_append_dropWhile] at hleft
      simp only [hgrows, and_self, if_true, hdrop]
      exact agrees_run (f := fun extra => .symbol (if extra.isEmpty then o.printed
        else o.spelling ++ extra)) (hnone _ (by decide)) fun _ _ => hnone b hb
    · simp only [hgrows, if_false, List.length_nil, List.drop_zero]
      exact agrees_token fun hu hr => ⟨hu, by rw [List.append_cancel_right hr]⟩
  · exact agrees_pass

theorem local_dollar (hb : b ∈ valueStarts) (hgoes : t.goesOn b y = false) :
    Agrees b y z q t (readDollar d c (x ++ '\x7b' :: z)) (readDollar d c (x ++ b :: q)) := by
  have hmarks : ∀ e ∈ valueStarts, e ≠ '$' := by decide
  have htags : ∀ e ∈ valueStarts, e.isDigit = false → isTagChar e = false := by decide
  unfold readDollar
  simp only [head?_local (x := x) (z := z) (q := q) (by decide) (hmarks b hb)]
  split
  · exact agrees_pass
  split
  · next hdollar =>
    obtain ⟨x, rfl⟩ := exists_head (by decide) hdollar
    exact agrees_ofReading fun u hu hread => dollarPlain_local hread
  have hbrace : isTagChar '\x7b' = false := htags _ (by decide) (by decide)
  cases hrest : x.dropWhile isTagChar with
  | nil =>
    -- the tag reaches the place, so that what is read is a parameter
    have hall : ∀ w, (x ++ w).takeWhile isTagChar = x ++ w.takeWhile isTagChar := by
      intro w
      exact List.takeWhile_append_of_pos (List.dropWhile_eq_nil_iff.1 hrest)
    have hnone : ∀ w, (x ++ w).dropWhile isTagChar = w.dropWhile isTagChar := by
      intro w
      exact List.dropWhile_append_of_pos (List.dropWhile_eq_nil_iff.1 hrest)
    refine ⟨fun h => ?_, fun h => ?_⟩
    · simp [hall, hnone, hbrace] at h
    obtain ⟨hu, hy⟩ : .parameter (c :: x) = t ∧ y = [] := by simpa [hall, hnone, hbrace] using h
    subst hu hy
    have hdigit : b.isDigit = false := by simpa [Token.goesOn, Token.growsBy] using hgoes
    simp [hall, hnone, htags b hb hdigit, hmarks b hb]
  | cons e v =>
    simp only [fun w => (run_before hrest w).1, fun w => (run_before hrest w).2, List.head?_cons,
      List.tail_cons]
    split
    · exact agrees_ofReading fun u hu hread => dollarTagged_local hread
    · exact agrees_token fun hu hr => ⟨hu, by
        rw [← List.cons_append] at hr ⊢
        rw [List.append_cancel_right hr]⟩

theorem local_other : Agrees b y z q t (other c (x ++ '\x7b' :: z)) (other c (x ++ b :: q)) :=
  agrees_token fun hu hr => ⟨hu, by rw [List.append_cancel_right hr]⟩

/-- The finding of two rules one after the other. -/
theorem agrees_orElse {f f' g g' : Found} (hfirst : Agrees b y z q t f f')
    (hsecond : Agrees b y z q t g g') : Agrees b y z q t (f.orElse g) (f'.orElse g') := by
  cases f with
  | pass =>
    rw [hfirst.pass rfl]
    exact hsecond
  | malformed => exact agrees_malformed _
  | token u r =>
    refine ⟨fun h => (by cases h), fun h => ?_⟩
    rw [hfirst.token h]
    rfl

/-- Every rule agrees before a place. -/
theorem agrees_all (hb : b ∈ valueStarts) (hgoes : t.goesOn b y = false)
    (hwide : x = [] → c.toLower = 'b' → d = .postgres → b ≠ '"') :
    ∀ rule ∈ all, Agrees b y z q t (rule.read d c (x ++ '\x7b' :: z))
      (rule.read d c (x ++ b :: q)) := by
  intro rule hrule
  simp only [all, List.mem_cons, List.not_mem_nil, or_false] at hrule
  rcases hrule with rfl | rfl | rfl | rfl | rfl | rfl | rfl | rfl | rfl | rfl
  · exact local_blank (d := d) hb
  · exact local_string hb hgoes hwide
  · exact local_name hgoes
  · exact local_number (d := d) hb hgoes
  · exact local_comment (d := d) hb
  · exact local_markedWord hb hgoes
  · exact local_question hb hgoes
  · exact local_operator hb
  · exact local_word hb hgoes
  · exact local_dollar (d := d) hb hgoes

/-- A token that leaves the place does so whatever stands at the place, unless
it goes on with what stands there. -/
theorem find_local (hb : b ∈ valueStarts) (hgoes : t.goesOn b y = false)
    (h : find d c (x ++ '\x7b' :: z) = .token t (y ++ '\x7b' :: z)) :
    find d c (x ++ b :: q) = .token t (y ++ b :: q) := by
  have hwide : x = [] → c.toLower = 'b' → d = .postgres → b ≠ '"' := by
    rintro rfl hc rfl rfl
    have hstart : isNameStart c = true := by
      simp [isNameStart, isAlpha_of_isAlpha_toLower (c := c) (by rw [hc]; rfl)]
    have hword : find .postgres c ('\x7b' :: z) = .token (.word [c]) ('\x7b' :: z) :=
      find_word (w := []) hstart (by simp) rfl
    rw [List.nil_append] at h
    rw [hword] at h
    obtain ⟨rfl, hy⟩ : .word [c] = t ∧ y = [] := by simpa using h
    have hsame : sameWord [c] ['b'] = true := by simp [sameWord, foldCase, hc]
    simp [Token.goesOn, Token.growsBy, hy, hsame] at hgoes
  have hagrees := agrees_all (z := z) (q := q) hb hgoes hwide
  suffices hall : Agrees b y z q t (find d c (x ++ '\x7b' :: z)) (find d c (x ++ b :: q)) from
    hall.token h
  unfold find
  generalize all = rules at hagrees
  induction rules with
  | nil => exact local_other
  | cons rule rules ih =>
    rw [List.foldr_cons, List.foldr_cons]
    exact agrees_orElse (hagrees rule List.mem_cons_self)
      (ih fun r hr => hagrees r (List.mem_cons_of_mem _ hr))

end Rule

end DealSql.Statement
