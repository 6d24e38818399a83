import DealSql.Proofs.LexemeSeams
import DealSql.Statement.Token.Reader

/-!
# Where tokens meet

The code of a statement is printed token by token, with nothing in between.
A word that a dialect read is therefore a word of the printed code only if
its neighbours do not run into it, and whether they do depends on what kind
of token they are: a number without its point, a string between dollar
signs, a numbered parameter and a numeral that is no digit run into a word,
and everything else stays apart from it.

Each rule is looked at once (`Token.Meets`); that two tokens were neighbours
in the statement enters only through the first character of the one and
what the other leaves.

* `endsInWord_before` and `beginsWithWord_after` — what the printed
  neighbours of a word do to it.
-/

namespace DealSql.Statement

open DealSql.Text DealSql.Statement.Strings

/-! ## Kinds of token -/

/-- Whether a token runs into a word that is printed after it. -/
def Token.joinsNext : Token → Bool
  | .number t => t.getLast? != some '.'
  | .dollarString _ _ => true
  | .parameter t => t != ['?']
  | .symbol t => t.getLast?.any isNumeric
  | _ => false

/-- Whether a token runs into a word that is printed before it. -/
def Token.joinsPrevious : Token → Bool
  | .symbol t => t.head?.any isNumeric
  | _ => false

/-- What is known of a token from the first character it was read from and
from what was left: its printed form, what becomes of a word next to it, and
that a word is read from its first character to its last. -/
structure Token.Meets (d : Dialect) (c : Char) (rest : List Char) (t : Token) : Prop where
  printed : t.text ≠ []
  next : rest.head?.any isAlphabetic = true → endsInWord t.text = t.joinsNext
  previous : isWordPart d c = false → beginsWithWord t.text = t.joinsPrevious
  word : ∀ w, t = .word w → w.head? = some c ∧ rest.head?.any (isWordPart d) = false

/-! ## Characters of words -/

theorem isWordPart_of_isAlphabetic {d : Dialect} {c : Char} (h : isAlphabetic c = true) :
    isWordPart d c = true := by simp [isWordPart, h]

theorem isWordPart_of_isDigit {d : Dialect} {c : Char} (h : c.isDigit = true) :
    isWordPart d c = true := by simp [isWordPart, h]

theorem isWordPart_of_isWordStart {d : Dialect} {c : Char} (h : isWordStart d c = true) :
    isWordPart d c = true := by
  simp only [isWordStart, Bool.or_eq_true] at h
  rcases h with (h | h) | h <;> simp [isWordPart, h]

/-- What a run leaves does not begin with a character of the run. -/
theorem head?_dropWhile_any {p q : Char → Bool} (hpq : ∀ c, p c = true → q c = true)
    (r : List Char) : (r.dropWhile q).head?.any p = false := by
  have hhead := List.head?_dropWhile_not q r
  cases hd : (r.dropWhile q).head? with
  | none => rfl
  | some x =>
    rw [hd] at hhead
    cases hp : p x with
    | false => simpa using hp
    | true => simp [hpq x hp] at hhead

/-- Nothing in a text without word characters runs into a word. -/
theorem ends_of_forall {t : List Char} (h : ∀ c ∈ t, isWordChar c = false) :
    endsInWord t = false ∧ t.getLast?.any isNumeric = false ∧
      beginsWithWord t = false ∧ t.head?.any isNumeric = false := by
  have hnumeric : ∀ c ∈ t, isNumeric c = false := by
    intro c hc
    have hword := h c hc
    simp only [isWordChar, Bool.or_eq_false_iff] at hword
    exact hword.1.1.2
  refine ⟨?_, ?_, ?_, ?_⟩
  · rw [endsInWord]
    cases hl : t.getLast? with
    | none => rfl
    | some x => exact h x (List.mem_of_getLast? hl)
  · cases hl : t.getLast? with
    | none => rfl
    | some x => exact hnumeric x (List.mem_of_getLast? hl)
  · rw [beginsWithWord]
    cases hl : t.head? with
    | none => rfl
    | some x => exact h x (List.mem_of_head? hl)
  · cases hl : t.head? with
    | none => rfl
    | some x => exact hnumeric x (List.mem_of_head? hl)

/-! ## The rules one by one -/

namespace Rule

variable {d : Dialect} {c : Char} {r rest : List Char} {t : Token}

/-- A symbol of punctuation stays apart from every word. -/
theorem meets_of_punctuation {s : List Char} (hne : s ≠ [])
    (h : ∀ x ∈ s, isWordChar x = false) : (Token.symbol s).Meets d c rest := by
  obtain ⟨hend, hlast, hbegin, hhead⟩ := ends_of_forall h
  refine ⟨hne, fun _ => ?_, fun _ => ?_, by simp⟩
  · rw [Token.joinsNext, hlast]
    exact hend
  · rw [Token.joinsPrevious, hhead]
    exact hbegin

theorem meets_blank (h : readBlank d c r = .token t rest) : t.Meets d c rest := by
  have hspace : ∀ x, x = ' ' ∨ x = '\t' ∨ x = '\n' → (Token.blank x).Meets d c rest := by
    intro x hx
    rcases hx with rfl | rfl | rfl
    all_goals exact ⟨by simp [Token.text], fun _ => by decide, fun _ => by decide, by simp⟩
  unfold readBlank at h
  split at h
  · next hc =>
    cases h
    exact hspace c hc
  · split at h
    · cases h
      exact hspace _ (Or.inr (Or.inr rfl))
    · cases h

/-- Every string but a plain one begins with a letter. -/
theorem isAlpha_of_stringOpening {k : StringKind} {inside : List Char}
    (h : stringOpening? d c r = some (k, inside)) : k = .plain ∨ c.isAlpha = true := by
  have hletter : ∀ x : Char, x.isAlpha = true → c.toLower = x → c.isAlpha = true :=
    fun x hx hc => isAlpha_of_isAlpha_toLower (hc ▸ hx)
  unfold stringOpening? at h
  dsimp only at h
  split at h
  · cases h
    exact Or.inl rfl
  · refine Or.inr ?_
    split at h
    · next hc => exact hletter 'b' (by decide) hc.1
    split at h
    · next hc => exact hletter 'b' (by decide) hc.1
    split at h
    · next hc => exact hletter 'n' (by decide) hc.1
    split at h
    · next hc => exact hletter 'x' (by decide) hc.1
    split at h
    · next hc => exact hletter 'e' (by decide) hc.1
    split at h
    · next hc => exact hletter 'u' (by decide) hc.1
    · cases h

/-- A string ends in a quote; it begins with one or was read from a letter. -/
theorem meets_of_string {k : StringKind} {s : List Char}
    (h : k = .plain ∨ isWordPart d c = true) : (Token.string k s).Meets d c rest := by
  refine ⟨by simp [Token.text], fun _ => ?_, fun hc => ?_, by simp⟩
  · have hclosing : isWordChar k.closing = false := by cases k <;> decide
    rw [Token.text, endsInWord_append_singleton]
    exact hclosing
  · rcases h with rfl | h
    · simp only [Token.text, StringKind.opening, Token.joinsPrevious, List.cons_append,
        beginsWithWord_cons]
      decide
    · simp [h] at hc

/-- A string is opened and closed. -/
theorem readString_eq_token (h : readString d c r = .token t rest) :
    ∃ k inside s, stringOpening? d c r = some (k, inside) ∧
      closeString k inside = some (s, rest) ∧ t = .string k s := by
  unfold readString at h
  split at h
  · next k inside hopen =>
    obtain ⟨s, hread, rfl⟩ := Found.ofReading_eq_token.1 h
    exact ⟨k, inside, s, hopen, hread, rfl⟩
  · cases h

theorem meets_string (h : readString d c r = .token t rest) : t.Meets d c rest := by
  obtain ⟨k, inside, s, hopen, -, rfl⟩ := readString_eq_token h
  refine meets_of_string ((isAlpha_of_stringOpening hopen).imp_right fun hc => ?_)
  exact isWordPart_of_isAlphabetic (isAlphabetic_of_isAlpha hc)

/-- The marks around quoted names. -/
def nameMarks : List (Char × Char) := [('"', '"'), ('\x60', '\x60'), ('[', ']')]

/-- What opens a quoted name and what closes it belong together. -/
theorem nameClosing?_mem {stop : Char} (h : nameClosing? d c = some stop) :
    (c, stop) ∈ nameMarks := by
  unfold nameClosing? at h
  split at h
  · cases h; decide
  · cases h; decide
  · cases h; decide
  · cases h

/-- A quoted name is opened and closed. -/
theorem readName_eq_token (h : readName d c r = .token t rest) :
    ∃ stop s, nameClosing? d c = some stop ∧ closeQuoted stop r = some (s, rest) ∧
      t = .name c stop s := by
  unfold readName at h
  split at h
  · next stop hstop =>
    obtain ⟨s, hread, rfl⟩ := Found.ofReading_eq_token.1 h
    exact ⟨stop, s, hstop, hread, rfl⟩
  · cases h

theorem meets_name (h : readName d c r = .token t rest) : t.Meets d c rest := by
  obtain ⟨stop, s, hstop, -, rfl⟩ := readName_eq_token h
  have hall : ∀ x ∈ nameMarks, isWordChar x.1 = false ∧ isWordChar x.2 = false := by decide
  have hmarks : isWordChar c = false ∧ isWordChar stop = false := hall _ (nameClosing?_mem hstop)
  refine ⟨by simp [Token.text], fun _ => ?_, fun _ => ?_, by simp⟩
  · rw [Token.text, endsInWord_append_singleton]
    exact hmarks.2
  · simpa [Token.text, Token.joinsPrevious] using hmarks.1

/-- The digits at the start of a text end in a digit. -/
theorem isDigit_of_mem_digits {s : List Char} {x : Char} (h : x ∈ digits s) :
    x.isDigit = true := by
  have hall := List.all_eq_true.1 (List.all_takeWhile (p := Char.isDigit) (l := s))
  exact hall x h

/-- An exponent ends in a digit. -/
theorem exponent_last {s : List Char} {x : Char} (h : (exponent s).getLast? = some x) :
    x.isDigit = true := by
  unfold exponent at h
  split at h
  · split at h
    · extract_lets sign ds at h
      split at h
      · simp at h
      · next hne =>
        obtain ⟨y, hy⟩ : ∃ y, ds.getLast? = some y :=
          Option.ne_none_iff_exists'.1 (by simpa using hne)
        rw [List.getLast?_append, hy] at h
        obtain rfl : y = x := by simpa using h
        exact isDigit_of_mem_digits (List.mem_of_getLast? hy)
    · simp at h
  · simp at h

/-- A number begins with the character it is read from, and ends in a digit
or in its point. -/
theorem numberText_ends (hc : c.isDigit = true ∨ c = '.') :
    (numberText (c :: r)).head? = some c ∧
      ∃ x, (numberText (c :: r)).getLast? = some x ∧ (x.isDigit = true ∨ x = '.') := by
  unfold numberText
  extract_lets whole r' point fraction base
  have hbase : base.head? = some c := by
    rcases hc with hc | rfl
    · simp [base, whole, digits, hc]
    · have hdot : '.'.isDigit = false := by decide
      simp [base, point, r', whole, digits, hdot]
  have hall : ∀ x ∈ base, x.isDigit = true ∨ x = '.' := by
    intro x hx
    simp only [base, List.mem_append] at hx
    rcases hx with (hx | hx) | hx
    · exact Or.inl (isDigit_of_mem_digits hx)
    · have hpoint : point = ['.'] ∨ point = [] := by
        simp only [point]
        split
        · exact Or.inl rfl
        · exact Or.inr rfl
      rcases hpoint with hp | hp <;> simp_all
    · exact Or.inl (isDigit_of_mem_digits hx)
  obtain ⟨y, hy⟩ : ∃ y, base.getLast? = some y := by
    refine Option.ne_none_iff_exists'.1 fun hnone => ?_
    simp [List.getLast?_eq_none_iff.1 hnone] at hbase
  have hlast : y.isDigit = true ∨ y = '.' := hall y (List.mem_of_getLast? hy)
  split
  · exact ⟨hbase, y, hy, hlast⟩
  · refine ⟨by simp [hbase], ?_⟩
    cases he : (exponent ((c :: r).drop base.length)).getLast? with
    | none => exact ⟨y, by simp [List.getLast?_append, he, hy], hlast⟩
    | some x => exact ⟨x, by simp [List.getLast?_append, he], Or.inl (exponent_last he)⟩

/-- A number runs into the next word unless it ends in its point. -/
theorem meets_of_number {s : List Char} {x : Char} (hc : c.isDigit = true ∨ c = '.')
    (hhead : s.head? = some c) (hlast : s.getLast? = some x)
    (hx : x.isDigit = true ∨ x = '.' ∨ x = 'L') : (Token.number s).Meets d c rest := by
  refine ⟨?_, fun _ => ?_, fun hpart => ?_, by simp⟩
  · rintro rfl
    simp at hhead
  · simp only [Token.text, endsInWord, Token.joinsNext, hlast, Option.any_some]
    rcases hx with hx | rfl | rfl
    · have hword : isWordChar x = true := isWordChar_of_isNumeric (isNumeric_of_isDigit hx)
      have hdot : x ≠ '.' := ne_of_test hx (by decide)
      simp [hword, hdot]
    · decide
    · decide
  · rcases hc with hc | rfl
    · simp [isWordPart_of_isDigit hc] at hpart
    · simp only [Token.text, beginsWithWord, Token.joinsPrevious, hhead, Option.any_some]
      decide

theorem meets_number (h : readNumber d c r = .token t rest) : t.Meets d c rest := by
  unfold readNumber at h
  split at h
  · next hc =>
    split at h
    · next hx =>
      cases h
      refine meets_of_string (Or.inr ?_)
      obtain ⟨rfl, -⟩ := hx
      simp [isWordPart_of_isDigit (c := '0') (by decide)]
    · obtain ⟨hhead, x, hlast, hx⟩ := numberText_ends (r := r) hc
      dsimp only at h
      split at h
      · next ht =>
        cases h
        rw [ht]
        exact meets_of_punctuation (by simp) (by decide)
      · split at h
        · cases h
          exact meets_of_number hc (by simp [hhead]) (x := 'L') (by simp) (Or.inr (Or.inr rfl))
        · cases h
          exact meets_of_number hc hhead hlast (hx.imp_right Or.inl)
  · cases h

theorem meets_comment (h : readComment d c r = .token t rest) : t.Meets d c rest := by
  have hcomment : Token.comment.Meets d c rest :=
    ⟨by simp [Token.text], fun _ => by decide, fun _ => by decide, by simp⟩
  unfold readComment at h
  split at h
  · cases h
    exact hcomment
  · split at h
    · split at h
      · cases h
        exact hcomment
      · cases h
    · cases h

/-- No word stands next to a word. -/
theorem meets_of_word {s : List Char} (hc : isWordPart d c = true) :
    (Token.word (c :: s)).Meets d c (r.dropWhile (isWordPart d)) := by
  refine ⟨by simp [Token.text], fun hnext => ?_, fun hpart => ?_, fun w hw => ?_⟩
  · rw [head?_dropWhile_any (fun x hx => isWordPart_of_isAlphabetic hx)] at hnext
    cases hnext
  · rw [hc] at hpart
    cases hpart
  · cases hw
    exact ⟨rfl, head?_dropWhile_any (fun _ hx => hx) r⟩

theorem meets_markedWord (h : readMarkedWord d c r = .token t rest) : t.Meets d c rest := by
  unfold readMarkedWord at h
  dsimp only at h
  split at h
  · cases h
  · next hd =>
    have hmark : ∀ x, x = '#' ∨ x = '@' → isWordPart d x = true := by
      intro x hx
      rcases hx with rfl | rfl <;> simp_all [isWordPart]
    split at h
    · split at h <;> cases h
      exact meets_of_word (hmark _ (Or.inl rfl))
    · split at h <;> cases h
      exact meets_of_word (hmark _ (Or.inr rfl))
    · split at h <;> cases h
      exact meets_of_word (hmark _ (Or.inr rfl))
    · cases h

theorem meets_question (h : readQuestion d c r = .token t rest) : t.Meets d c rest := by
  unfold readQuestion at h
  split at h
  · cases h
  · next hc =>
    obtain rfl : c = '?' := by simpa using hc
    split at h
    · split at h
      all_goals cases h; exact meets_of_punctuation (by simp) (by decide)
    · cases h
      have hmark : isWordChar '?' = false := by decide
      refine ⟨by simp [Token.text], fun _ => ?_, fun _ => hmark, by simp⟩
      cases hl : (r.takeWhile isNumeric).getLast? with
      | none =>
        rw [List.getLast?_eq_none_iff.1 hl]
        decide
      | some x =>
        have hx : isNumeric x = true :=
          List.all_eq_true.1 (List.all_takeWhile (p := isNumeric)) x (List.mem_of_getLast? hl)
        have hne : r.takeWhile isNumeric ≠ [] := by
          intro hnil
          simp [hnil] at hl
        simp [Token.text, endsInWord, Token.joinsNext, List.getLast?_cons, hl, hne,
          isWordChar_of_isNumeric hx]

/-- Operators are made of punctuation. -/
theorem operators_punctuation : ∀ o ∈ integerDivision :: operators,
    (o.spelling ≠ [] ∧ o.printed ≠ []) ∧
      ∀ x ∈ o.spelling ++ o.printed, isWordChar x = false := by
  decide +kernel

theorem isWordChar_of_isOperatorChar (h : isOperatorChar c = true) : isWordChar c = false := by
  have hall : ∀ x ∈ "+-*/<>=~!@#%^&|\x60?".toList, isWordChar x = false := by decide
  exact hall c (by simpa [isOperatorChar] using h)

/-- The operators of a dialect are among all operators. -/
theorem mem_operators {o : Operator}
    (h : o ∈ if d = .duckdb then integerDivision :: operators else operators) :
    o ∈ integerDivision :: operators := by
  split at h
  · exact h
  · exact List.mem_cons_of_mem _ h

/-- **What is read as an operator**: its spelling, and behind it what
PostgreSQL adds. -/
theorem readOperator_eq_token (h : readOperator d c r = .token t rest) :
    ∃ o ∈ integerDivision :: operators, ∃ extra,
      (∀ x ∈ extra, isOperatorChar x = true) ∧ c :: r = o.spelling ++ extra ++ rest ∧
      t = .symbol (if extra.isEmpty then o.printed else o.spelling ++ extra) := by
  unfold readOperator at h
  extract_lets known at h
  split at h
  · next o ho =>
    extract_lets left extra at h
    cases h
    have hmem : o ∈ integerDivision :: operators := mem_operators (List.mem_of_find?_eq_some ho)
    have hprefix := List.find?_some ho
    obtain ⟨y, hy⟩ := List.isPrefixOf_iff_prefix.1 hprefix
    obtain ⟨x, w, hx⟩ := List.exists_cons_of_ne_nil (operators_punctuation o hmem).1.1
    have hleft : left = y := by
      rw [hx, List.cons_append, List.cons.injEq] at hy
      simp only [left]
      rw [hx, ← hy.2]
      simp
    have hextra : extra <+: y ∧ ∀ x ∈ extra, isOperatorChar x = true := by
      simp only [extra]
      split
      · rw [hleft]
        exact ⟨List.takeWhile_prefix _, fun x => List.all_eq_true.1 List.all_takeWhile x⟩
      · exact ⟨List.nil_prefix, by simp⟩
    obtain ⟨⟨z, hz⟩, hoperator⟩ := hextra
    refine ⟨o, hmem, extra, hoperator, ?_, rfl⟩
    rw [hleft, ← hy, ← hz, List.drop_left, List.append_assoc]
  · cases h

theorem meets_operator (h : readOperator d c r = .token t rest) : t.Meets d c rest := by
  obtain ⟨o, ho, extra, hextra, -, rfl⟩ := readOperator_eq_token h
  obtain ⟨⟨hspelling, hprinted⟩, hplain⟩ := operators_punctuation o ho
  refine meets_of_punctuation ?_ ?_
  · split
    · exact hprinted
    · simp [hspelling]
  · split
    · exact fun x hx => hplain x (List.mem_append_right _ hx)
    · intro x hx
      rcases List.mem_append.1 hx with hx | hx
      · exact hplain x (List.mem_append_left _ hx)
      · exact isWordChar_of_isOperatorChar (hextra x hx)

theorem meets_word (h : readWord d c r = .token t rest) : t.Meets d c rest := by
  unfold readWord at h
  split at h
  · next hc =>
    cases h
    exact meets_of_word (isWordPart_of_isWordStart hc)
  · cases h

/-- A dollar sign goes on with a word; what it begins never stands after one. -/
theorem meets_dollar (h : readDollar d c r = .token t rest) : t.Meets d c rest := by
  have hstring : ∀ tag s, (Token.dollarString tag s).Meets d '$' rest := by
    intro tag s
    refine ⟨by simp [Token.text], fun _ => ?_, fun hpart => ?_, by simp⟩
    · rw [Token.text, endsInWord_append_singleton, Token.joinsNext]
      decide
    · simp [isWordPart] at hpart
  unfold readDollar at h
  split at h
  · cases h
  · next hc =>
    obtain rfl : c = '$' := by simpa using hc
    split at h
    · obtain ⟨s, -, rfl⟩ := Found.ofReading_eq_token.1 h
      exact hstring _ s
    · dsimp only at h
      split at h
      · obtain ⟨s, -, rfl⟩ := Found.ofReading_eq_token.1 h
        exact hstring _ s
      · cases h
        refine ⟨by simp [Token.text], fun hnext => ?_, fun hpart => ?_, by simp⟩
        · have htag : ∀ x, isAlphabetic x = true → isTagChar x = true := by
            intro x hx
            simp [isTagChar, hx]
          rw [head?_dropWhile_any htag] at hnext
          cases hnext
        · simp [isWordPart] at hpart

/-- A character that no rule knows joins a word only as a numeral. -/
theorem meets_other (hword : readWord d c r = .pass) (hdollar : readDollar d c r = .pass)
    (h : other c r = .token t rest) : t.Meets d c rest := by
  have hstart : isWordStart d c = false := by
    unfold readWord at hword
    split at hword
    · cases hword
    · next hc => simpa using hc
  have hc : c ≠ '$' := by
    rintro rfl
    have hread : ∀ (x : Reading (List Char)) f, Found.ofReading f x ≠ .pass := by
      rintro (_ | _) f hx <;> cases hx
    simp only [readDollar, ne_eq, not_true_eq_false, if_false] at hdollar
    split at hdollar
    · exact hread _ _ hdollar
    · split at hdollar
      · exact hread _ _ hdollar
      · cases hdollar
  have hjoins : isWordChar c = isNumeric c := by
    simp only [isWordStart, Bool.or_eq_false_iff] at hstart
    have hdollar : (c == '$') = false := by simpa using hc
    simp [isWordChar, hstart.1.1, hstart.1.2, hdollar]
  unfold other at h
  cases h
  split
  · exact ⟨by simp [Token.text], fun _ => by decide, fun _ => by decide, by simp⟩
  · exact ⟨by simp [Token.text], fun _ => hjoins, fun _ => hjoins, by simp⟩

/-- What the first rule that applies reads. -/
theorem find_eq_token (h : find d c r = .token t rest) :
    (∃ rule ∈ all, rule.read d c r = .token t rest) ∨
      ((∀ rule ∈ all, rule.read d c r = .pass) ∧ other c r = .token t rest) := by
  unfold find at h
  generalize all = rules at h ⊢
  induction rules with
  | nil => exact Or.inr ⟨by simp, h⟩
  | cons rule rules ih =>
    rw [List.foldr_cons] at h
    cases hread : rule.read d c r with
    | pass =>
      rw [hread] at h
      rcases ih h with ⟨x, hx, hxr⟩ | ⟨hall, ho⟩
      · exact Or.inl ⟨x, List.mem_cons_of_mem _ hx, hxr⟩
      · exact Or.inr ⟨by simpa [hread] using hall, ho⟩
    | malformed =>
      rw [hread] at h
      cases h
    | token u rest' =>
      rw [hread] at h
      exact Or.inl ⟨rule, List.mem_cons_self, by rw [hread]; exact h⟩

/-- **Whatever is read meets its neighbours as its kind says.** -/
theorem find_meets (h : find d c r = .token t rest) : t.Meets d c rest := by
  rcases find_eq_token h with ⟨rule, hrule, hread⟩ | ⟨hpass, hother⟩
  · simp only [all, List.mem_cons, List.not_mem_nil, or_false] at hrule
    rcases hrule with rfl | rfl | rfl | rfl | rfl | rfl | rfl | rfl | rfl | rfl
    · exact meets_blank hread
    · exact meets_string hread
    · exact meets_name hread
    · exact meets_number hread
    · exact meets_comment hread
    · exact meets_markedWord hread
    · exact meets_question hread
    · exact meets_operator hread
    · exact meets_word hread
    · exact meets_dollar hread
  · exact meets_other (hpass word (by simp [all])) (hpass dollar (by simp [all])) hother

end Rule

/-! ## Neighbours in a statement -/

theorem tokens_eq_cons {d : Dialect} {s : List Char} {t : Token} {ts : List Token}
    (h : tokens d s = some (t :: ts)) :
    ∃ c r rest, s = c :: r ∧ Rule.find d c r = .token t rest ∧ tokens d rest = some ts := by
  cases s with
  | nil => simp [tokens] at h
  | cons c r =>
    rw [tokens] at h
    split at h
    · next u rest hfind =>
      obtain ⟨us, hus, he⟩ := Option.map_eq_some_iff.1 h
      cases he
      exact ⟨c, r, rest, rfl, hfind, hus⟩
    · cases h

/-- Reading goes on where the tokens before left off. -/
theorem tokens_eq_append {d : Dialect} {s : List Char} {before after : List Token}
    (h : tokens d s = some (before ++ after)) : ∃ s', tokens d s' = some after := by
  induction before generalizing s with
  | nil => exact ⟨s, h⟩
  | cons t before ih =>
    obtain ⟨c, r, rest, -, -, hrest⟩ := tokens_eq_cons h
    exact ih hrest

variable {d : Dialect} {sql w : List Char} {before after : List Token}

/-- **What is printed before a word** ends in a word character exactly when
the token next to it runs into a word. -/
theorem endsInWord_before (h : tokens d sql = some (before ++ .word w :: after))
    (hw : w.head?.any isAlphabetic = true) :
    endsInWord (before.flatMap Token.text) = before.getLast?.any Token.joinsNext := by
  rcases List.eq_nil_or_concat before with rfl | ⟨b, u, rfl⟩
  · rfl
  · rw [List.concat_eq_append, List.append_assoc, List.singleton_append] at h
    obtain ⟨s, hs⟩ := tokens_eq_append h
    obtain ⟨c, r, rest, -, hread, hrest⟩ := tokens_eq_cons hs
    obtain ⟨x, y, left, rfl, hword, -⟩ := tokens_eq_cons hrest
    have hmeets := Rule.find_meets hread
    have hx : isAlphabetic x = true := by
      simpa [((Rule.find_meets hword).word w rfl).1] using hw
    have hjoin := hmeets.next (by simpa using hx)
    obtain ⟨y, t, ht⟩ := List.exists_cons_of_ne_nil hmeets.printed
    simp only [List.concat_eq_append, List.flatMap_append, List.flatMap_singleton,
      List.getLast?_concat, Option.any_some]
    rw [← hjoin, ht, endsInWord_append_cons]

/-- **What is printed after a word** begins with a word character exactly
when the token next to it runs into a word. -/
theorem beginsWithWord_after (h : tokens d sql = some (before ++ .word w :: after)) :
    beginsWithWord (after.flatMap Token.text) = after.head?.any Token.joinsPrevious := by
  cases after with
  | nil => rfl
  | cons v after =>
    obtain ⟨s, hs⟩ := tokens_eq_append h
    obtain ⟨c, r, rest, -, hword, hrest⟩ := tokens_eq_cons hs
    obtain ⟨x, y, left, rfl, hread, -⟩ := tokens_eq_cons hrest
    have hmeets := Rule.find_meets hread
    have hx : isWordPart d x = false := by
      simpa using ((Rule.find_meets hword).word w rfl).2
    have hjoin := hmeets.previous hx
    obtain ⟨y, t, ht⟩ := List.exists_cons_of_ne_nil hmeets.printed
    rw [List.flatMap_cons, List.head?_cons, Option.any_some, ← hjoin, ht]
    rfl

end DealSql.Statement
