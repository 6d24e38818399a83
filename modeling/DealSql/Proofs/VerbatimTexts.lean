import DealSql.Placeholder.Scan
import DealSql.Proofs.Numerals
import DealSql.Proofs.TokenSeams
import DealSql.Proofs.WholeTexts

/-!
# Verbatim texts

Most tokens print what they were read from.  A text that a dialect reads as
such tokens comes out of the reading as it went in (`Verbatim`), and so do
two of them side by side.  Whether a text is verbatim depends on what
follows it only through the first character, which must not run into it.

* `Verbatim.append` — verbatim texts side by side.
* `verbatim_word`, `verbatim_digits`, `verbatim_doubleQuoted`,
  `verbatim_literal` — words, numbers and quoted texts before what ends them.
-/

namespace DealSql.Statement

open DealSql.Text DealSql.Statement.Strings

/-! ## Verbatim texts -/

/-- A dialect reads a text in front of another as tokens that print it. -/
def Verbatim (r : Dialect) (s rest : List Char) : Prop :=
  ∃ ts : List Token, ts.flatMap Token.text = s ∧
    tokens r (s ++ rest) = (tokens r rest).map (ts ++ ·)

variable {r d : Dialect} {a b s w rest : List Char} {c : Char}

theorem verbatim_nil : Verbatim r [] rest := ⟨[], rfl, by simp⟩

/-- Verbatim texts side by side are verbatim. -/
theorem Verbatim.append (ha : Verbatim r a (b ++ rest)) (hb : Verbatim r b rest) :
    Verbatim r (a ++ b) rest := by
  obtain ⟨ts, hts, ha⟩ := ha
  obtain ⟨us, hus, hb⟩ := hb
  refine ⟨ts ++ us, by simp [hts, hus], ?_⟩
  rw [List.append_assoc, ha, hb, Option.map_map]
  congr 1
  funext vs
  simp

/-- A token and those of what it leaves. -/
theorem tokens_of_find {t : Token} (h : Rule.find r c s = .token t rest) :
    tokens r (c :: s) = (tokens r rest).map (t :: ·) := by
  rw [tokens]
  split
  · next u rest' hfind =>
    rw [h] at hfind
    cases hfind
    rfl
  · next hfind => exact absurd h (hfind t rest)

/-- A token that prints what it was read from. -/
theorem verbatim_of_find {t : Token} (h : Rule.find r c (s ++ rest) = .token t rest)
    (ht : t.text = c :: s) : Verbatim r (c :: s) rest := by
  refine ⟨[t], by simp [ht], ?_⟩
  rw [List.cons_append, tokens_of_find h]
  rfl

/-- What is read of a verbatim text by itself. -/
theorem Verbatim.stripComments_append (h : Verbatim r s rest) :
    stripComments r (s ++ rest) = (stripComments r rest).map (s ++ ·) := by
  obtain ⟨ts, hts, htokens⟩ := h
  rw [stripComments, stripComments, htokens, Option.map_map, Option.map_map]
  congr 1
  funext us
  simp [hts]

/-! ## Words and numbers -/

/-- Whether a character ends the word before it. -/
def endsWord (c : Char) : Bool := " \n,()]\x7b\x7d".toList.contains c

/-- What stands before the end of a word is a run of its own. -/
theorem run_before_end {p : Char → Bool} (hp : ∀ c ∈ " \n,()]\x7b\x7d".toList, p c = false)
    (hw : ∀ x ∈ w, p x = true) (hrest : rest.head?.all endsWord = true) :
    (w ++ rest).takeWhile p = w ∧ (w ++ rest).dropWhile p = rest := by
  refine run_append_of_stop hw fun x hx => hp x ?_
  rw [Option.mem_def.1 hx] at hrest
  simpa [endsWord] using hrest

/-- What follows is none of the characters that fail the test which it passes. -/
theorem head?_ne_of_all {p : Char → Bool} {x : Char} (hrest : rest.head?.all p = true)
    (hx : p x = false) : rest.head? ≠ some x := by
  intro hhead
  rw [hhead, Option.all_some, hx] at hrest
  cases hrest

/-- Whether a name of ASCII may begin with a character. -/
def isNameStart (c : Char) : Bool := c.isAlpha || c == '_'

/-- Letters and digits are characters of ASCII. -/
theorem toNat_lt_of_isAlphanum (h : c.isAlphanum = true) : c.toNat < 128 := by
  rcases Bool.or_eq_true_iff.1 h with hletter | hdigit
  · have := range_of_isAlpha hletter
    omega
  · have := range_of_isDigit hdigit
    omega

/-- The characters of names are letters, digits and underscores. -/
theorem isNameChar_of_isNameStart (h : isNameStart c = true) : Placeholder.isNameChar c = true := by
  rcases Bool.or_eq_true_iff.1 h with hc | hc
  · simp [Placeholder.isNameChar, Char.isAlphanum, hc]
  · simp [Placeholder.isNameChar, hc]

theorem isWordPart_of_isNameChar (h : Placeholder.isNameChar c = true) :
    isWordPart r c = true := by
  simp only [Placeholder.isNameChar, Char.isAlphanum, Bool.or_eq_true] at h
  rcases h with (hc | hc) | hc
  · exact isWordPart_of_isAlphabetic (isAlphabetic_of_isAlpha hc)
  · exact isWordPart_of_isDigit hc
  · simp [isWordPart, hc]

/-- No operator begins with a character of a name. -/
theorem readOperator_of_isNameChar (h : Placeholder.isNameChar c = true) :
    Rule.readOperator r c s = .pass := by
  have hall : ∀ o ∈ Rule.integerDivision :: Rule.operators,
      o.spelling.head?.any Placeholder.isNameChar = false ∧ o.spelling ≠ [] := by decide +kernel
  have hnone : ∀ o ∈ Rule.integerDivision :: Rule.operators,
      o.spelling.isPrefixOf (c :: s) = false := by
    intro o ho
    obtain ⟨hhead, hne⟩ := hall o ho
    obtain ⟨x, t, hx⟩ := List.exists_cons_of_ne_nil hne
    rw [hx] at hhead ⊢
    have hxc : x ≠ c := by
      rintro rfl
      simp [h] at hhead
    simp [List.isPrefixOf, hxc]
  unfold Rule.readOperator
  have hfind : (if r = .duckdb then Rule.integerDivision :: Rule.operators
      else Rule.operators).find? (fun o => o.spelling.isPrefixOf (c :: s)) = none := by
    refine List.find?_eq_none.2 fun o ho => ?_
    simp [hnone o (Rule.mem_operators ho)]
  simp only [hfind]

/-- The marks by which most rules know that they apply. -/
def ruleMarks : List Char := " \t\n\r\"\x60[-/#@?".toList

/-- Most rules pass over a character that is none of their marks. -/
theorem pass_of_test {p : Char → Bool} (hc : p c = true) (hp : ∀ x ∈ ruleMarks, p x = false) :
    Rule.readBlank r c s = .pass ∧ Rule.readName r c s = .pass ∧ Rule.readComment r c s = .pass ∧
      Rule.readMarkedWord r c s = .pass ∧ Rule.readQuestion r c s = .pass := by
  have hne : ∀ x, x ∈ ruleMarks → c ≠ x := fun x hx => ne_of_test hc (hp x hx)
  refine ⟨?_, ?_, ?_, ?_, ?_⟩
  · simp [Rule.readBlank, hne ' ' (by decide), hne '\t' (by decide), hne '\n' (by decide),
      hne '\r' (by decide)]
  · have hopening : ∀ x ∈ Rule.nameMarks, x.1 ∈ ruleMarks := by decide
    cases hstop : Rule.nameClosing? r c with
    | none => rw [Rule.readName, hstop]
    | some stop => exact absurd rfl (hne c (hopening _ (Rule.nameClosing?_mem hstop)))
  · simp [Rule.readComment, hne '-' (by decide), hne '/' (by decide)]
  · unfold Rule.readMarkedWord
    dsimp only
    split
    · rfl
    · split
      · exact absurd rfl (hne '#' (by decide))
      · exact absurd rfl (hne '@' (by decide))
      · exact absurd rfl (hne '@' (by decide))
      · rfl
  · simp [Rule.readQuestion, hne '?' (by decide)]

/-- A name does not begin with a digit. -/
theorem isDigit_of_isNameStart (h : isNameStart c = true) : c.isDigit = false := by
  cases hd : c.isDigit with
  | false => rfl
  | true =>
    obtain ⟨hlt, hc⟩ := digitChar_of_isDigit hd
    have hnone : ∀ n < 10, isNameStart (Nat.digitChar n) = false := by decide
    rw [← hc, hnone _ hlt] at h
    cases h

/-- A name that no quote follows is a word to every dialect. -/
theorem find_word (hc : isNameStart c = true) (hw : ∀ x ∈ w, Placeholder.isNameChar x = true)
    (hrest : rest.head?.all endsWord = true) :
    Rule.find r c (w ++ rest) = .token (.word (c :: w)) rest := by
  have hne : ∀ x, isNameStart x = false → c ≠ x := fun x hx => ne_of_test hc hx
  have hnext : ∀ x, Placeholder.isNameChar x = false → endsWord x = false →
      (w ++ rest).head? ≠ some x := by
    intro x hx hends hhead
    cases w with
    | nil => exact head?_ne_of_all hrest hends hhead
    | cons y w =>
      obtain rfl : y = x := by simpa using hhead
      simp [hw y List.mem_cons_self] at hx
  obtain ⟨hblank, hname, hcomment, hmarked, hquestion⟩ :=
    pass_of_test (r := r) (s := w ++ rest) hc (by decide)
  have hstring : Rule.readString r c (w ++ rest) = .pass := by
    have hquotes := And.intro (hnext '\'' rfl rfl) (And.intro (hnext '"' rfl rfl) (hnext '&' rfl rfl))
    generalize w ++ rest = s at hquotes
    simp [Rule.readString, Rule.stringOpening?, hne '\'' rfl, hquotes]
  have hnumber : Rule.readNumber r c (w ++ rest) = .pass := by
    simp [Rule.readNumber, isDigit_of_isNameStart hc, hne '.' rfl]
  have hoperator : Rule.readOperator r c (w ++ rest) = .pass :=
    readOperator_of_isNameChar (isNameChar_of_isNameStart hc)
  have hword : Rule.readWord r c (w ++ rest) = .token (.word (c :: w)) rest := by
    have hstart : isWordStart r c = true := by
      rcases Bool.or_eq_true_iff.1 hc with hc | hc
      · simp [isWordStart, isAlphabetic_of_isAlpha hc]
      · simp [isWordStart, hc]
    have hends : ∀ x ∈ " \n,()]\x7b\x7d".toList, isWordPart r x = false := by cases r <;> decide
    obtain ⟨htake, hdrop⟩ := run_before_end hends
      (fun x hx => isWordPart_of_isNameChar (hw x hx)) hrest
    rw [Rule.readWord, if_pos hstart, htake, hdrop]
  simp [Rule.find, Rule.all, Rule.blank, Rule.string, Rule.name, Rule.number, Rule.comment,
    Rule.markedWord, Rule.question, Rule.operator, Rule.word, Found.orElse, hblank, hstring, hname,
    hnumber, hcomment, hmarked, hquestion, hoperator, hword]

/-- Whether a number ends before a character. -/
def endsNumber (c : Char) : Bool := !isWordChar c && c != '.'

theorem endsNumber_of_endsWord (h : endsWord c = true) : endsNumber c = true := by
  have hall : ∀ x ∈ " \n,()]\x7b\x7d".toList, endsNumber x = true := by decide
  exact hall c (by simpa [endsWord] using h)

/-- What ends a number begins with no digit. -/
theorem digits_of_endsNumber (hrest : rest.head?.all endsNumber = true) :
    Rule.digits rest = [] := by
  cases rest with
  | nil => rfl
  | cons x rest =>
    have hx : x.isDigit = false := by
      cases hd : x.isDigit with
      | false => rfl
      | true =>
        have hword := isWordChar_of_isNumeric (isNumeric_of_isDigit hd)
        exact absurd rfl (head?_ne_of_all hrest (x := x) (by simp [endsNumber, hword]))
    simp [Rule.digits, hx]

/-- The text of a number has neither a fraction nor an exponent when what ends it follows. -/
theorem numberText_digits (hc : c.isDigit = true) (hw : ∀ x ∈ w, x.isDigit = true)
    (hrest : rest.head?.all endsNumber = true) :
    Rule.numberText (c :: (w ++ rest)) = c :: w := by
  have hfraction := digits_of_endsNumber hrest
  have hdigits : Rule.digits (c :: (w ++ rest)) = c :: w := by
    have htake : rest.takeWhile Char.isDigit = [] := hfraction
    simp [Rule.digits, hc, List.takeWhile_append_of_pos hw, htake]
  have hexponent : Rule.exponent rest = [] := by
    cases rest with
    | nil => rfl
    | cons x rest =>
      have hx : x ≠ 'e' ∧ x ≠ 'E' := by
        refine ⟨?_, ?_⟩
        · rintro rfl
          exact head?_ne_of_all hrest (x := 'e') (by decide) rfl
        · rintro rfl
          exact head?_ne_of_all hrest (x := 'E') (by decide) rfl
      simp [Rule.exponent, hx]
  have hpoint : rest.head? ≠ some '.' := head?_ne_of_all hrest (by decide)
  have hlone : c :: w ≠ ['.'] := by simp [ne_of_test hc (e := '.') rfl]
  have hdrop : (c :: (w ++ rest)).drop (c :: w).length = rest := by simp
  simp only [Rule.numberText, hdigits, hdrop, hpoint, if_false, List.length_nil, List.drop_zero,
    hfraction, List.append_nil, hlone, hexponent]

/-- No string begins with a digit. -/
theorem readString_of_isDigit (hc : c.isDigit = true) : Rule.readString r c s = .pass := by
  have hletter : ∀ x : Char, x.isAlpha = true → c.toLower ≠ x := by
    rintro x hx rfl
    have hstart : isNameStart c = true := by simp [isNameStart, isAlpha_of_isAlpha_toLower hx]
    simp [isDigit_of_isNameStart hstart] at hc
  have hquote : c ≠ '\'' := ne_of_test hc rfl
  have hopening : Rule.stringOpening? r c s = none := by
    simp [Rule.stringOpening?, hquote, hletter 'b' rfl, hletter 'n' rfl, hletter 'x' rfl,
      hletter 'e' rfl, hletter 'u' rfl]
  rw [Rule.readString, hopening]

/-- Digits that no word character and no point follows are a number. -/
theorem find_number (hc : c.isDigit = true) (hw : ∀ x ∈ w, x.isDigit = true)
    (hrest : rest.head?.all endsNumber = true) :
    Rule.find r c (w ++ rest) = .token (.number (c :: w)) rest := by
  have hread : Rule.readNumber r c (w ++ rest) = .token (.number (c :: w)) rest := by
    have hhex : (w ++ rest).head? ≠ some 'x' := by
      intro hhead
      cases w with
      | nil => exact head?_ne_of_all hrest (x := 'x') (by decide) hhead
      | cons y w =>
        obtain rfl : y = 'x' := by simpa using hhead
        exact absurd (hw 'x' List.mem_cons_self) (by decide)
    have hlong : rest.head? ≠ some 'L' := head?_ne_of_all hrest (by decide)
    have hpoint : c ≠ '.' := ne_of_test hc rfl
    simp only [Rule.readNumber, hc, true_or, if_true, hhex, and_false, if_false,
      numberText_digits hc hw hrest]
    simp [hpoint, hlong]
  have hstring : Rule.readString r c (w ++ rest) = .pass := readString_of_isDigit hc
  obtain ⟨hblank, hname, -⟩ := pass_of_test (r := r) (s := w ++ rest) hc (by decide)
  simp [Rule.find, Rule.all, Rule.blank, Rule.string, Rule.name, Rule.number, Found.orElse, hblank,
    hstring, hname, hread]

/-! ## Quoted texts -/

/-- Doubling changes nothing where there is nothing to double. -/
theorem double_of_forall_ne {stop : Char} (h : ∀ x ∈ s, x ≠ stop) : double stop s = s := by
  induction s with
  | nil => rfl
  | cons x s ih =>
    have hx : x ≠ stop := h x List.mem_cons_self
    rw [double_cons, if_neg hx, ih fun y hy => h y (List.mem_cons_of_mem x hy)]
    rfl

namespace Rule

theorem ofReading_orElse {α : Type} (f : α → Token) (x : Reading α) (y : Found) :
    (Found.ofReading f x).orElse y = Found.ofReading f x := by
  cases x <;> rfl

theorem pass_orElse (y : Found) : Found.pass.orElse y = y := rfl

/-- What begins as a string is read as one. -/
theorem find_string {kind : StringKind} {inside : List Char}
    (h : stringOpening? d c s = some (kind, inside)) :
    find d c s = .ofReading (.string kind) (closeString kind inside) := by
  have hblank : readBlank d c s = .pass := by
    have hne : ∀ e ∈ [' ', '\t', '\n', '\r'], c ≠ e := by
      rintro e he rfl
      simp only [List.mem_cons, List.not_mem_nil, or_false] at he
      rcases he with rfl | rfl | rfl | rfl
      all_goals exact absurd h (by cases d <;> simp [stringOpening?])
    simp only [List.forall_mem_cons] at hne
    simp [readBlank, hne]
  have hstring : readString d c s = .ofReading (.string kind) (closeString kind inside) := by
    rw [readString, h]
  simp only [find, all, List.foldr_cons, blank, string, hblank, hstring, pass_orElse,
    ofReading_orElse]

/-- What begins as a quoted name is read as one. -/
theorem find_name {stop : Char} (h : nameClosing? d c = some stop) :
    find d c s = .ofReading (.name c stop) (closeQuoted stop s) := by
  have hname : readName d c s = .ofReading (.name c stop) (closeQuoted stop s) := by
    rw [readName, h]
  have hpass : readBlank d c s = .pass ∧ readString d c s = .pass := by
    have hmarks := nameClosing?_mem h
    simp only [nameMarks, List.mem_cons, Prod.mk.injEq, List.not_mem_nil, or_false] at hmarks
    rcases hmarks with ⟨rfl, -⟩ | ⟨rfl, -⟩ | ⟨rfl, -⟩
    all_goals exact ⟨rfl, by cases d <;> rfl⟩
  simp only [find, all, List.foldr_cons, blank, string, name, hpass, hname, pass_orElse,
    ofReading_orElse]

end Rule

/-- A name between its marks is one to the dialects that have the marks. -/
theorem find_quoted {stop : Char} (hstop : Rule.nameClosing? r c = some stop)
    (hrest : rest.head? ≠ some stop) :
    Rule.find r c (double stop s ++ stop :: rest) = .token (.name c stop s) rest := by
  rw [Rule.find_name hstop, closeQuoted_double stop s rest hrest]
  rfl

/-- Double quotes stand around names in every dialect. -/
theorem nameClosing?_doubleQuote : Rule.nameClosing? r '"' = some '"' := by
  cases r <;> rfl

/-- A string is one to every dialect. -/
theorem find_literal (hrest : rest.head? ≠ some '\'') :
    Rule.find r '\'' (double '\'' s ++ '\'' :: rest) = .token (.string .plain s) rest := by
  have hopening : ∀ w, Rule.stringOpening? r '\'' w = some (.plain, w) := fun _ => rfl
  rw [Rule.find_string (hopening _), Rule.closeString, closeQuoted_double '\'' s rest hrest]
  rfl

/-! ## What every dialect reads as it stands -/

/-- A name of ASCII: letters, digits and underscores, no digit first. -/
def IsName (s : List Char) : Prop :=
  (∃ c ∈ s.head?, isNameStart c = true) ∧ ∀ c ∈ s, Placeholder.isNameChar c = true

instance (s : List Char) : Decidable (IsName s) :=
  decidable_of_iff (s.head?.any isNameStart = true ∧ s.all Placeholder.isNameChar = true)
    (by simp [IsName, Option.any_eq_true])

theorem IsName.exists_cons (h : IsName s) : ∃ c w, s = c :: w ∧ isNameStart c = true ∧
    ∀ x ∈ w, Placeholder.isNameChar x = true := by
  obtain ⟨⟨c, hc, hstart⟩, hall⟩ := h
  cases s with
  | nil => cases hc
  | cons x w =>
    obtain rfl : x = c := by simpa using hc
    exact ⟨x, w, rfl, hstart, fun y hy => hall y (List.mem_cons_of_mem x hy)⟩

/-- The characters of a name are no marks. -/
theorem IsName.ne (h : IsName s) {x : Char} (hx : Placeholder.isNameChar x = false) :
    ∀ c ∈ s, c ≠ x := fun c hc => ne_of_test (h.2 c hc) hx

/-- A name is a word. -/
theorem verbatim_word (h : IsName s) (hrest : rest.head?.all endsWord = true) :
    Verbatim r s rest := by
  obtain ⟨c, w, rfl, hc, hw⟩ := h.exists_cons
  exact verbatim_of_find (find_word hc hw hrest) rfl

/-- A numeral has a first digit. -/
theorem exists_cons_natural (n : Nat) : ∃ c w, natural n = c :: w ∧ c.isDigit = true ∧
    ∀ x ∈ w, x.isDigit = true := by
  have hne : natural n ≠ [] := Nat.toDigits_ne_nil
  obtain ⟨c, w, hw⟩ := List.exists_cons_of_ne_nil hne
  have hdigits : ∀ x ∈ c :: w, x.isDigit = true := by
    rw [← hw]
    exact fun x hx => isDigit_of_mem_natural hx
  exact ⟨c, w, hw, hdigits c List.mem_cons_self, fun x hx => hdigits x (List.mem_cons_of_mem c hx)⟩

/-- Digits are a number. -/
theorem verbatim_digits (hne : s ≠ []) (hs : ∀ c ∈ s, c.isDigit = true)
    (hrest : rest.head?.all endsNumber = true) : Verbatim r s rest := by
  obtain ⟨c, w, rfl⟩ := List.exists_cons_of_ne_nil hne
  exact verbatim_of_find
    (find_number (hs c List.mem_cons_self) (fun x hx => hs x (List.mem_cons_of_mem c hx)) hrest) rfl

theorem verbatim_natural (n : Nat) (hrest : rest.head?.all endsNumber = true) :
    Verbatim r (natural n) rest :=
  verbatim_digits Nat.toDigits_ne_nil (fun _ hc => isDigit_of_mem_natural hc) hrest

/-- A name between double quotes. -/
theorem verbatim_doubleQuoted (h : IsName s) (hrest : rest.head? ≠ some '"') :
    Verbatim r ('"' :: s ++ ['"']) rest := by
  have hfind := find_quoted (r := r) (s := s) nameClosing?_doubleQuote hrest
  rw [double_of_forall_ne (h.ne rfl)] at hfind
  refine verbatim_of_find (t := .name '"' '"' s) ?_ rfl
  simpa using hfind

/-- A name between brackets is one to T-SQL, and a word between symbols to
the other dialects. -/
theorem verbatim_bracketed (h : IsName s) (hrest : rest.head? ≠ some ']') :
    Verbatim r ('[' :: s ++ [']']) rest := by
  by_cases hr : r = .tsql
  · subst hr
    have hclosing : Rule.nameClosing? .tsql '[' = some ']' := rfl
    have hfind := find_quoted (s := s) hclosing hrest
    rw [double_of_forall_ne (h.ne rfl)] at hfind
    refine verbatim_of_find (t := .name '[' ']' s) ?_ rfl
    simpa using hfind
  · have hopen : ∀ u, Rule.find r '[' u = .token (.symbol ['[']) u := by
      intro u
      cases r with
      | tsql => exact absurd rfl hr
      | _ => rfl
    have hclose : ∀ u, Rule.find r ']' u = .token (.symbol [']']) u := by
      intro u
      cases r <;> rfl
    have hword : Verbatim r s ([']'] ++ rest) := verbatim_word h rfl
    have hstop : Verbatim r [']'] rest := verbatim_of_find (s := []) (hclose rest) rfl
    have hstart : Verbatim r ['['] ((s ++ [']']) ++ rest) :=
      verbatim_of_find (s := []) (hopen _) rfl
    exact hstart.append (hword.append hstop)

/-- A literal. -/
theorem verbatim_literal (h : ∀ c ∈ s, c ≠ '\'') (hrest : rest.head? ≠ some '\'') :
    Verbatim r ('\'' :: s ++ ['\'']) rest := by
  have hfind := find_literal (r := r) (s := s) hrest
  rw [double_of_forall_ne h] at hfind
  refine verbatim_of_find (t := .string .plain s) ?_ rfl
  simpa using hfind

/-! ## Marks -/

/-- Whether a character sets apart the fragments next to it. -/
def isBreak (c : Char) : Bool := " \n,()".toList.contains c

/-- A break is a token, whatever follows it. -/
theorem verbatim_break (hc : isBreak c = true) : Verbatim r [c] rest := by
  have hmem : c ∈ " \n,()".toList := by simpa [isBreak] using hc
  simp at hmem
  rcases hmem with rfl | rfl | rfl | rfl | rfl
  all_goals exact verbatim_of_find (s := []) (t := _) (by cases r <;> rfl) rfl

/-- A point before a break or a quoted name is a token. -/
theorem verbatim_point
    (hrest : rest.head?.all isBreak = true ∨ rest.head? = some '"' ∨ rest.head? = some '[') :
    Verbatim r ['.'] rest := by
  refine verbatim_of_find (s := []) (t := .symbol ['.']) ?_ rfl
  cases rest with
  | nil => cases r <;> rfl
  | cons x rest =>
    have hx : x ∈ " \n,()\"[".toList := by
      simp [isBreak] at hrest ⊢
      grind
    simp at hx
    rcases hx with rfl | rfl | rfl | rfl | rfl | rfl | rfl
    all_goals (cases r <;> rfl)

/-- The marks of comparisons and of arithmetic. -/
def operatorTexts : List (List Char) :=
  ["=", "<>", "<", ">", "<=", ">=", "+", "-", "*", "/"].map String.toList

/-- An operator before a break is a token. -/
theorem verbatim_operator (hs : s ∈ operatorTexts) (hrest : rest.head?.all isBreak = true) :
    Verbatim r s rest := by
  have hnext : rest = [] ∨ ∃ x u, rest = x :: u ∧ x ∈ [' ', '\n', ',', '(', ')'] := by
    cases rest with
    | nil => exact Or.inl rfl
    | cons x u => exact Or.inr ⟨x, u, rfl, by simpa [isBreak] using hrest⟩
  obtain ⟨c, w, rfl⟩ : ∃ c w, s = c :: w := by
    refine List.exists_cons_of_ne_nil ?_
    rintro rfl
    exact absurd hs (by decide)
  refine verbatim_of_find (t := .symbol (c :: w)) ?_ rfl
  simp [operatorTexts] at hs
  rcases hnext with rfl | ⟨x, u, rfl, hx⟩
  · rcases hs with ⟨rfl, rfl⟩ | ⟨rfl, rfl⟩ | ⟨rfl, rfl⟩ | ⟨rfl, rfl⟩ | ⟨rfl, rfl⟩ | ⟨rfl, rfl⟩ |
      ⟨rfl, rfl⟩ | ⟨rfl, rfl⟩ | ⟨rfl, rfl⟩ | ⟨rfl, rfl⟩
    all_goals (cases r <;> rfl)
  · simp at hx
    rcases hs with ⟨rfl, rfl⟩ | ⟨rfl, rfl⟩ | ⟨rfl, rfl⟩ | ⟨rfl, rfl⟩ | ⟨rfl, rfl⟩ | ⟨rfl, rfl⟩ |
      ⟨rfl, rfl⟩ | ⟨rfl, rfl⟩ | ⟨rfl, rfl⟩ | ⟨rfl, rfl⟩
    all_goals (rcases hx with rfl | rfl | rfl | rfl | rfl <;> cases r <;> rfl)

/-- A sign before a digit is a token. -/
theorem verbatim_sign (hc : c.isDigit = true) : Verbatim r ['-'] (c :: rest) := by
  have hmem : c ∈ "0123456789".toList := by
    obtain ⟨hlt, heq⟩ := digitChar_of_isDigit hc
    have hall : ∀ k < 10, Nat.digitChar k ∈ "0123456789".toList := by decide
    rw [← heq]
    exact hall _ hlt
  simp at hmem
  refine verbatim_of_find (s := []) (t := .symbol ['-']) ?_ rfl
  rcases hmem with rfl | rfl | rfl | rfl | rfl | rfl | rfl | rfl | rfl | rfl
  all_goals (cases r <;> rfl)

/-- An integer. -/
theorem verbatim_integer (n : Int) (hrest : rest.head?.all endsNumber = true) :
    Verbatim r (integer n) rest := by
  have hnatural : Verbatim r (natural n.natAbs) rest := verbatim_natural _ hrest
  unfold integer
  split
  · obtain ⟨c, w, hw, hdigit, -⟩ := exists_cons_natural n.natAbs
    have hsign : Verbatim r ['-'] (natural n.natAbs ++ rest) := by
      rw [hw]
      exact verbatim_sign hdigit
    exact hsign.append hnatural
  · exact hnatural

end DealSql.Statement
