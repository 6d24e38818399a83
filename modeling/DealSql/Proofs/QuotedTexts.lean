import DealSql.Proofs.LocalReadings
import DealSql.Proofs.VerbatimTexts

/-!
# Quoted texts

A dialect reads a quoted text by a rule of three parts: an opening mark begins
it, a closing mark written twice stands for one, and a closing mark that stands
alone ends it.  Quoting and reading are inverse to each other, whatever follows
the text, as long as no further closing mark does.

So a quoted text says by itself where it ends, no text can get out of its
quotes, and no two texts are quoted alike.  A string may have an `N` in front,
which tells nothing about its text.

* `closeQuoted_eq_some_iff` — what stands before a closing mark.
* `readIdentifier?_eq_some_iff`, `readString?_eq_some_iff` — what is read is
  what was quoted.
* `tokens_quoteIdentifier` — a quoted identifier is one token of its dialect.
* `quoted_texts_read_back` — all of it for a dialect.
-/

namespace DealSql

open DealSql.Text DealSql.Statement

variable {d : Dialect} {stop : Char} {s t rest : List Char}

/-- What is read up to a closing mark has been doubled before it. -/
theorem Text.closeQuoted_eq_some_iff : closeQuoted stop t = some (s, rest) ↔
    t = double stop s ++ stop :: rest ∧ rest.head? ≠ some stop := by
  constructor
  · intro h
    exact ⟨eq_of_closeQuoted h, head?_ne_of_closeQuoted h⟩
  · rintro ⟨rfl, hrest⟩
    exact closeQuoted_double stop s rest hrest

theorem Text.quoteWith_append (start stop : Char) (s rest : List Char) :
    quoteWith start stop s ++ rest = start :: (double stop s ++ stop :: rest) := by
  simp [quoteWith]

namespace Dialect

/-- The identifier at the start of a text, and what follows it. -/
def readIdentifier? (d : Dialect) : List Char → Option (List Char × List Char)
  | [] => none
  | c :: r => if c = d.identifierMarks.1 then closeQuoted d.identifierMarks.2 r else none

/-- The string at the start of a text, and what follows it. -/
def readString? : List Char → Option (List Char × List Char)
  | '\'' :: r => closeQuoted '\'' r
  | 'N' :: '\'' :: r => closeQuoted '\'' r
  | _ => none

/-- **What is read as an identifier** is what was quoted. -/
theorem readIdentifier?_eq_some_iff : d.readIdentifier? t = some (s, rest) ↔
    t = d.quoteIdentifier s ++ rest ∧ rest.head? ≠ some d.identifierMarks.2 := by
  rw [quoteIdentifier, quoteWith_append]
  cases t with
  | nil => simp [readIdentifier?]
  | cons c r =>
    rw [readIdentifier?, List.cons.injEq]
    by_cases hc : c = d.identifierMarks.1
    · rw [if_pos hc, closeQuoted_eq_some_iff, and_iff_right hc]
    · simp [hc]

/-- **What is read as a string** is what was quoted, with or without the mark of national
strings. -/
theorem readString?_eq_some_iff : readString? t = some (s, rest) ↔
    (t = quoteWith '\'' '\'' s ++ rest ∨ t = 'N' :: quoteWith '\'' '\'' s ++ rest) ∧
      rest.head? ≠ some '\'' := by
  rw [List.cons_append, quoteWith_append]
  unfold readString?
  split
  · next r => simp [closeQuoted_eq_some_iff]
  · next r => simp [closeQuoted_eq_some_iff]
  · next hplain hnational =>
    constructor
    · intro h
      cases h
    · rintro ⟨rfl | rfl, -⟩
      · exact absurd rfl (hplain _)
      · exact absurd rfl (hnational _)

/-- A string is quoted as in any dialect, with a mark in front where it is national. -/
theorem quoteString_cases (d : Dialect) (s : List Char) :
    d.quoteString s = quoteWith '\'' '\'' s ∨ d.quoteString s = 'N' :: quoteWith '\'' '\'' s := by
  unfold quoteString
  split
  · exact Or.inr rfl
  · exact Or.inl rfl

/-- A quoted identifier is read back. -/
theorem readIdentifier?_quoteIdentifier (d : Dialect) (s : List Char)
    (hrest : rest.head? ≠ some d.identifierMarks.2) :
    d.readIdentifier? (d.quoteIdentifier s ++ rest) = some (s, rest) :=
  readIdentifier?_eq_some_iff.2 ⟨rfl, hrest⟩

/-- A quoted string is read back. -/
theorem readString?_quoteString (d : Dialect) (s : List Char) (hrest : rest.head? ≠ some '\'') :
    readString? (d.quoteString s ++ rest) = some (s, rest) := by
  apply readString?_eq_some_iff.2
  rcases quoteString_cases d s with h | h
  · exact ⟨Or.inl (by rw [h]), hrest⟩
  · exact ⟨Or.inr (by rw [h]), hrest⟩

/-- **A quoted identifier is one token** of its dialect. -/
theorem tokens_quoteIdentifier (d : Dialect) (s : List Char)
    (hrest : rest.head? ≠ some d.identifierMarks.2) :
    tokens d (d.quoteIdentifier s ++ rest) =
      (tokens d rest).map (.name d.identifierMarks.1 d.identifierMarks.2 s :: ·) := by
  rw [quoteIdentifier, quoteWith_append]
  apply tokens_of_find
  cases d with
  | postgres => exact find_quoted nameClosing?_doubleQuote hrest
  | duckdb => exact find_quoted nameClosing?_doubleQuote hrest
  | tsql => exact find_quoted rfl hrest

/-- No two identifiers are quoted alike. -/
theorem quoteIdentifier_injective (d : Dialect) : Function.Injective d.quoteIdentifier := by
  intro s t h
  have hnil : ([] : List Char).head? ≠ some d.identifierMarks.2 := by simp
  have hs := readIdentifier?_quoteIdentifier d s hnil
  have ht := readIdentifier?_quoteIdentifier d t hnil
  rw [h, ht] at hs
  cases hs
  rfl

/-- No two strings are quoted alike. -/
theorem quoteString_injective (d : Dialect) : Function.Injective d.quoteString := by
  intro s t h
  have hnil : ([] : List Char).head? ≠ some '\'' := by simp
  have hs := readString?_quoteString d s hnil
  have ht := readString?_quoteString d t hnil
  rw [h, ht] at hs
  cases hs
  rfl

/-- **Quoted texts are read back.**  Before anything but a closing mark a quoted identifier is
read as the text that was quoted, up to its end and no further, also by the tokens of its
dialect, and so is a quoted string; nothing else is read as the same text.  So no two texts
are quoted alike. -/
theorem quoted_texts_read_back (d : Dialect) :
    (∀ s rest, rest.head? ≠ some d.identifierMarks.2 →
      d.readIdentifier? (d.quoteIdentifier s ++ rest) = some (s, rest) ∧
      tokens d (d.quoteIdentifier s ++ rest) =
        (tokens d rest).map (.name d.identifierMarks.1 d.identifierMarks.2 s :: ·)) ∧
    (∀ s rest, rest.head? ≠ some '\'' →
      readString? (d.quoteString s ++ rest) = some (s, rest)) ∧
    (∀ t s rest, d.readIdentifier? t = some (s, rest) → t = d.quoteIdentifier s ++ rest) ∧
    (∀ t s rest, readString? t = some (s, rest) →
      t = quoteWith '\'' '\'' s ++ rest ∨ t = 'N' :: quoteWith '\'' '\'' s ++ rest) ∧
    Function.Injective d.quoteIdentifier ∧ Function.Injective d.quoteString := by
  refine ⟨fun s rest hrest => ⟨?_, ?_⟩, fun s rest => readString?_quoteString d s,
    fun t s rest h => (readIdentifier?_eq_some_iff.1 h).1,
    fun t s rest h => (readString?_eq_some_iff.1 h).1,
    quoteIdentifier_injective d, quoteString_injective d⟩
  · exact readIdentifier?_quoteIdentifier d s hrest
  · exact tokens_quoteIdentifier d s hrest

/-- A name with brackets at its ends and inside, and a national string with a quote. -/
theorem bracketedName_read_back :
    (" x".toList.head? ≠ some ']' ∧
      tsql.quoteIdentifier "]a]]b]".toList ++ " x".toList = "[]]a]]]]b]]] x".toList ∧
      tsql.readIdentifier? "[]]a]]]]b]]] x".toList = some ("]a]]b]".toList, " x".toList)) ∧
    (" x".toList.head? ≠ some '\'' ∧
      tsql.quoteString "Crédit's".toList ++ " x".toList = "N'Crédit''s' x".toList ∧
      readString? "N'Crédit''s' x".toList = some ("Crédit's".toList, " x".toList)) := by
  obtain ⟨hname, hstring, hnamed, hspelled, -, -⟩ := quoted_texts_read_back .tsql
  have hhead : " x".toList.head? ≠ some ']' ∧ " x".toList.head? ≠ some '\'' := by decide
  have hread : tsql.readIdentifier? "[]]a]]]]b]]] x".toList =
      some ("]a]]b]".toList, " x".toList) :=
    (hname "]a]]b]".toList " x".toList hhead.1).1
  have hreadString : readString? "N'Crédit''s' x".toList =
      some ("Crédit's".toList, " x".toList) :=
    hstring "Crédit's".toList " x".toList hhead.2
  refine ⟨⟨hhead.1, (hnamed _ _ _ hread).symm, hread⟩, hhead.2, ?_, hreadString⟩
  rcases hspelled _ _ _ hreadString with h | h
  · exact absurd h (by decide)
  · exact h.symm

end Dialect

end DealSql
