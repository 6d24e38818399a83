import DealSql.Preview.Naming
import DealSql.Proofs.VerbatimTexts
import DealSql.Review.Verdict
import Mathlib.Data.List.Basic

/-!
# Names of results

Whatever a calculation is called, the column of its result has a name that a
statement may give to a result.  The snake case of the name has no capital
letters of ASCII, and of its other characters only those of a column name are
kept.  Where that leaves nothing, or a digit in front, another text begins the
name.

* `resultColumn_cases` — the three ways in which the column is named.
* `resultColumn_eq_cons` — a letter, then letters, digits and underscores.
* `resultColumn_usable` — small letters, digits and underscores, of which none
  is at an end.
-/

namespace DealSql.Preview

open DealSql.Text DealSql.Statement

variable {p : Char → Bool} {s name : List Char} {c : Char}

/-- What is left without trailing characters is a front part. -/
theorem dropTrailing_prefix (p : Char → Bool) (s : List Char) : dropTrailing p s <+: s := by
  obtain ⟨t, ht⟩ := List.dropWhile_suffix p (l := s.reverse)
  refine ⟨t.reverse, ?_⟩
  rw [dropTrailing, ← List.reverse_append, ht, List.reverse_reverse]

/-- The last character that is left is none of those that are dropped. -/
theorem getLast?_dropTrailing (h : (dropTrailing p s).getLast? = some c) : p c = false := by
  rw [dropTrailing, List.getLast?_reverse] at h
  have hfirst := List.head?_dropWhile_not p s.reverse
  rw [h] at hfirst
  simpa using hfirst

/-- A character that may stand in a column name is a digit, a letter or an
underscore. -/
theorem isColumnChar_iff :
    isColumnChar c = true ↔ c.isDigit = true ∨ c.isAlpha = true ∨ c = '_' := by
  simp [isColumnChar, Char.isAlphanum]
  grind

/-! ## Characters of the column -/

/-- A character of a name gives at most an underscore and its lower case. -/
theorem snakeFrom_cons (name : List Char) (boundary : Bool) (position : Nat) (x : Char)
    (r : List Char) :
    ∃ front next, snakeFrom name boundary position (x :: r) =
        front ++ snakeFrom name next (position + x.utf8Size) r ∧
      ∀ c ∈ front, c = '_' ∨ c = x.toLower := by
  by_cases hword : isAlphanumeric x = true
  · by_cases hbegins : (!boundary && beginsWord name position x) = true
    · exact ⟨['_', x.toLower], false, by simp [snakeFrom, hword, hbegins], by simp⟩
    · exact ⟨[x.toLower], false, by simp [snakeFrom, hword, hbegins], by simp⟩
  · cases boundary with
    | true => exact ⟨[], true, by simp [snakeFrom, hword], by simp⟩
    | false => exact ⟨['_'], true, by simp [snakeFrom, hword], by simp⟩

/-- Snake case has no capital letters of ASCII. -/
theorem isUpper_of_mem_snakeFrom {boundary : Bool} {position : Nat} {r : List Char}
    (h : c ∈ snakeFrom name boundary position r) : c.isUpper = false := by
  induction r generalizing boundary position with
  | nil => cases h
  | cons x r ih =>
    obtain ⟨front, next, hstep, hfront⟩ := snakeFrom_cons name boundary position x r
    rw [hstep] at h
    rcases List.mem_append.1 h with h | h
    · rcases hfront c h with rfl | rfl
      · rfl
      · exact isUpper_toLower x
    · exact ih h

/-- Whether a character is a small letter of ASCII, a digit or an underscore. -/
def IsSmall (c : Char) : Prop := c.isLower = true ∨ c.isDigit = true ∨ c = '_'

instance (c : Char) : Decidable (IsSmall c) :=
  inferInstanceAs (Decidable (c.isLower = true ∨ c.isDigit = true ∨ c = '_'))

/-- A character of a column name that is no capital letter is small. -/
theorem isSmall_of_isColumnChar (hcolumn : isColumnChar c = true) (hupper : c.isUpper = false) :
    IsSmall c := by
  rcases isColumnChar_iff.1 hcolumn with hdigit | hletter | hline
  · exact Or.inr (Or.inl hdigit)
  · refine Or.inl ?_
    have hcase : (c.isUpper || c.isLower) = true := hletter
    rwa [hupper, Bool.false_or] at hcase
  · exact Or.inr (Or.inr hline)

/-- Small characters may stand in a column name. -/
theorem isColumnChar_of_isSmall (h : IsSmall c) : isColumnChar c = true := by
  rcases h with hlower | hdigit | hline
  · exact isColumnChar_iff.2 (Or.inr (Or.inl (Bool.or_eq_true_iff.2 (Or.inr hlower))))
  · exact isColumnChar_iff.2 (Or.inl hdigit)
  · exact isColumnChar_iff.2 (Or.inr (Or.inr hline))

/-- What is kept of a name for a column: the characters of its snake case that
may stand in one, without the underscores at the ends. -/
def columnCore (name : List Char) : List Char :=
  dropTrailing (· == '_') (((snakeCase name).filter isColumnChar).dropWhile (· == '_'))

/-- What is kept are small characters. -/
theorem isSmall_of_mem_columnCore (h : c ∈ columnCore name) : IsSmall c := by
  have hfront := dropTrailing_prefix (· == '_')
    (((snakeCase name).filter isColumnChar).dropWhile (· == '_'))
  have hkept : c ∈ (snakeCase name).filter isColumnChar :=
    (List.dropWhile_sublist _).mem (hfront.subset h)
  obtain ⟨hsnake, hcolumn⟩ := List.mem_filter.1 hkept
  exact isSmall_of_isColumnChar hcolumn (isUpper_of_mem_snakeFrom hsnake)

/-- What is kept does not begin with an underscore. -/
theorem head?_columnCore (h : (columnCore name).head? = some c) : c ≠ '_' := by
  obtain ⟨t, ht⟩ := dropTrailing_prefix (· == '_')
    (((snakeCase name).filter isColumnChar).dropWhile (· == '_'))
  have hfirst := List.head?_dropWhile_not (· == '_') ((snakeCase name).filter isColumnChar)
  rw [← ht, List.head?_append, show (dropTrailing _ _).head? = some c from h] at hfirst
  simpa using hfirst

/-- What is kept does not end in an underscore. -/
theorem getLast?_columnCore (h : (columnCore name).getLast? = some c) : c ≠ '_' := by
  simpa using getLast?_dropTrailing h

/-! ## The name of the column -/

/-- Where nothing is kept, the column has a name of its own. -/
theorem resultColumn_of_nil (h : columnCore name = []) : resultColumn name = defaultColumn := by
  unfold columnCore at h
  simp only [resultColumn, h]

/-- What is kept is the name of the column, behind a text where it begins with
a digit. -/
theorem resultColumn_of_cons {w : List Char} (h : columnCore name = c :: w) :
    resultColumn name =
      if c.isDigit then "calc_".toList ++ columnCore name else columnCore name := by
  unfold columnCore at h ⊢
  simp only [resultColumn, h]

/-- **The three ways in which the column is named**: nothing is kept, or it
begins with a digit, or with a small letter. -/
theorem resultColumn_cases (name : List Char) :
    columnCore name = [] ∧ resultColumn name = defaultColumn ∨
    (∃ c w, columnCore name = c :: w ∧ c.isDigit = true ∧
      resultColumn name = "calc_".toList ++ columnCore name) ∨
    ∃ c w, columnCore name = c :: w ∧ c.isLower = true ∧ resultColumn name = columnCore name := by
  cases hcore : columnCore name with
  | nil => exact Or.inl ⟨rfl, resultColumn_of_nil hcore⟩
  | cons c w =>
    have hname := resultColumn_of_cons hcore
    rw [hcore] at hname
    by_cases hdigit : c.isDigit = true
    · rw [if_pos hdigit] at hname
      exact Or.inr (Or.inl ⟨c, w, rfl, hdigit, hname⟩)
    · rw [if_neg hdigit] at hname
      refine Or.inr (Or.inr ⟨c, w, rfl, ?_, hname⟩)
      have hhead : (columnCore name).head? = some c := by rw [hcore, List.head?_cons]
      have hmem : c ∈ columnCore name := by rw [hcore]; exact List.mem_cons_self
      exact (isSmall_of_mem_columnCore hmem).resolve_right
        (by simp [hdigit, head?_columnCore hhead])

/-- The column begins with a small letter. -/
theorem resultColumn_eq_isLower_cons (name : List Char) :
    ∃ c w, resultColumn name = c :: w ∧ c.isLower = true := by
  rcases resultColumn_cases name with ⟨-, h⟩ | ⟨c, w, -, -, h⟩ | ⟨c, w, hcore, hlower, h⟩
  · exact ⟨'c', "alculation_result".toList, h, rfl⟩
  · exact ⟨'c', "alc_".toList ++ columnCore name, h, rfl⟩
  · exact ⟨c, w, h.trans hcore, hlower⟩

/-- The column is made of small characters. -/
theorem isSmall_of_mem_resultColumn (h : c ∈ resultColumn name) : IsSmall c := by
  have hdefault : ∀ x ∈ defaultColumn, IsSmall x := by decide
  have hcalc : ∀ x ∈ "calc_".toList, IsSmall x := by decide
  rcases resultColumn_cases name with ⟨-, hname⟩ | ⟨-, -, -, -, hname⟩ | ⟨-, -, -, -, hname⟩
  · rw [hname] at h
    exact hdefault c h
  · rw [hname] at h
    rcases List.mem_append.1 h with h | h
    · exact hcalc c h
    · exact isSmall_of_mem_columnCore h
  · rw [hname] at h
    exact isSmall_of_mem_columnCore h

/-- The column does not end in an underscore. -/
theorem getLast?_resultColumn (name : List Char) : (resultColumn name).getLast? ≠ some '_' := by
  have hkept : (columnCore name).getLast? ≠ some '_' := fun h => getLast?_columnCore h rfl
  rcases resultColumn_cases name with ⟨-, h⟩ | ⟨c, w, hcore, -, h⟩ | ⟨-, -, -, -, h⟩
  · rw [h]
    decide
  · have hne : columnCore name ≠ [] := by simp [hcore]
    rwa [h, List.getLast?_append_of_ne_nil _ hne]
  · rwa [h]

/-- **The name of a result** is a letter, then letters, digits and underscores. -/
theorem resultColumn_eq_cons (name : List Char) : ∃ c w, resultColumn name = c :: w ∧
    c.isAlpha = true ∧ ∀ x ∈ w, isColumnChar x = true := by
  obtain ⟨c, w, hname, hlower⟩ := resultColumn_eq_isLower_cons name
  refine ⟨c, w, hname, Bool.or_eq_true_iff.2 (Or.inr hlower), fun x hx => ?_⟩
  have hmem : x ∈ resultColumn name := hname ▸ List.mem_cons_of_mem c hx
  exact isColumnChar_of_isSmall (isSmall_of_mem_resultColumn hmem)

/-- It may be given to a result. -/
theorem isResultColumn_resultColumn (name : List Char) :
    Review.isResultColumn (resultColumn name) = true := by
  obtain ⟨c, w, hname, hc, hw⟩ := resultColumn_eq_cons name
  rw [hname, Review.isResultColumn, hc, Bool.true_and, List.all_eq_true]
  exact hw

/-- It is a name of ASCII. -/
theorem isName_resultColumn (name : List Char) : IsName (resultColumn name) := by
  obtain ⟨c, w, hname, hc, hw⟩ := resultColumn_eq_cons name
  rw [hname]
  refine ⟨⟨c, rfl, by simp [isNameStart, hc]⟩, fun x hx => ?_⟩
  rcases List.mem_cons.1 hx with rfl | hx
  · simp [Placeholder.isNameChar, Char.isAlphanum, hc]
  · exact hw x hx

/-- **Names of results are usable**: whatever a calculation is called, in any
script, its column begins with a small letter of ASCII, is made of such
letters, digits and underscores, does not end in an underscore, and may be
given to a result. -/
theorem resultColumn_usable (name : List Char) :
    (∃ c w, resultColumn name = c :: w ∧ c.isLower = true) ∧
    (∀ c ∈ resultColumn name, c.isLower = true ∨ c.isDigit = true ∨ c = '_') ∧
    (resultColumn name).getLast? ≠ some '_' ∧
    Review.isResultColumn (resultColumn name) = true :=
  ⟨resultColumn_eq_isLower_cons name, fun _ => isSmall_of_mem_resultColumn,
    getLast?_resultColumn name, isResultColumn_resultColumn name⟩

/-- Of a name in another script only the digits may be left. -/
example : resultColumn "合計 2024".toList = "calc_2024".toList := by decide +kernel

end DealSql.Preview
