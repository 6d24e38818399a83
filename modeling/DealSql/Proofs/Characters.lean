import DealSql.Statement.Lexeme

/-!
# Classes of characters

How the classes lie to each other by which texts are cut up: blanks are no
word characters, the letters and digits of ASCII are, and the marks of SQL
belong to none of them.  The tables of the classes are compared range by
range (`Ranges.Apart`), so that nothing here depends on a single character
beyond ASCII.
-/

namespace DealSql

open DealSql.Text

namespace Text

/-- Whether all characters of a text pass a test is decided one by one, never
by going through all the characters that there are. -/
instance (priority := high) decidableForallMem (s : List Char) (p : Char → Prop)
    [DecidablePred p] : Decidable (∀ c ∈ s, p c) := List.decidableBAll p s

/-- So it is for the first character of a text, if there is one. -/
instance (priority := high) decidableForallMemHead (o : Option Char) (p : Char → Prop)
    [DecidablePred p] : Decidable (∀ c ∈ o, p c) := Option.decidableForallMem o

/-- A run of characters that pass a test ends before one that fails it. -/
theorem run_append_of_stop {p : Char → Bool} {w rest : List Char} (hw : ∀ c ∈ w, p c = true)
    (hstop : ∀ c ∈ rest.head?, p c = false) :
    (w ++ rest).takeWhile p = w ∧ (w ++ rest).dropWhile p = rest := by
  rw [List.takeWhile_append_of_pos hw, List.dropWhile_append_of_pos hw]
  cases rest with
  | nil => simp
  | cons c r =>
    have hc : p c = false := hstop c rfl
    simp [hc]

/-- A character that passes a test is none that fails it. -/
theorem ne_of_test {p : Char → Bool} {c e : Char} (h : p c = true) (he : p e = false) :
    c ≠ e := by
  intro heq
  rw [heq, he] at h
  cases h

end Text

namespace Ranges

/-- What a table has lies in one of its ranges. -/
theorem exists_of_has {t : Ranges} {n : Nat} (h : t.has n = true) :
    ∃ r ∈ t, r.1 ≤ n ∧ n ≤ r.2 := by
  induction t with
  | nil => simp [has] at h
  | cons r rest ih =>
    obtain ⟨lo, hi⟩ := r
    by_cases hlo : n < lo
    · simp [has, hlo] at h
    · simp only [has, hlo, if_false, Bool.or_eq_true, decide_eq_true_eq] at h
      rcases h with hhi | hrest
      · exact ⟨(lo, hi), List.mem_cons_self, by omega, hhi⟩
      · obtain ⟨r, hr, hn⟩ := ih hrest
        exact ⟨r, List.mem_cons_of_mem _ hr, hn⟩

/-- Two tables have no code point in common. -/
def Apart (t u : Ranges) : Prop := ∀ r ∈ t, ∀ s ∈ u, r.2 < s.1 ∨ s.2 < r.1

instance (t u : Ranges) : Decidable (Apart t u) := by unfold Apart; infer_instance

/-- What one table has, a table apart from it has not. -/
theorem Apart.has_eq_false {t u : Ranges} (h : Apart t u) {n : Nat} (hn : t.has n = true) :
    u.has n = false := by
  cases hu : u.has n with
  | false => rfl
  | true =>
    obtain ⟨r, hr, hrn⟩ := exists_of_has hn
    obtain ⟨s, hs, hsn⟩ := exists_of_has hu
    have := h r hr s hs
    omega

end Ranges

namespace Text

/-- A character is a letter when its lower-case form is one. -/
theorem isAlpha_of_isAlpha_toLower {c : Char} (h : c.toLower.isAlpha = true) :
    c.isAlpha = true := by
  unfold Char.toLower at h
  split at h
  · next hc =>
    have hupper : c.isUpper = true := decide_eq_true hc
    exact Bool.or_eq_true_iff.2 (Or.inl hupper)
  · exact h

/-- In lower case a character is a small letter that was a capital one, or it is
the same and no capital letter. -/
theorem toLower_cases (c : Char) :
    c.isUpper = true ∧ c.toLower.isLower = true ∨ c.toLower = c ∧ c.isUpper = false := by
  cases hupper : c.isUpper with
  | false =>
    have hcapital : ¬ ('A'.val ≤ c.val ∧ c.val ≤ 'Z'.val) := of_decide_eq_false hupper
    exact Or.inr ⟨dif_neg hcapital, rfl⟩
  | true =>
    have hall : ∀ n < 91, 65 ≤ n → (Char.ofNat n).toLower.isLower = true := by decide
    obtain ⟨hfrom, hto⟩ := of_decide_eq_true hupper
    have hlow := UInt32.le_iff_toNat_le.1 hfrom
    have hhigh := UInt32.le_iff_toNat_le.1 hto
    refine Or.inl ⟨rfl, ?_⟩
    rw [← Char.ofNat_toNat c]
    exact hall c.toNat (Nat.lt_succ_of_le hhigh) hlow

/-- There are no capital letters in lower case. -/
theorem isUpper_toLower (c : Char) : c.toLower.isUpper = false := by
  rcases toLower_cases c with ⟨-, hlower⟩ | ⟨hsame, hupper⟩
  · obtain ⟨hfrom, -⟩ := Bool.and_eq_true_iff.1 hlower
    have hlow := UInt32.le_iff_toNat_le.1 (of_decide_eq_true hfrom)
    refine decide_eq_false fun hcapital => ?_
    have hhigh := Nat.le_trans hlow (UInt32.le_iff_toNat_le.1 hcapital.2)
    exact absurd hhigh (by decide)
  · rw [hsame, hupper]

/-- In lower case a character stays as it is. -/
theorem toLower_toLower (c : Char) : c.toLower.toLower = c.toLower := by
  rcases toLower_cases c.toLower with ⟨hupper, -⟩ | ⟨hsame, -⟩
  · rw [isUpper_toLower] at hupper
    cases hupper
  · exact hsame

/-- No blank is alphabetic. -/
theorem blankRanges_apart_alphabeticRanges : blankRanges.Apart alphabeticRanges := by
  decide +kernel

/-- No blank is numeric. -/
theorem blankRanges_apart_numericRanges : blankRanges.Apart numericRanges := by
  decide +kernel

/-- Where the letters of ASCII stand. -/
theorem range_of_isAlpha {c : Char} (h : c.isAlpha = true) :
    65 ≤ c.toNat ∧ c.toNat ≤ 90 ∨ 97 ≤ c.toNat ∧ c.toNat ≤ 122 := by
  rcases Bool.or_eq_true_iff.1 h with hupper | hlower
  · obtain ⟨hfrom, hto⟩ := of_decide_eq_true hupper
    exact Or.inl ⟨UInt32.le_iff_toNat_le.1 hfrom, UInt32.le_iff_toNat_le.1 hto⟩
  · obtain ⟨hfrom, hto⟩ := Bool.and_eq_true_iff.1 hlower
    exact Or.inr ⟨UInt32.le_iff_toNat_le.1 (of_decide_eq_true hfrom),
      UInt32.le_iff_toNat_le.1 (of_decide_eq_true hto)⟩

/-- Where the digits of ASCII stand. -/
theorem range_of_isDigit {c : Char} (h : c.isDigit = true) : 48 ≤ c.toNat ∧ c.toNat ≤ 57 := by
  obtain ⟨hfrom, hto⟩ := Bool.and_eq_true_iff.1 h
  exact ⟨UInt32.le_iff_toNat_le.1 (of_decide_eq_true hfrom),
    UInt32.le_iff_toNat_le.1 (of_decide_eq_true hto)⟩

/-- The letters of ASCII are alphabetic. -/
theorem isAlphabetic_of_isAlpha {c : Char} (h : c.isAlpha = true) : isAlphabetic c = true := by
  have hall : ∀ n < 128, 65 ≤ n ∧ n ≤ 90 ∨ 97 ≤ n ∧ n ≤ 122 → alphabeticRanges.has n = true := by
    decide +kernel
  have hc := range_of_isAlpha h
  exact hall c.toNat (by omega) hc

/-- The digits of ASCII are numeric. -/
theorem isNumeric_of_isDigit {c : Char} (h : c.isDigit = true) : isNumeric c = true := by
  have hall : ∀ n < 128, 48 ≤ n ∧ n ≤ 57 → numericRanges.has n = true := by
    decide +kernel
  have hc := range_of_isDigit h
  exact hall c.toNat (by omega) hc

end Text

namespace Statement

/-- No blank is a word character. -/
theorem isWordChar_of_isBlank {c : Char} (h : isBlank c = true) : isWordChar c = false := by
  have ha : isAlphabetic c = false := blankRanges_apart_alphabeticRanges.has_eq_false h
  have hn : isNumeric c = false := blankRanges_apart_numericRanges.has_eq_false h
  have hunderscore : c ≠ '_' := ne_of_test h (by decide)
  have hdollar : c ≠ '$' := ne_of_test h (by decide)
  simp [isWordChar, ha, hn, hunderscore, hdollar]

theorem isWordChar_of_isAlphabetic {c : Char} (h : isAlphabetic c = true) :
    isWordChar c = true := by simp [isWordChar, h]

theorem isWordChar_of_isNumeric {c : Char} (h : isNumeric c = true) :
    isWordChar c = true := by simp [isWordChar, h]

/-- The marks around a quoted name: double quotes, or brackets. -/
theorem closing?_eq_some {c stop : Char} (h : closing? c = some stop) :
    c = '"' ∧ stop = '"' ∨ c = '[' ∧ stop = ']' := by
  unfold closing? at h
  split at h
  · exact Or.inl ⟨rfl, (Option.some.inj h).symm⟩
  · exact Or.inr ⟨rfl, (Option.some.inj h).symm⟩
  · cases h

/-- No character opens a quoted name that passes a test which the opening marks fail. -/
theorem closing?_of_test {p : Char → Bool} {c : Char} (h : p c = true)
    (hp : p '"' = false ∧ p '[' = false) : closing? c = none := by
  cases hstop : closing? c with
  | none => rfl
  | some stop =>
    rcases closing?_eq_some hstop with ⟨hc, -⟩ | ⟨hc, -⟩
    · exact absurd hc (ne_of_test h hp.1)
    · exact absurd hc (ne_of_test h hp.2)

/-- No word character opens a quoted name. -/
theorem closing?_of_isWordChar {c : Char} (h : isWordChar c = true) : closing? c = none :=
  closing?_of_test h (by decide)

/-- No blank opens a quoted name. -/
theorem closing?_of_isBlank {c : Char} (h : isBlank c = true) : closing? c = none :=
  closing?_of_test h (by decide)

end Statement

end DealSql
