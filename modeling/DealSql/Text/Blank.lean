import DealSql.Text.Ranges

/-!
# Blank characters

The code points with the Unicode property White_Space, and the removal of
blanks from the ends of a text.

* `trim_eq_nil_iff` — nothing is left exactly when all was blank.
-/

namespace DealSql.Text

/-- The ranges of the White_Space property. -/
def blankRanges : Ranges :=
  [(0x9, 0xD), (0x20, 0x20), (0x85, 0x85), (0xA0, 0xA0), (0x1680, 0x1680), (0x2000, 0x200A),
   (0x2028, 0x2029), (0x202F, 0x202F), (0x205F, 0x205F), (0x3000, 0x3000)]

/-- Whether a character is blank. -/
def isBlank (c : Char) : Bool := blankRanges.has c.toNat

/-- A text without its leading blanks. -/
def trimLeft (s : List Char) : List Char := s.dropWhile isBlank

/-- A text without its trailing blanks. -/
def trimRight (s : List Char) : List Char := (s.reverse.dropWhile isBlank).reverse

/-- A text without the blanks at its ends. -/
def trim (s : List Char) : List Char := trimRight (trimLeft s)

/-- Dropping the leading blanks leaves nothing exactly when all was blank. -/
theorem trimLeft_eq_nil_iff {s : List Char} : trimLeft s = [] ↔ ∀ c ∈ s, isBlank c = true := by
  induction s with
  | nil => simp [trimLeft]
  | cons c r ih =>
    unfold trimLeft at ih ⊢
    by_cases h : isBlank c = true
    · simp [h, ih]
    · simp [h]

/-- Dropping the trailing blanks leaves nothing exactly when all was blank. -/
theorem trimRight_eq_nil_iff {s : List Char} : trimRight s = [] ↔ ∀ c ∈ s, isBlank c = true := by
  rw [trimRight, List.reverse_eq_nil_iff]
  exact trimLeft_eq_nil_iff.trans (by simp)

/-- Trimming leaves nothing exactly when all was blank. -/
theorem trim_eq_nil_iff {s : List Char} : trim s = [] ↔ ∀ c ∈ s, isBlank c = true := by
  constructor
  · intro h
    rw [trim, trimRight_eq_nil_iff] at h
    by_cases hn : trimLeft s = []
    · exact trimLeft_eq_nil_iff.1 hn
    · exfalso
      obtain ⟨c, r, hc⟩ := List.exists_cons_of_ne_nil hn
      have hb : isBlank c = true := h c (by simp [hc])
      have := List.head?_dropWhile_not isBlank s
      rw [show s.dropWhile isBlank = c :: r from hc] at this
      simp [hb] at this
  · intro h
    rw [trim, trimLeft_eq_nil_iff.2 h]
    rfl

/-- A trimmed text with something in it; the blank text gives nothing. -/
def nonBlank? (s : List Char) : Option (List Char) :=
  match trim s with
  | [] => none
  | c :: r => some (c :: r)

end DealSql.Text
