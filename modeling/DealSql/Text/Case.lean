/-!
# ASCII letter case

Keywords are compared without regard to the case of the ASCII letters; all
other characters must agree exactly.

* `sameWord_iff` — two words are the same exactly when their folded forms are equal.
-/

namespace DealSql.Text

/-- A text with its ASCII letters in lower case. -/
def foldCase (s : List Char) : List Char := s.map Char.toLower

/-- Whether two words agree up to the case of ASCII letters. -/
def sameWord (a b : List Char) : Bool := foldCase a == foldCase b

/-- Two words are the same exactly when their folded forms are equal. -/
theorem sameWord_iff {a b : List Char} : sameWord a b = true ↔ foldCase a = foldCase b := by
  simp [sameWord]

/-- Every word is the same as itself. -/
theorem sameWord_refl (a : List Char) : sameWord a a = true := by simp [sameWord]

/-- Whether a word is one of the given words, up to ASCII case. -/
def isOneOf (w : List Char) (words : List String) : Bool :=
  words.any fun k => sameWord w k.toList

end DealSql.Text
