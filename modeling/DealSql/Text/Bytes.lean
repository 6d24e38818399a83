/-!
# Positions in bytes

Positions in a text are counted in the bytes of its UTF-8 form.

* `byteLength_append` — lengths add up.
* `takeBytes_of_append`, `dropBytes_of_append` — a cut at the end of a
  front part gives the two parts back.
-/

namespace DealSql.Text

/-- The number of bytes of a text in UTF-8. -/
def byteLength : List Char → Nat
  | [] => 0
  | c :: r => c.utf8Size + byteLength r

/-- The characters that begin before the given byte position. -/
def takeBytes : Nat → List Char → List Char
  | _, [] => []
  | n, c :: r => if n = 0 then [] else c :: takeBytes (n - c.utf8Size) r

/-- The characters that begin at the given byte position or later. -/
def dropBytes : Nat → List Char → List Char
  | _, [] => []
  | n, c :: r => if n = 0 then c :: r else dropBytes (n - c.utf8Size) r

/-- The characters that begin in a range of byte positions. -/
def sliceBytes (start stop : Nat) (s : List Char) : List Char :=
  takeBytes (stop - start) (dropBytes start s)

/-- Lengths add up. -/
@[simp] theorem byteLength_append (a b : List Char) :
    byteLength (a ++ b) = byteLength a + byteLength b := by
  induction a with
  | nil => simp [byteLength]
  | cons c r ih => simp [byteLength, ih, Nat.add_assoc]

/-- A cut at the end of a front part gives the front part. -/
theorem takeBytes_of_append (a b : List Char) : takeBytes (byteLength a) (a ++ b) = a := by
  induction a with
  | nil => cases b <;> simp [byteLength, takeBytes]
  | cons c r ih =>
    have hc := c.utf8Size_pos
    have hne : c.utf8Size + byteLength r ≠ 0 := by omega
    simp only [byteLength, List.cons_append, takeBytes, if_neg hne, Nat.add_sub_cancel_left, ih]

/-- A cut at the end of a front part leaves the rest. -/
theorem dropBytes_of_append (a b : List Char) : dropBytes (byteLength a) (a ++ b) = b := by
  induction a with
  | nil => cases b <;> simp [byteLength, dropBytes]
  | cons c r ih =>
    have hc := c.utf8Size_pos
    have hne : c.utf8Size + byteLength r ≠ 0 := by omega
    simp only [byteLength, List.cons_append, dropBytes, if_neg hne, Nat.add_sub_cancel_left, ih]

end DealSql.Text
