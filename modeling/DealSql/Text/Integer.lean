import DealSql.Text.Blank

/-!
# Decimal integers

Integers are kept within 64 bits.  They are written with the fewest digits
and a minus sign where needed; read, a sign of either kind and leading
zeros are allowed, and a number beyond 64 bits is refused.
-/

namespace DealSql.Text

/-- The least integer of 64 bits. -/
def minInt64 : Int := -9223372036854775808

/-- The greatest integer of 64 bits. -/
def maxInt64 : Int := 9223372036854775807

/-- Whether an integer fits into 64 bits. -/
def fitsInt64 (n : Int) : Bool := minInt64 ≤ n && n ≤ maxInt64

/-- The nearest integer of 64 bits. -/
def clampInt64 (n : Int) : Int := max minInt64 (min maxInt64 n)

/-- The decimal digits of a natural number. -/
def natural (n : Nat) : List Char := Nat.toDigits 10 n

/-- The decimal form of an integer. -/
def integer (n : Int) : List Char :=
  if n < 0 then '-' :: natural n.natAbs else natural n.natAbs

/-- The value of a nonempty run of decimal digits. -/
def naturalValue? (s : List Char) : Option Nat :=
  if s.isEmpty || !s.all Char.isDigit then none
  else some (s.foldl (fun n c => n * 10 + (c.toNat - '0'.toNat)) 0)

/-- The value of a decimal integer of 64 bits. -/
def integerValue? (s : List Char) : Option Int :=
  let value : Option Int := match s with
    | '+' :: r => (naturalValue? r).map Int.ofNat
    | '-' :: r => (naturalValue? r).map fun n => -Int.ofNat n
    | r => (naturalValue? r).map Int.ofNat
  value.filter fitsInt64

end DealSql.Text
