import DealSql.Text.Integer

/-!
# Reporting cycles

A reporting cycle is a month of a year from 1 to 9999, written as the
integer `YYYYMM`.  Stepping back divides the number of months since the year
zero into years and months again.

The steps of the arithmetic are written once for every treatment of their
results: what each operation gives passes through `op`.  With `pure` the
integers have no bound.

* `index_ofIndex` — a number of months below the end gives a cycle that is
  so many months after the first.
* `ofIndex_index` — a cycle is found again from its number of months.
* `minusMonths_of_le`, `minusMonths_of_lt` — where stepping back ends.
-/

namespace DealSql

open DealSql.Text

/-- A month of a year. -/
structure Cycle where
  year : Nat
  month : Nat
  one_le_year : 1 ≤ year
  year_le : year ≤ 9999
  one_le_month : 1 ≤ month
  month_le : month ≤ 12
  deriving Repr, DecidableEq

namespace Cycle

/-- Why there is no such cycle. -/
inductive Error where
  /-- No cycle has this code. -/
  | invalid (code : Int)
  /-- The text is no integer of 64 bits. -/
  | unreadable (text : String)
  /-- There are not so many months before the anchor. -/
  | underflow (anchor : Int) (months : Nat)
  deriving Repr, DecidableEq

/-- The wording of an error. -/
def Error.message : Error → String
  | .invalid code => s!"Invalid cycle code {code}: expected YYYYMM"
  | .unreadable text => s!"Invalid cycle code '{text}': expected YYYYMM"
  | .underflow anchor months => s!"Cycle {anchor} minus {months} months is before year 1"

/-- The cycle as an integer. -/
def code (c : Cycle) : Int := c.year * 100 + c.month

/-- The code that a year and a month would have, within 64 bits. -/
def nearestCode (year : Int) (month : Nat) : Int :=
  clampInt64 (clampInt64 (year * 100) + month)

/-- The cycle of a year and a month. -/
def ofYearMonth (year : Int) (month : Nat) : Except Error Cycle :=
  if h : (1 ≤ year ∧ year ≤ 9999) ∧ 1 ≤ month ∧ month ≤ 12 then
    .ok ⟨year.toNat, month, by omega, by omega, h.2.1, h.2.2⟩
  else .error (.invalid (nearestCode year month))

/-- The cycle with a code. -/
def ofCode (code : Int) : Except Error Cycle :=
  if code < 0 then .error (.invalid code)
  else match ofYearMonth (code / 100) (code % 100).toNat with
    | .ok c => .ok c
    | .error _ => .error (.invalid code)

/-- The cycle whose code is given as text, blanks around it aside. -/
def parse (text : String) : Except Error Cycle :=
  match integerValue? (trim text.toList) with
  | some n => ofCode n
  | none => .error (.unreadable text)

/-- The written form of a cycle. -/
def text (c : Cycle) : List Char := integer c.code

/-- The number of months since the first cycle. -/
def index (c : Cycle) : Nat := 12 * (c.year - 1) + (c.month - 1)

/-- The cycle so many months after the first. -/
def ofIndex (n : Nat) (h : n < 12 * 9999) : Cycle :=
  ⟨n / 12 + 1, n % 12 + 1, by omega, by omega, by omega, by omega⟩

/-- All cycles lie within the years. -/
theorem index_lt (c : Cycle) : c.index < 12 * 9999 := by
  have := c.year_le
  have := c.month_le
  have := c.one_le_year
  have := c.one_le_month
  unfold index
  omega

/-- A number of months gives a cycle so many months after the first. -/
theorem index_ofIndex (n : Nat) (h : n < 12 * 9999) : (ofIndex n h).index = n := by
  simp only [index, ofIndex]
  omega

/-- A cycle is found again from its number of months. -/
theorem ofIndex_index (c : Cycle) : ofIndex c.index c.index_lt = c := by
  have := c.month_le
  have := c.one_le_year
  have := c.one_le_month
  cases c
  simp only [ofIndex, index, Cycle.mk.injEq] at *
  omega

/-! ## Stepping back -/

section Arithmetic

variable {m : Type → Type} [Monad m] (op : Int → m Int)

/-- The steps to the code of a year and a month. -/
def codeBy (year : Int) (month : Nat) : m Int := do
  op ((← op (year * 100)) + month)

/-- The steps to the year and the month that stand some months before a cycle.  Months
are counted from the year zero on, and that year itself is refused. -/
def stepBack (c : Cycle) (months : Nat) : m (Except Error (Int × Int)) := do
  let start ← op ((← op (c.year * 12)) + (← op ((c.month : Int) - 1)))
  let index ← op (start - months)
  let year ← op (index / 12)
  if year < 1 then
    return .error (.underflow (← codeBy op c.year c.month) months)
  return .ok (year, (← op (index % 12)) + 1)

end Arithmetic

/-- The months from the year zero to the place where stepping back ends. -/
def monthsFromZero (c : Cycle) (months : Nat) : Int := c.year * 12 + (c.month - 1) - months

/-- Stepping back without a bound on the integers. -/
theorem stepBack_pure (c : Cycle) (months : Nat) :
    Id.run (stepBack pure c months) =
      if c.monthsFromZero months / 12 < 1 then .error (.underflow c.code months)
      else .ok (c.monthsFromZero months / 12, c.monthsFromZero months % 12 + 1) := by
  unfold monthsFromZero stepBack
  simp only [pure_bind]
  split <;> rfl

/-- Stepping back keeps within the years and the months of cycles. -/
theorem stepBack_bounds {c : Cycle} {months : Nat} {year month : Int}
    (h : Id.run (stepBack pure c months) = .ok (year, month)) :
    (1 ≤ year ∧ year ≤ 9999) ∧ 1 ≤ month ∧ month ≤ 12 := by
  have := c.year_le
  have := c.month_le
  rw [stepBack_pure, monthsFromZero] at h
  split at h
  · cases h
  · cases h
    omega

/-- The cycle some months before another. -/
def minusMonths (c : Cycle) (months : Nat) : Except Error Cycle :=
  match h : Id.run (stepBack pure c months) with
  | .error e => .error e
  | .ok (year, month) =>
    have hbounds := stepBack_bounds h
    .ok ⟨year.toNat, month.toNat, by omega, by omega, by omega, by omega⟩

/-- The months from the year zero are a year more than those from the first cycle. -/
theorem monthsFromZero_eq (c : Cycle) (months : Nat) :
    c.monthsFromZero months = c.index + 12 - months := by
  have := c.one_le_year
  have := c.one_le_month
  unfold monthsFromZero index
  omega

/-- Up to the first cycle, stepping back takes so many months off. -/
theorem minusMonths_of_le {c : Cycle} {months : Nat} (h : months ≤ c.index) :
    c.minusMonths months =
      .ok (ofIndex (c.index - months) (Nat.lt_of_le_of_lt (Nat.sub_le _ _) c.index_lt)) := by
  have hstep : Id.run (stepBack pure c months) =
      .ok (((c.index - months) / 12 + 1 : Nat), ((c.index - months) % 12 + 1 : Nat)) := by
    rw [stepBack_pure, monthsFromZero_eq, if_neg (by omega)]
    congr 2 <;> omega
  unfold minusMonths
  split
  · next e he =>
    rw [hstep] at he
    cases he
  · next year month hok =>
    rw [hstep] at hok
    cases hok
    rfl

/-- There is no cycle before the first. -/
theorem minusMonths_of_lt {c : Cycle} {months : Nat} (h : c.index < months) :
    c.minusMonths months = .error (.underflow c.code months) := by
  have hstep : Id.run (stepBack pure c months) = .error (.underflow c.code months) := by
    rw [stepBack_pure, monthsFromZero_eq, if_pos (by omega)]
  unfold minusMonths
  split
  · next e he =>
    rw [hstep] at he
    cases he
    rfl
  · next year month hok =>
    rw [hstep] at hok
    cases hok

/-- Cycles are ordered by year, and within a year by month. -/
instance : Ord Cycle where
  compare a b := (compare a.year b.year).then (compare a.month b.month)

end Cycle

end DealSql
