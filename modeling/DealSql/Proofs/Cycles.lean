import DealSql.Cycle
import DealSql.Proofs.Characters
import DealSql.Proofs.Numerals

/-!
# Codes and months of cycles

Two numbers stand for a cycle: its code, and the months since the first cycle.
Both order the cycles as their years and months do, and either finds the cycle
again: the code when it is read, as an integer or as a text, and the months
when a cycle is stepped back.

Nothing of this leaves 64 bits.  The steps of the arithmetic are taken once
more, now with every result refused that is too large, and come to the same
end.

* `compare_code`, `compare_index` — the order of cycles in numbers.
* `codes_faithful` — which integers are codes, and what is read from them.
* `minusMonths_eq_ok_iff` — the months before a cycle.
* `minusMonths_exact` — stepping back is subtraction, up to the first cycle.
-/

namespace DealSql.Text

/-- The result of an operation on integers of 64 bits; nothing when it overflows. -/
def int64? (n : Int) : Option Int := if fitsInt64 n then some n else none

theorem fitsInt64_iff {n : Int} :
    fitsInt64 n = true ↔ -9223372036854775808 ≤ n ∧ n ≤ 9223372036854775807 := by
  rw [fitsInt64, minInt64, maxInt64, Bool.and_eq_true, decide_eq_true_eq, decide_eq_true_eq]

theorem int64?_eq_some {n : Int} (hmin : -9223372036854775808 ≤ n)
    (hmax : n ≤ 9223372036854775807) : int64? n = some n :=
  if_pos (fitsInt64_iff.2 ⟨hmin, hmax⟩)

/-- The nearest integer of 64 bits is one. -/
theorem int64?_clampInt64 (n : Int) : int64? (clampInt64 n) = some (clampInt64 n) := by
  apply int64?_eq_some
  · unfold clampInt64 minInt64 maxInt64
    omega
  · unfold clampInt64 minInt64 maxInt64
    omega

/-- A text without blanks is trimmed. -/
theorem trim_of_forall {s : List Char} (h : ∀ c ∈ s, isBlank c = false) : trim s = s := by
  have hends : ∀ t : List Char, (∀ c ∈ t, isBlank c = false) → t.dropWhile isBlank = t := by
    intro t ht
    cases t with
    | nil => rfl
    | cons c r => rw [List.dropWhile_cons_of_neg (by simp [ht c List.mem_cons_self])]
  have hback : ∀ c ∈ s.reverse, isBlank c = false := fun c hc => h c (List.mem_reverse.1 hc)
  rw [trim, trimLeft, trimRight, hends s h, hends s.reverse hback, List.reverse_reverse]

/-- A digit is not blank. -/
theorem isBlank_of_isDigit {c : Char} (h : c.isDigit = true) : isBlank c = false := by
  cases hblank : isBlank c with
  | false => rfl
  | true =>
    have hword := Statement.isWordChar_of_isNumeric (isNumeric_of_isDigit h)
    rw [Statement.isWordChar_of_isBlank hblank] at hword
    cases hword

end DealSql.Text

namespace DealSql.Cycle

open DealSql.Text

variable {a b c r : Cycle} {n year : Int} {k month : Nat}

/-! ## Order -/

/-- A number that grows with the years, and within a year with the months, orders the
cycles as they are. -/
theorem compare_eq_compare {f : Cycle → Int}
    (hf : ∀ a b : Cycle, a.year < b.year ∨ a.year = b.year ∧ a.month < b.month → f a < f b)
    (a b : Cycle) : compare a b = compare (f a) (f b) := by
  have hdef : compare a b = (compare a.year b.year).then (compare a.month b.month) := rfl
  rw [hdef]
  rcases Nat.lt_trichotomy a.year b.year with hyear | hyear | hyear
  · rw [Nat.compare_eq_lt.2 hyear, Int.compare_eq_lt.2 (hf a b (Or.inl hyear))]
    rfl
  · rw [Nat.compare_eq_eq.2 hyear, Ordering.eq_then]
    rcases Nat.lt_trichotomy a.month b.month with hmonth | hmonth | hmonth
    · rw [Nat.compare_eq_lt.2 hmonth, Int.compare_eq_lt.2 (hf a b (Or.inr ⟨hyear, hmonth⟩))]
    · have hsame : a = b := by
        cases a
        cases b
        cases hyear
        cases hmonth
        rfl
      rw [Nat.compare_eq_eq.2 hmonth, hsame, Int.compare_eq_eq.2 rfl]
    · rw [Nat.compare_eq_gt.2 hmonth,
        Int.compare_eq_gt.2 (hf b a (Or.inr ⟨hyear.symm, hmonth⟩))]
  · rw [Nat.compare_eq_gt.2 hyear, Int.compare_eq_gt.2 (hf b a (Or.inl hyear))]
    rfl

/-- **Codes order the cycles.** -/
theorem compare_code (a b : Cycle) : compare a b = compare a.code b.code := by
  apply compare_eq_compare
  intro a b h
  have := a.month_le
  have := b.one_le_month
  unfold code
  omega

/-- **Months order the cycles.** -/
theorem compare_index (a b : Cycle) : compare a b = compare (a.index : Int) b.index := by
  apply compare_eq_compare (f := fun c => c.index)
  intro a b h
  have := a.one_le_year
  have := b.one_le_year
  have := a.one_le_month
  have := b.one_le_month
  have := a.month_le
  unfold index
  omega

/-! ## Codes -/

/-- Whether an integer consists of a year and a month. -/
def IsCode (n : Int) : Prop :=
  0 ≤ n ∧ (1 ≤ n / 100 ∧ n / 100 ≤ 9999) ∧ 1 ≤ n % 100 ∧ n % 100 ≤ 12

instance (n : Int) : Decidable (IsCode n) :=
  inferInstanceAs (Decidable (0 ≤ n ∧ (1 ≤ n / 100 ∧ n / 100 ≤ 9999) ∧ 1 ≤ n % 100 ∧ n % 100 ≤ 12))

/-- A year and a month within the bounds make a cycle. -/
theorem ofYearMonth_of_bounds (h : (1 ≤ year ∧ year ≤ 9999) ∧ 1 ≤ month ∧ month ≤ 12) :
    ∃ c, ofYearMonth year month = .ok c ∧ (c.year : Int) = year ∧ c.month = month := by
  refine ⟨_, dif_pos h, ?_, rfl⟩
  exact Int.toNat_of_nonneg (by omega)

/-- The year and the month of a cycle make it. -/
theorem ofYearMonth_year_month (c : Cycle) : ofYearMonth c.year c.month = .ok c := by
  have := c.one_le_year
  have := c.year_le
  rw [ofYearMonth, dif_pos ⟨by omega, c.one_le_month, c.month_le⟩]
  simp

/-- An integer is read as the cycle whose code it is. -/
theorem ofCode_of_isCode (h : IsCode n) : ∃ c, ofCode n = .ok c ∧ c.code = n := by
  obtain ⟨hnonneg, hyear, hmonth⟩ := h
  have hbounds : (1 ≤ n / 100 ∧ n / 100 ≤ 9999) ∧
      1 ≤ (n % 100).toNat ∧ (n % 100).toNat ≤ 12 := by
    omega
  obtain ⟨c, hc, hcyear, hcmonth⟩ := ofYearMonth_of_bounds hbounds
  refine ⟨c, ?_, ?_⟩
  · rw [ofCode, if_neg (by omega), hc]
  · unfold code
    omega

/-- Any other integer is reported. -/
theorem ofCode_of_not_isCode (h : ¬ IsCode n) : ofCode n = .error (.invalid n) := by
  unfold ofCode
  split
  · rfl
  · next hnonneg =>
    have hbounds : ¬ ((1 ≤ n / 100 ∧ n / 100 ≤ 9999) ∧
        1 ≤ (n % 100).toNat ∧ (n % 100).toNat ≤ 12) := by
      intro hbounds
      apply h
      unfold IsCode
      omega
    rw [ofYearMonth, dif_neg hbounds]

/-- The code of a cycle consists of a year and a month. -/
theorem isCode_code (c : Cycle) : IsCode c.code := by
  have := c.one_le_year
  have := c.year_le
  have := c.one_le_month
  have := c.month_le
  unfold IsCode code
  omega

/-- Cycles with the same code are the same. -/
theorem code_injective (h : a.code = b.code) : a = b := by
  have := a.month_le
  have := b.month_le
  have := a.one_le_month
  have := b.one_le_month
  cases a
  cases b
  simp only [code, Cycle.mk.injEq] at *
  omega

/-- **A cycle is found again from its code.** -/
theorem ofCode_code (c : Cycle) : ofCode c.code = .ok c := by
  obtain ⟨d, hd, hcode⟩ := ofCode_of_isCode (isCode_code c)
  rw [hd, code_injective hcode]

/-- What is read from an integer is the cycle with that code. -/
theorem ofCode_eq_ok_iff : ofCode n = .ok c ↔ c.code = n := by
  constructor
  · intro h
    by_cases hn : IsCode n
    · obtain ⟨d, hd, hcode⟩ := ofCode_of_isCode hn
      rw [hd] at h
      cases h
      exact hcode
    · rw [ofCode_of_not_isCode hn] at h
      cases h
  · intro h
    rw [← h]
    exact ofCode_code c

/-- What is reported of an integer is the integer. -/
theorem eq_of_ofCode_eq_error {e : Error} (h : ofCode n = .error e) : e = .invalid n := by
  by_cases hn : IsCode n
  · obtain ⟨c, hc, -⟩ := ofCode_of_isCode hn
    rw [hc] at h
    cases h
  · rw [ofCode_of_not_isCode hn] at h
    cases h
    rfl

/-- The code of a cycle is small. -/
theorem fitsInt64_code (c : Cycle) : fitsInt64 c.code = true := by
  have := c.year_le
  have := c.month_le
  unfold code
  rw [fitsInt64_iff]
  omega

/-- **A cycle is found again from its written form.** -/
theorem parse_text (c : Cycle) : parse (String.ofList c.text) = .ok c := by
  have hdigits : ∀ d ∈ c.text, d.isDigit = true := by
    intro d hd
    rw [text, integer, if_neg (Int.not_lt.2 (isCode_code c).1)] at hd
    exact isDigit_of_mem_natural hd
  have htrim : trim c.text = c.text := trim_of_forall fun d hd => isBlank_of_isDigit (hdigits d hd)
  have hvalue : integerValue? c.text = some c.code := integerValue?_integer (fitsInt64_code c)
  rw [parse, String.toList_ofList, htrim, hvalue]
  exact ofCode_code c

/-- The steps to a code stay within 64 bits. -/
theorem codeBy_int64? (c : Cycle) : codeBy int64? c.year c.month = some c.code := by
  have := c.year_le
  have := c.month_le
  have hhundreds : int64? ((c.year : Int) * 100) = some ((c.year : Int) * 100) :=
    int64?_eq_some (by omega) (by omega)
  have hcode : int64? ((c.year : Int) * 100 + c.month) = some ((c.year : Int) * 100 + c.month) :=
    int64?_eq_some (by omega) (by omega)
  rw [codeBy, hhundreds]
  exact hcode

/-- Cut off at the ends, the steps stay within 64 bits for any year and month. -/
theorem codeBy_clamped (year : Int) (month : Nat) :
    codeBy (fun n => int64? (clampInt64 n)) year month = some (nearestCode year month) := by
  rw [codeBy, int64?_clampInt64]
  exact int64?_clampInt64 _

/-- **Codes stand for cycles.**  An integer is read as a cycle exactly when it consists of
a year and a month, the cycle then has that code, and any other integer is reported as it is.
A cycle is found again from its code and from its written form, and codes are ordered as the
cycles are.  Of any year and month a cycle is made when they are within the bounds, and else
the code within 64 bits that is nearest; no step leaves the 64 bits. -/
theorem codes_faithful :
    (∀ n, (∃ c, ofCode n = .ok c) ↔ IsCode n) ∧
    (∀ n c, ofCode n = .ok c → c.code = n) ∧
    (∀ n e, ofCode n = .error e → e = .invalid n) ∧
    (∀ c, ofCode c.code = .ok c ∧ parse (String.ofList c.text) = .ok c) ∧
    (∀ a b : Cycle, compare a b = compare a.code b.code) ∧
    (∀ c : Cycle, codeBy int64? c.year c.month = some c.code) ∧
    (∀ (year : Int) (month : Nat),
      codeBy (fun n => int64? (clampInt64 n)) year month = some (nearestCode year month) ∧
      ((1 ≤ year ∧ year ≤ 9999) ∧ 1 ≤ month ∧ month ≤ 12 →
        ∃ c, ofYearMonth year month = .ok c ∧ (c.year : Int) = year ∧ c.month = month) ∧
      (¬ ((1 ≤ year ∧ year ≤ 9999) ∧ 1 ≤ month ∧ month ≤ 12) →
        ofYearMonth year month = .error (.invalid (nearestCode year month)))) := by
  have hread : ∀ n, (∃ c, ofCode n = .ok c) ↔ IsCode n := by
    intro n
    constructor
    · intro ⟨c, hc⟩
      rw [← ofCode_eq_ok_iff.1 hc]
      exact isCode_code c
    · intro hn
      obtain ⟨c, hc, -⟩ := ofCode_of_isCode hn
      exact ⟨c, hc⟩
  have hfound : ∀ c : Cycle, ofCode c.code = .ok c ∧ parse (String.ofList c.text) = .ok c :=
    fun c => ⟨ofCode_code c, parse_text c⟩
  refine ⟨hread, fun n c => ofCode_eq_ok_iff.1, fun n e => eq_of_ofCode_eq_error, hfound,
    compare_code, codeBy_int64?, fun year month => ?_⟩
  exact ⟨codeBy_clamped year month, ofYearMonth_of_bounds, fun h => dif_neg h⟩

/-- August of the year 2022. -/
def august2022 : Cycle := ⟨2022, 8, by decide, by decide, by decide, by decide⟩

/-- A code that is read, a month that no year has, and a year beyond all bounds. -/
theorem august2022_read :
    (ofCode 202208 = .ok august2022 ∧ august2022.code = 202208) ∧
    ofCode 202213 = .error (.invalid 202213) ∧
    (∃ c, ofYearMonth 2022 8 = .ok c ∧ (c.year : Int) = 2022 ∧ c.month = 8) ∧
    ofYearMonth 9223372036854775807 1 = .error (.invalid 9223372036854775807) := by
  obtain ⟨-, hcode, hreported, -, -, -, hnew⟩ := codes_faithful
  have hread : ofCode 202208 = .ok august2022 := rfl
  have hthirteen : ∃ e, ofCode 202213 = .error e := ⟨_, rfl⟩
  obtain ⟨e, he⟩ := hthirteen
  refine ⟨⟨hread, hcode 202208 august2022 hread⟩, hreported 202213 e he ▸ he, ?_, ?_⟩
  · exact (hnew 2022 8).2.1 (by decide)
  · exact (hnew 9223372036854775807 1).2.2 (by decide)

/-! ## Months -/

/-- Cycles with as many months before them are the same. -/
theorem index_injective (h : a.index = b.index) : a = b := by
  rw [← ofIndex_index a, ← ofIndex_index b]
  simp only [h]

/-- **The months before a cycle**: what stepping back finds has so many less. -/
theorem minusMonths_eq_ok_iff : c.minusMonths k = .ok r ↔ r.index + k = c.index := by
  by_cases hk : k ≤ c.index
  · rw [minusMonths_of_le hk]
    constructor
    · intro h
      cases h
      rw [index_ofIndex]
      omega
    · intro h
      have hindex : (ofIndex (c.index - k) (by have := c.index_lt; omega)).index = r.index := by
        rw [index_ofIndex]
        omega
      rw [index_injective hindex]
  · rw [minusMonths_of_lt (by omega)]
    constructor
    · intro h
      cases h
    · intro h
      omega

/-- Stepping back goes as far as there are months. -/
theorem exists_minusMonths_iff : (∃ r, c.minusMonths k = .ok r) ↔ k ≤ c.index := by
  constructor
  · intro ⟨r, hr⟩
    have := minusMonths_eq_ok_iff.1 hr
    omega
  · intro hk
    exact ⟨_, minusMonths_of_le hk⟩

/-- Where stepping back fails there are not so many months. -/
theorem index_lt_of_minusMonths_eq_error {e : Error} (h : c.minusMonths k = .error e) :
    c.index < k := by
  by_cases hk : k ≤ c.index
  · rw [minusMonths_of_le hk] at h
    cases h
  · omega

/-- What is reported where there are no more months. -/
theorem eq_of_minusMonths_eq_error {e : Error} (h : c.minusMonths k = .error e) :
    e = .underflow c.code k := by
  rw [minusMonths_of_lt (index_lt_of_minusMonths_eq_error h)] at h
  cases h
  rfl

/-- Stepping back twice is stepping back once. -/
theorem minusMonths_bind (c : Cycle) (a b : Nat) :
    ((c.minusMonths a).bind (·.minusMonths b)).toOption = (c.minusMonths (a + b)).toOption := by
  cases ha : c.minusMonths a with
  | error e =>
    have hshort := index_lt_of_minusMonths_eq_error ha
    rw [minusMonths_of_lt (by omega : c.index < a + b)]
    rfl
  | ok s =>
    have hs : s.index + a = c.index := minusMonths_eq_ok_iff.1 ha
    change (s.minusMonths b).toOption = _
    cases hb : s.minusMonths b with
    | error e =>
      have hshort := index_lt_of_minusMonths_eq_error hb
      rw [minusMonths_of_lt (by omega : c.index < a + b)]
      rfl
    | ok r =>
      have hr : r.index + b = s.index := minusMonths_eq_ok_iff.1 hb
      rw [minusMonths_eq_ok_iff.2 (by omega : r.index + (a + b) = c.index)]

/-- Stepping back as far keeps the order. -/
theorem compare_of_minusMonths {c' r' : Cycle} (h : c.minusMonths k = .ok r)
    (h' : c'.minusMonths k = .ok r') : compare r r' = compare c c' := by
  have hr := minusMonths_eq_ok_iff.1 h
  have hr' := minusMonths_eq_ok_iff.1 h'
  rw [compare_index, compare_index]
  rcases Nat.lt_trichotomy c.index c'.index with hlt | heq | hgt
  · rw [Int.compare_eq_lt.2 (by omega), Int.compare_eq_lt.2 (by omega)]
  · rw [Int.compare_eq_eq.2 (by omega), Int.compare_eq_eq.2 (by omega)]
  · rw [Int.compare_eq_gt.2 (by omega), Int.compare_eq_gt.2 (by omega)]

/-- Stepping back further ends earlier. -/
theorem compare_minusMonths_of_lt {k' : Nat} {r' : Cycle} (hlt : k < k')
    (h : c.minusMonths k = .ok r) (h' : c.minusMonths k' = .ok r') : compare r' r = .lt := by
  have hr := minusMonths_eq_ok_iff.1 h
  have hr' := minusMonths_eq_ok_iff.1 h'
  rw [compare_index, Int.compare_eq_lt]
  omega

/-- The steps back stay within 64 bits for any number of months of 32 bits. -/
theorem stepBack_int64? (c : Cycle) (hk : k < UInt32.size) :
    stepBack int64? c k = some (Id.run (stepBack pure c k)) := by
  have := c.one_le_year
  have := c.year_le
  have := c.one_le_month
  have := c.month_le
  have hwidth : k < 4294967296 := hk
  have hfits : ∀ n : Int, -4294967296 ≤ n → n ≤ 4294967296 → int64? n = some n :=
    fun n hmin hmax => int64?_eq_some (by omega) (by omega)
  simp (disch := omega) only [stepBack, codeBy, hfits, pure_bind, Option.bind_eq_bind,
    Option.bind_some]
  split <;> rfl

/-- **Stepping back is exact.**  It succeeds exactly when there are so many months since the
first cycle, gives the cycle with so many less, and reports the anchor and the months
otherwise.  Stepping back twice is stepping back once, as far as that succeeds; of two anchors
the later one stays later, and of two ways back the longer one ends earlier.  For months of
32 bits no step leaves the 64 bits. -/
theorem minusMonths_exact (c : Cycle) (k : Nat) :
    ((∃ r, c.minusMonths k = .ok r) ↔ k ≤ c.index) ∧
    (∀ r, c.minusMonths k = .ok r →
      ofYearMonth r.year r.month = .ok r ∧ r.index = c.index - k) ∧
    (∀ e, c.minusMonths k = .error e → e = .underflow c.code k) ∧
    (∀ l, ((c.minusMonths k).bind (·.minusMonths l)).toOption =
      (c.minusMonths (k + l)).toOption) ∧
    (∀ c' r r', c.minusMonths k = .ok r → c'.minusMonths k = .ok r' →
      compare r r' = compare c c') ∧
    (∀ l r r', k < l → c.minusMonths k = .ok r → c.minusMonths l = .ok r' →
      compare r' r = .lt) ∧
    (k < UInt32.size → stepBack int64? c k = some (Id.run (stepBack pure c k))) := by
  refine ⟨exists_minusMonths_iff, fun r hr => ⟨ofYearMonth_year_month r, ?_⟩,
    fun e => eq_of_minusMonths_eq_error, minusMonths_bind c k,
    fun c' r r' => compare_of_minusMonths,
    fun l r r' => compare_minusMonths_of_lt, stepBack_int64? c⟩
  have := minusMonths_eq_ok_iff.1 hr
  omega

/-- February of the year 2021. -/
def february2021 : Cycle := ⟨2021, 2, by decide, by decide, by decide, by decide⟩

/-- August of the year 2019. -/
def august2019 : Cycle := ⟨2019, 8, by decide, by decide, by decide, by decide⟩

/-- Eighteen months back from one cycle and from the other. -/
theorem august2022_back :
    (august2022.minusMonths 18 = .ok february2021 ∧
      ofYearMonth 2021 2 = .ok february2021 ∧ february2021.index = august2022.index - 18) ∧
    compare february2021 august2019 = compare august2022 february2021 ∧
    compare august2019 february2021 = .lt ∧
    (∃ e, august2022.minusMonths 30000 = .error e ∧ e = .underflow 202208 30000) ∧
    stepBack int64? august2022 18 = some (Id.run (stepBack pure august2022 18)) := by
  have hback : august2022.minusMonths 18 = .ok february2021 := rfl
  have hfurther : february2021.minusMonths 18 = .ok august2019 := rfl
  have hyears : august2022.minusMonths 36 = .ok august2019 := rfl
  have hfar : ∃ e, august2022.minusMonths 30000 = .error e := ⟨_, rfl⟩
  obtain ⟨e, he⟩ := hfar
  obtain ⟨-, hfound, -, -, hkept, hearlier, hwidth⟩ := minusMonths_exact august2022 18
  obtain ⟨-, -, hreported, -⟩ := minusMonths_exact august2022 30000
  exact ⟨⟨hback, hfound _ hback⟩, hkept _ _ _ hback hfurther,
    hearlier 36 _ _ (by decide) hback hyears, ⟨e, he, hreported e he⟩, hwidth (by decide)⟩

end DealSql.Cycle
