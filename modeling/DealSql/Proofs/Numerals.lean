import DealSql.Text.Integer

/-!
# Decimal numerals

Writing a natural number and reading it back are inverse to each other, as
long as no numeral begins with a zero that it could do without.  With a sign
in front this goes for the integers of 64 bits.

* `naturalValue?_natural` — a written number is read back.
* `natural_of_naturalValue?` — a numeral without a leading zero is the
  written form of its value.
* `integerValue?_integer` — a written integer is read back.
-/

namespace DealSql.Text

variable {s : List Char} {n : Nat}

/-- The decimal form of a natural number is made of digits. -/
theorem isDigit_of_mem_natural {c : Char} (h : c ∈ natural n) : c.isDigit = true :=
  Nat.isDigit_of_mem_toDigits (by decide) (by decide) h

/-- A numeral has digits only, and they make up its value. -/
theorem naturalValue?_eq_some : naturalValue? s = some n ↔
    s ≠ [] ∧ (∀ c ∈ s, c.isDigit = true) ∧ Nat.ofDigitChars 10 s 0 = n := by
  have hfold : s.foldl (fun n c => n * 10 + (c.toNat - '0'.toNat)) 0 =
      Nat.ofDigitChars 10 s 0 := by
    simp only [Nat.ofDigitChars_eq_foldl, Nat.mul_comm]
  unfold naturalValue?
  rw [hfold]
  by_cases hs : s = []
  · simp [hs]
  · by_cases hdigits : s.all Char.isDigit = true
    · simpa [hs, hdigits] using fun _ => List.all_eq_true.1 hdigits
    · simpa [hs, hdigits] using fun hall => absurd (List.all_eq_true.2 hall) hdigits

/-- **A written number is read back.** -/
theorem naturalValue?_natural (n : Nat) : naturalValue? (natural n) = some n := by
  exact naturalValue?_eq_some.2
    ⟨Nat.toDigits_ne_nil, fun _ hc => isDigit_of_mem_natural hc, Nat.ofDigitChars_ten_toDigits⟩

/-- A digit is the digit of its value. -/
theorem digitChar_of_isDigit {c : Char} (h : c.isDigit = true) :
    c.toNat - '0'.toNat < 10 ∧ (c.toNat - '0'.toNat).digitChar = c := by
  have hbounds : 48 ≤ c.toNat ∧ c.toNat ≤ 57 := by
    simpa [Char.isDigit, UInt32.le_iff_toNat_le] using h
  have hzero : '0'.toNat = 48 := rfl
  refine ⟨by omega, Char.toNat_inj.1 ?_⟩
  rw [Nat.toNat_digitChar_of_lt_ten (by omega)]
  omega

/-- Digits behind a number that is not zero go on with its numeral. -/
theorem natural_append (hdigits : ∀ c ∈ s, c.isDigit = true) (hn : 0 < n) :
    natural n ++ s = natural (Nat.ofDigitChars 10 s n) := by
  induction s generalizing n with
  | nil => simp
  | cons c r ih =>
    obtain ⟨hlt, hc⟩ := digitChar_of_isDigit (hdigits c List.mem_cons_self)
    have hstep : natural n ++ [c] = natural (10 * n + (c.toNat - '0'.toNat)) := by
      rw [natural, natural, ← Nat.toDigits_append_toDigits (by decide) hn hlt,
        Nat.toDigits_of_lt_base hlt, hc]
    rw [Nat.ofDigitChars_cons, ← ih (fun d hd => hdigits d (List.mem_cons_of_mem _ hd)) (by omega),
      ← hstep, List.append_assoc, List.singleton_append]

/-- No number but zero is written with a zero first. -/
theorem head?_natural_ne_zero (hn : 0 < n) : (natural n).head? ≠ some '0' := by
  have hdigit : ∀ k < 10, 0 < k → some (Nat.digitChar k) ≠ some '0' := by decide
  induction n using Nat.strongRecOn with
  | ind n ih =>
    by_cases hlt : n < 10
    · rw [natural, Nat.toDigits_of_lt_base hlt]
      exact hdigit n hlt hn
    · have hle : 10 ≤ n := Nat.not_lt.1 hlt
      have hfront := ih (n / 10) (by omega) (by omega)
      have hne : Nat.toDigits 10 (n / 10) ≠ [] := Nat.toDigits_ne_nil
      obtain ⟨c, r, hcons⟩ := List.exists_cons_of_ne_nil hne
      rw [natural, hcons] at hfront
      rw [natural, Nat.toDigits_of_base_le (by decide) hle, hcons]
      exact hfront

/-- **A numeral without a leading zero** is the written form of its value. -/
theorem natural_of_naturalValue? (h : naturalValue? s = some n) (hzero : s.head? ≠ some '0') :
    natural n = s := by
  obtain ⟨hne, hdigits, rfl⟩ := naturalValue?_eq_some.1 h
  cases s with
  | nil => exact absurd rfl hne
  | cons c r =>
    obtain ⟨hlt, hc⟩ := digitChar_of_isDigit (hdigits c List.mem_cons_self)
    have hpos : 0 < c.toNat - '0'.toNat := by
      refine Nat.pos_of_ne_zero fun hvalue => hzero ?_
      rw [← hc, hvalue]
      rfl
    rw [Nat.ofDigitChars_cons, Nat.mul_zero, Nat.zero_add,
      ← natural_append (fun d hd => hdigits d (List.mem_cons_of_mem _ hd)) hpos, natural,
      Nat.toDigits_of_lt_base hlt, hc, List.singleton_append]

/-- **A written integer is read back.** -/
theorem integerValue?_integer {n : Int} (h : fitsInt64 n = true) :
    integerValue? (integer n) = some n := by
  have hread : ∀ s : List Char, (∀ r, s ≠ '+' :: r) → (∀ r, s ≠ '-' :: r) →
      integerValue? s = ((naturalValue? s).map Int.ofNat).filter fitsInt64 := by
    intro s hplus hminus
    unfold integerValue?
    split
    · next r => exact absurd rfl (hplus r)
    · next r => exact absurd rfl (hminus r)
    · rfl
  have hsign : ∀ (k : Nat) (c : Char) (r : List Char), c.isDigit = false →
      natural k ≠ c :: r := by
    intro k c r hc hk
    have hdigit := isDigit_of_mem_natural (hk ▸ List.mem_cons_self : c ∈ natural k)
    rw [hc] at hdigit
    cases hdigit
  unfold integer
  split
  · next hneg =>
    have hvalue : -Int.ofNat n.natAbs = n := by
      rw [Int.ofNat_eq_natCast]
      omega
    simp only [integerValue?, naturalValue?_natural, Option.map_some, hvalue]
    rw [Option.filter_some, if_pos h]
  · next hnonneg =>
    have hvalue : Int.ofNat n.natAbs = n := by
      rw [Int.ofNat_eq_natCast]
      omega
    rw [hread _ (hsign _ _ · (by decide)) (hsign _ _ · (by decide)), naturalValue?_natural,
      Option.map_some, hvalue, Option.filter_some, if_pos h]

end DealSql.Text
