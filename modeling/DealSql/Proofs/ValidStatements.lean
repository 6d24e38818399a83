import DealSql.Placeholder.Substitution
import DealSql.Proofs.Validity

/-!
# Valid statements can be filled

A review lets no fault of a placeholder pass, so the scan of a valid
statement is clean and the review reports all that it found.  Filling the
statement can then fail for two reasons only: a placeholder needs a selected
deal, or goes back more months than there are before the anchor.

* `value_eq_error_iff`, `exists_value_iff` — which placeholders have values.
* `exists_substitute_iff` — which statements can be filled.
* `substitute_of_isValid` — when a valid statement can be filled.
-/

namespace DealSql

open DealSql.Review

/-- From the code `201` on there are twelve months before a cycle. -/
theorem Cycle.twelve_le_index {c : Cycle} (h : 201 ≤ c.code) : 12 ≤ c.index := by
  have := c.month_le
  have := c.one_le_month
  simp only [Cycle.code] at h
  simp only [Cycle.index]
  omega

namespace Placeholder

variable {d : Dialect} {x : Execution} {sql : List Char} {p : Placeholder}

/-! ## Values -/

/-- The placeholders whose values are made of the selected deals. -/
def dealPlaceholders : List Placeholder := [.dealFilter, .dealTrancheFilter, .dealNumbers]

/-- The most months that some placeholders go back. -/
def largestOffset (ps : List Placeholder) : Nat := (ps.filterMap cycleOffset?).foldr max 0

/-- How far placeholders go back is how far each of them does. -/
theorem largestOffset_le_iff {ps : List Placeholder} {n : Nat} :
    largestOffset ps ≤ n ↔ ∀ p ∈ ps, ∀ k, p.cycleOffset? = some k → k ≤ n := by
  have hmax : ∀ ks : List Nat, ks.foldr max 0 ≤ n ↔ ∀ k ∈ ks, k ≤ n := by
    intro ks
    induction ks with
    | nil => simp
    | cons k ks ih => rw [List.foldr_cons, Nat.max_le, ih, List.forall_mem_cons]
  rw [largestOffset, hmax]
  constructor
  · intro h p hp k hk
    exact h k (List.mem_filterMap.2 ⟨p, hp, hk⟩)
  · intro h k hk
    obtain ⟨p, hp, hpk⟩ := List.mem_filterMap.1 hk
    exact h p hp k hpk

/-- No placeholder goes back more than a year. -/
theorem cycleOffset?_le {k : Nat} (h : p.cycleOffset? = some k) : k ≤ 12 := by
  cases p with
  | earlierCycle j =>
    obtain rfl : j.val + 2 = k := Option.some.inj h
    omega
  | currentCycle => cases h; decide
  | previousCycle => cases h; decide
  | _ => cases h

/-- There is no cycle before the first. -/
theorem cycleText_eq_error_iff {months : Nat} {e : SubstitutionError} :
    cycleText x months = .error e ↔
      x.anchor.index < months ∧ e = .cycle (.underflow x.anchor.code months) := by
  unfold cycleText
  by_cases hmonths : months ≤ x.anchor.index
  · simp [Cycle.minusMonths_of_le hmonths, Nat.not_lt.2 hmonths]
  · have hlt : x.anchor.index < months := Nat.lt_of_not_le hmonths
    simp [Cycle.minusMonths_of_lt hlt, hlt, eq_comm]

theorem ifSelected_eq_error_iff {text : List Char} {e : SubstitutionError} :
    ifSelected x p text = .error e ↔ x.deals = [] ∧ e = .emptySelection p := by
  unfold ifSelected
  cases x.deals <;> simp [eq_comm]

/-- **Why a placeholder has no value**: it is made of the selected deals, and there are
none, or it is a cycle before the first. -/
theorem value_eq_error_iff {e : SubstitutionError} : value d x p = .error e ↔
    (p ∈ dealPlaceholders ∧ x.deals = [] ∧ e = .emptySelection p) ∨
      ∃ k, p.cycleOffset? = some k ∧ x.anchor.index < k ∧
        e = .cycle (.underflow x.anchor.code k) := by
  cases p <;> simp only [value]
  case currentCycle => simp [cycleText_eq_error_iff, dealPlaceholders, cycleOffset?]
  case previousCycle => simp [cycleText_eq_error_iff, dealPlaceholders, cycleOffset?]
  case earlierCycle k => simp [cycleText_eq_error_iff, dealPlaceholders, cycleOffset?]
  case dealFilter => simp [ifSelected_eq_error_iff, dealPlaceholders, cycleOffset?]
  case dealTrancheFilter => simp [ifSelected_eq_error_iff, dealPlaceholders, cycleOffset?]
  case dealNumbers => simp [ifSelected_eq_error_iff, dealPlaceholders, cycleOffset?]

/-- **Which placeholders have values**: those of the deals when one is
selected, and those of cycles that are not before the first. -/
theorem exists_value_iff : (∃ v, value d x p = .ok v) ↔
    (p ∈ dealPlaceholders → x.deals ≠ []) ∧
      ∀ k, p.cycleOffset? = some k → k ≤ x.anchor.index := by
  cases hv : value d x p with
  | error e =>
    have hnone : ¬ ∃ v, (.error e : Except SubstitutionError (List Char)) = .ok v := by simp
    rw [iff_false_left hnone]
    rintro ⟨hdeals, hoffset⟩
    rcases value_eq_error_iff.1 hv with ⟨hmem, hempty, -⟩ | ⟨k, hk, hlt, -⟩
    · exact hdeals hmem hempty
    · exact Nat.not_le.2 hlt (hoffset k hk)
  | ok v =>
    have hne : ∀ e, value d x p ≠ .error e := by simp [hv]
    refine iff_of_true ⟨v, rfl⟩ ⟨fun hmem hempty => ?_, fun k hk => ?_⟩
    · exact hne _ (value_eq_error_iff.2 (Or.inl ⟨hmem, hempty, rfl⟩))
    · exact Nat.not_lt.1 fun hlt => hne _ (value_eq_error_iff.2 (Or.inr ⟨k, hk, hlt, rfl⟩))

/-- A placeholder without a value is no fault of the statement. -/
theorem value_ne_grammar {faults : List Fault} : value d x p ≠ .error (.grammar faults) := by
  intro h
  rcases value_eq_error_iff.1 h with ⟨-, -, hgrammar⟩ | ⟨k, -, -, hgrammar⟩
  · cases hgrammar
  · cases hgrammar

/-! ## Substitution -/

/-- Without faults the first placeholder without a value decides. -/
theorem substitute_of_isClean (h : (scan sql).isClean = true) :
    substitute d x sql = match firstError? d x (scan sql).placeholders with
      | some e => .error e
      | none => .ok (fill (fun p => (value d x p).toOption.getD []) sql) := by
  unfold substitute
  simp only [h]
  rfl

theorem firstError?_eq_none_iff {ps : List Placeholder} :
    firstError? d x ps = none ↔ ∀ p ∈ ps, ∃ v, value d x p = .ok v := by
  refine List.findSome?_eq_none_iff.trans (forall₂_congr fun p _ => ?_)
  cases value d x p <;> simp

/-- **Which statements can be filled**: without faults, those whose
placeholders all have values. -/
theorem exists_substitute_iff (h : (scan sql).isClean = true) :
    (∃ out, substitute d x sql = .ok out) ↔
      ∀ p ∈ (scan sql).placeholders, ∃ v, value d x p = .ok v := by
  rw [substitute_of_isClean h, ← firstError?_eq_none_iff]
  cases firstError? d x (scan sql).placeholders <;> simp

/-- Without faults none are reported. -/
theorem substitute_ne_grammar (h : (scan sql).isClean = true) (faults : List Fault) :
    substitute d x sql ≠ .error (.grammar faults) := by
  rw [substitute_of_isClean h]
  cases hfirst : firstError? d x (scan sql).placeholders with
  | none => simp
  | some e =>
    obtain ⟨p, -, hp⟩ := List.exists_of_findSome?_eq_some hfirst
    cases hv : value d x p with
    | ok v => simp [hv] at hp
    | error e' =>
      obtain rfl : e' = e := by simpa [hv] using hp
      rintro hgrammar
      exact value_ne_grammar (hv.trans (congrArg Except.error (Except.error.inj hgrammar)))

/-! ## Valid statements -/

variable {parser : Parser} {o : Options} {level : Level} {column : String}

/-- **What a review says of a valid statement**: nothing is wrong with its
placeholders, and all of them are reported. -/
theorem scan_of_isValid (h : (reviewWith parser o sql level column).isValid = true) :
    (scan sql).isClean = true ∧
      (reviewWith parser o sql level column).placeholders = (scan sql).placeholders := by
  obtain ⟨hsound, hpermits⟩ := isValid_reviewWith_iff.1 h
  have hcount : ¬ (scan sql).groups > o.maxPlaceholders := Nat.not_lt.2 hpermits.placeholders
  refine ⟨hsound.clean, ?_⟩
  rw [reviewWith_of_examined parser level column ⟨hpermits.length, hsound.visible⟩]
  exact if_neg hcount

/-- The placeholders of a valid statement are right. -/
theorem isClean_of_isValid (h : (reviewWith parser o sql level column).isValid = true) :
    (scan sql).isClean = true := (scan_of_isValid h).1

/-- **When a valid statement can be filled**, whatever the dialects make of
it: never are its placeholders found wrong, and it fails only for want of a
selected deal or of months before the anchor.  With a deal, and from the
second year on, it always succeeds. -/
theorem substitute_of_isValid (parser : Parser) (o : Options) (sql : List Char) (level : Level)
    (column : String) (h : (reviewWith parser o sql level column).isValid = true)
    (d : Dialect) (x : Execution) :
    let used := (reviewWith parser o sql level column).placeholders
    (∀ faults, substitute d x sql ≠ .error (.grammar faults)) ∧
      ((∃ out, substitute d x sql = .ok out) ↔
        ((∀ p ∈ dealPlaceholders, p ∉ used) ∨ x.deals ≠ []) ∧
          largestOffset used ≤ x.anchor.index) ∧
      (x.deals ≠ [] → 201 ≤ x.anchor.code → ∃ out, substitute d x sql = .ok out) := by
  intro used
  obtain ⟨hclean, hused⟩ := scan_of_isValid h
  have hiff : (∃ out, substitute d x sql = .ok out) ↔
      ((∀ p ∈ dealPlaceholders, p ∉ used) ∨ x.deals ≠ []) ∧
        largestOffset used ≤ x.anchor.index := by
    rw [exists_substitute_iff hclean, ← hused, largestOffset_le_iff]
    simp only [exists_value_iff]
    constructor
    · intro hvalues
      refine ⟨?_, fun p hp => (hvalues p hp).2⟩
      by_cases hdeals : x.deals = []
      · exact Or.inl fun p hp hmem => (hvalues p hmem).1 hp hdeals
      · exact Or.inr hdeals
    · rintro ⟨hdeals, hoffsets⟩ p hp
      refine ⟨fun hdeal => ?_, hoffsets p hp⟩
      exact hdeals.resolve_left fun hnone => hnone p hdeal hp
  refine ⟨substitute_ne_grammar hclean, hiff, fun hdeals hcode => hiff.2 ⟨Or.inr hdeals, ?_⟩⟩
  have hindex := Cycle.twelve_le_index hcode
  exact largestOffset_le_iff.2 fun p _ k hk => Nat.le_trans (cycleOffset?_le hk) hindex

/-- A statement about a year ago. -/
def yearAgo : List Char :=
  "SELECT deal.dl_nbr, 1 AS x FROM deal WHERE deal.c = \x7bcycle_minus_12\x7d AND \x7bdeal_filter\x7d".toList

/-- One deal, seen from a month. -/
def oneDeal (y m : Nat) (h : (1 ≤ y ∧ y ≤ 9999) ∧ 1 ≤ m ∧ m ≤ 12) : Execution :=
  ⟨⟨y, m, h.1.1, h.1.2, h.2.1, h.2.2⟩, [⟨7, none⟩]⟩

/-- A year ago there is none in the first year, and one in the second. -/
theorem yearAgo_substitute :
    (review .standard yearAgo .deal "x").isValid = true ∧
      (¬ ∃ out, substitute .tsql (oneDeal 1 12 (by decide)) yearAgo = .ok out) ∧
      ∃ out, substitute .tsql (oneDeal 2 1 (by decide)) yearAgo = .ok out := by
  have hissues : (review .standard yearAgo .deal "x").issues = [] := by decide +kernel
  have hvalid : (review .standard yearAgo .deal "x").isValid = true := by
    simp [Verdict.isValid, hissues]
  have hused : (review .standard yearAgo .deal "x").placeholders =
      [.earlierCycle 10, .dealFilter] := by decide +kernel
  obtain ⟨-, hfirst, -⟩ := substitute_of_isValid .standard .standard yearAgo .deal "x" hvalid .tsql
    (oneDeal 1 12 (by decide))
  obtain ⟨-, -, hsecond⟩ := substitute_of_isValid .standard .standard yearAgo .deal "x" hvalid .tsql
    (oneDeal 2 1 (by decide))
  refine ⟨hvalid, fun hout => ?_, hsecond (by decide) (by decide)⟩
  have hoffset := (hfirst.1 hout).2
  rw [show (reviewWith .standard .standard yearAgo .deal "x").placeholders =
    [.earlierCycle 10, .dealFilter] from hused] at hoffset
  exact absurd hoffset (by decide)

end Placeholder

end DealSql
