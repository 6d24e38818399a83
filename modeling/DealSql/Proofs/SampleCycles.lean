import DealSql.Proofs.Cycles
import DealSql.Settings.Document
import Mathlib.Control.Monad.Basic

/-!
# Sample cycles

The settings name the cycle of the sample by its code, as an execution names
its anchor.  An execution divides the code into a year and a month; the
settings only look for a month behind at least one further digit.  Whatever is
the code of a cycle passes both.  After the last year, though, there are
integers in which only the settings see a month.

* `isCycleCode_eq_tmod` — the sign of the remainder plays no part.
* `isCycleCode_iff` — codes of cycles, and months after the last year.
* `sampleCycle_agrees_iff` — which integers both take for codes.
-/

namespace DealSql.Settings

open DealSql.Text

variable {s : Settings} {n : Int}

/-- The settings with another cycle for the sample, or with none. -/
def withCycle (s : Settings) (cycle : Option Int) : Settings :=
  { s with preview := { s.preview with cycle } }

/-- Whether an integer is written as the code of a month after the year 9999. -/
def IsLateMonth (n : Int) : Prop := 1000000 ≤ n ∧ 1 ≤ n % 100 ∧ n % 100 ≤ 12

instance (n : Int) : Decidable (IsLateMonth n) :=
  inferInstanceAs (Decidable (1000000 ≤ n ∧ 1 ≤ n % 100 ∧ n % 100 ≤ 12))

/-- The remainder may as well have the sign of the integer: below a hundred
it is not looked at. -/
theorem isCycleCode_eq_tmod (n : Int) :
    isCycleCode n = !(n < 100 || !(1 ≤ n.tmod 100 && n.tmod 100 ≤ 12)) := by
  by_cases hn : n < 100
  · have hlow : ¬ 100 ≤ n := by omega
    simp [isCycleCode, hn, hlow]
  · have hremainder : n.tmod 100 = n % 100 := Int.tmod_eq_emod_of_nonneg (by omega)
    have hhigh : 100 ≤ n := by omega
    simp [isCycleCode, hn, hhigh, hremainder]

/-- The settings take for codes those of cycles, and the months after the
last year. -/
theorem isCycleCode_iff : isCycleCode n = true ↔ Cycle.IsCode n ∨ IsLateMonth n := by
  unfold isCycleCode Cycle.IsCode IsLateMonth
  simp only [Bool.and_eq_true, decide_eq_true_eq]
  omega

/-- No month after the last year is the code of a cycle. -/
theorem not_isCode_of_isLateMonth (h : IsLateMonth n) : ¬ Cycle.IsCode n := by
  unfold IsLateMonth at h
  unfold Cycle.IsCode
  omega

/-- What is read as a cycle is a code. -/
theorem exists_ofCode_iff : (∃ c, Cycle.ofCode n = .ok c) ↔ Cycle.IsCode n := by
  constructor
  · rintro ⟨c, hc⟩
    rw [← Cycle.ofCode_eq_ok_iff.1 hc]
    exact Cycle.isCode_code c
  · intro hn
    obtain ⟨c, hc, -⟩ := Cycle.ofCode_of_isCode hn
    exact ⟨c, hc⟩

/-- In settings that are usable without a sample cycle, the cycle is all that
can be wrong. -/
theorem unusable?_withCycle (hs : (s.withCycle none).unusable? = none) (n : Int) :
    (s.withCycle (some n)).unusable? =
      if isCycleCode n then none else some (.sampleCycle n) := by
  have hlength : s.maxLength ≠ 0 := by
    intro hzero
    simp [unusable?, withCycle, hzero] at hs
  simp [unusable?, withCycle, hlength]

/-- **Which integers both take for codes.**  Of settings that are usable
otherwise, those are usable whose sample cycle is a month behind at least one
further digit, and of the others the cycle is reported.  Every cycle can be
sampled.  What can be sampled is a cycle, unless it is a month after the last
year: there, and only there, settings are usable although no cycle has the
code. -/
theorem sampleCycle_agrees_iff (hs : (s.withCycle none).unusable? = none) (n : Int) :
    ((s.withCycle (some n)).unusable? = none ↔ 100 ≤ n ∧ 1 ≤ n % 100 ∧ n % 100 ≤ 12) ∧
    ((s.withCycle (some n)).unusable? ≠ none →
      (s.withCycle (some n)).unusable? = some (.sampleCycle n)) ∧
    ((∃ c, Cycle.ofCode n = .ok c) → (s.withCycle (some n)).unusable? = none) ∧
    (((s.withCycle (some n)).unusable? = none ↔ ∃ c, Cycle.ofCode n = .ok c) ↔
      ¬ IsLateMonth n) := by
  have hchecked := unusable?_withCycle hs n
  have husable : (s.withCycle (some n)).unusable? = none ↔ isCycleCode n = true := by
    rw [hchecked]
    cases isCycleCode n <;> simp
  refine ⟨?_, ?_, ?_, ?_⟩
  · rw [husable]
    simp only [isCycleCode, Bool.and_eq_true, decide_eq_true_eq, and_assoc]
  · intro hne
    rw [hchecked, if_neg (mt husable.2 hne)]
  · rw [husable, isCycleCode_iff, exists_ofCode_iff]
    exact Or.inl
  · rw [husable, isCycleCode_iff, exists_ofCode_iff]
    constructor
    · intro hagree hlate
      exact not_isCode_of_isLateMonth hlate (hagree.1 (Or.inr hlate))
    · intro hearly
      exact ⟨fun h => h.resolve_right hearly, Or.inl⟩

/-- Under the standard settings April of 2024 can be sampled and is a cycle,
and the thirteenth month of that year is neither. -/
theorem april2024_sampled :
    (standard.withCycle none).unusable? = none ∧
      (standard.withCycle (some 202404)).unusable? = none ∧
      (∃ c, Cycle.ofCode 202404 = .ok c) ∧
      (standard.withCycle (some 202413)).unusable? = some (.sampleCycle 202413) ∧
      ¬ ∃ c, Cycle.ofCode 202413 = .ok c := by
  have hs : (standard.withCycle none).unusable? = none := rfl
  obtain ⟨hapril, -, -, hboth⟩ := sampleCycle_agrees_iff hs 202404
  obtain ⟨hthirteen, hreported, hsampled, -⟩ := sampleCycle_agrees_iff hs 202413
  have hrefused : (standard.withCycle (some 202413)).unusable? ≠ none := mt hthirteen.1 (by decide)
  have husable := hapril.2 (by decide)
  exact ⟨hs, husable, (hboth.2 (by decide)).1 husable, hreported hrefused, mt hsampled hrefused⟩

/-- January of the year 10000 may stand in a document of settings, and is no
cycle. -/
theorem january10000_sampled :
    ∃ settings, read "[preview]\nsample_cycle = 1000001\n".toList = .ok settings ∧
      settings = standard.withCycle (some 1000001) ∧
      (settings.withCycle none).unusable? = none ∧ settings.unusable? = none ∧
      fitsInt64 1000001 = true ∧ Cycle.ofCode 1000001 = .error (.invalid 1000001) := by
  have hread : read "[preview]\nsample_cycle = 1000001\n".toList =
      .ok (standard.withCycle (some 1000001)) := by decide +kernel
  exact ⟨_, hread, rfl, rfl, rfl, rfl, rfl⟩

end DealSql.Settings
