import DealSql.Proofs.Validity
import DealSql.Settings.Document
import DealSql.Workbench

/-!
# The statement of a checked calculation

The statement that an administrator has written is judged twice: the overview
of its calculation reviews it under the options of the workbench, and the
check of the calculation reviews it under the standard ones.  The check finds
fault with a statement exactly when the standard review does; the two agree
unless the statement is sound and only one of the two sets of options permits
it.

* `customFaultsWith_eq_nil_iff` — the check of a statement is its standard review.
* `statement_verdicts_agree_iff` — when check and overview agree.
-/

namespace DealSql

open DealSql.Text DealSql.Review

variable {parser : Parser} {s : CustomSql}

/-- The name under which a statement is to select its result. -/
def CustomSql.column (s : CustomSql) : String := String.ofList (trim s.resultColumn.toList)

namespace Calculation

/-- Whether a fault is one of the statement that an administrator has written. -/
def Fault.blamesStatement : Fault → Bool
  | .invalidResultColumn _ => true
  | .invalidSql _ => true
  | _ => false

/-- An issue with the name of the result is raised only for an improper name. -/
theorem isResultColumn_of_issue {o : Options} {sql : List Char} {level : Level} {column : String}
    {i : Issue} (hi : i ∈ (reviewWith parser o sql level column).issues)
    (hname : isResultColumnIssue i = true) : isResultColumn column.toList = false := by
  obtain ⟨name, rfl⟩ : ∃ name, i = .invalidResultColumn name := by
    unfold isResultColumnIssue at hname
    split at hname
    · exact ⟨_, rfl⟩
    · cases hname
  by_cases hexamined : Examined o sql
  · rcases (mem_issues_iff hexamined (by simp)).1 hi with hi | hi | hi | hi | hi
    · unfold entryIssues at hi
      rcases List.mem_append.1 hi with hi | hi <;> split at hi <;> simp at hi
    · unfold requiredColumnIssues at hi
      split at hi <;> simp at hi
    · unfold resultColumnIssues at hi
      split at hi
      · next h => simpa using h
      · split at hi <;> simp at hi
    · unfold placeholderIssues at hi
      split at hi <;> simp at hi
    · obtain ⟨view, -, hsignal⟩ := mem_gateIssuesWith.1 hi
      obtain ⟨l, -, hl⟩ := List.mem_filterMap.1 hsignal
      rcases signal?_blocked hl with h | ⟨k, -, h⟩ <;> cases h
  · rcases issues_of_not_examined parser level column hexamined with h | h <;> simp [h] at hi

/-- A statement has no faults when its result has a proper name and its standard
review finds nothing else that is fatal. -/
theorem customFaultsWith_eq_nil : customFaultsWith parser s = [] ↔
    isResultColumn s.column.toList = true ∧
      ∀ i ∈ (reviewWith parser .standard s.sql.toList s.level s.column).issues,
        i.isFatal = true → isResultColumnIssue i = true := by
  have hfaults : customFaultsWith parser s =
      (if isResultColumn s.column.toList then [] else [.invalidResultColumn s.column]) ++
      (if (((reviewWith parser .standard s.sql.toList s.level s.column).issues.filter fun i =>
          i.isFatal && !isResultColumnIssue i).map Issue.message).isEmpty then []
        else [.invalidSql (((reviewWith parser .standard s.sql.toList s.level
          s.column).issues.filter fun i =>
            i.isFatal && !isResultColumnIssue i).map Issue.message)]) := rfl
  rw [hfaults, List.append_eq_nil_iff]
  simp [List.filter_eq_nil_iff]

/-- **The check of a statement is its standard review.** -/
theorem customFaultsWith_eq_nil_iff : customFaultsWith parser s = [] ↔
    (reviewWith parser .standard s.sql.toList s.level s.column).isValid = true := by
  rw [customFaultsWith_eq_nil]
  have hvalid : (reviewWith parser .standard s.sql.toList s.level s.column).isValid = true ↔
      ∀ i ∈ (reviewWith parser .standard s.sql.toList s.level s.column).issues,
        i.isFatal = false := by
    simp [Verdict.isValid]
  constructor
  · rintro ⟨hnamed, hissues⟩
    rw [hvalid]
    intro i hi
    by_contra hfatal
    have himproper := isResultColumn_of_issue hi (hissues i hi (by simpa using hfatal))
    rw [hnamed] at himproper
    cases himproper
  · intro h
    refine ⟨(isValid_reviewWith_iff.1 h).1.named, fun i hi hfatal => ?_⟩
    rw [hvalid.1 h i hi] at hfatal
    cases hfatal

/-- All faults of the check of a statement are faults of the statement. -/
theorem blamesStatement_of_mem {f : Fault} (hf : f ∈ customFaultsWith parser s) :
    f.blamesStatement = true := by
  unfold customFaultsWith at hf
  rcases List.mem_append.1 hf with hf | hf <;> split at hf <;> simp_all [Fault.blamesStatement]

/-- Whether a check blames the statement of a calculation depends on the
statement alone. -/
theorem exists_blamesStatement_iff (c : Catalog) :
    (∃ f ∈ (Calculation.custom s).faultsWith parser c, f.blamesStatement = true) ↔
      customFaultsWith parser s ≠ [] := by
  constructor
  · rintro ⟨f, hf, hblames⟩ hnil
    simp only [faultsWith, hnil, List.append_nil] at hf
    rcases List.mem_append.1 hf with hf | hf <;> split at hf <;>
      simp_all [Fault.blamesStatement]
  · intro hne
    obtain ⟨f, rest, hcons⟩ := List.exists_cons_of_ne_nil hne
    have hf : f ∈ customFaultsWith parser s := by simp [hcons]
    exact ⟨f, by simp [faultsWith, hf], blamesStatement_of_mem hf⟩

end Calculation

/-- **When check and overview agree** on the statement of a calculation,
whatever reads it.  The check asks the standard review and the overview that of
the workbench, so they differ exactly on sound statements that only one of the
two sets of options permits. -/
theorem statement_verdicts_agree_iff (parser : Parser) (c : Catalog) (settings : Settings)
    (s : CustomSql) :
    let w := Workbench.ofSettings c settings
    let blamed := ∃ f ∈ w.faultsWith parser (.custom s), f.blamesStatement = true
    (blamed ↔
        (reviewWith parser .standard s.sql.toList s.level s.column).isValid = false) ∧
      ∃ v, (w.overviewWith parser (.custom s)).verdict = some v ∧
        ((blamed ↔ v.isValid = false) ↔
          (IsSound parser s.sql.toList s.level s.column →
            (Options.standard.Permits parser s.sql.toList ↔
              settings.review.Permits parser s.sql.toList))) := by
  intro w blamed
  have hblamed : blamed ↔
      (reviewWith parser .standard s.sql.toList s.level s.column).isValid = false := by
    rw [← Bool.not_eq_true, ← Calculation.customFaultsWith_eq_nil_iff]
    exact Calculation.exists_blamesStatement_iff c
  have hinvalid : ∀ o, (reviewWith parser o s.sql.toList s.level s.column).isValid = false ↔
      ¬ (IsSound parser s.sql.toList s.level s.column ∧ o.Permits parser s.sql.toList) := by
    intro o
    rw [← Bool.not_eq_true, isValid_reviewWith_iff]
  refine ⟨hblamed, reviewWith parser settings.review s.sql.toList s.level s.column, rfl, ?_⟩
  rw [hblamed, hinvalid, hinvalid]
  by_cases hsound : IsSound parser s.sql.toList s.level s.column
  · simp only [hsound, true_and, true_imp_iff]
    exact not_iff_not
  · simp only [hsound, false_and, not_false_eq_true, false_imp_iff]

/-- A statement of thirty-six characters. -/
def oneColumn : CustomSql :=
  { name := "One"
    description := ""
    sql := "SELECT deal.dl_nbr, 1 AS x FROM deal"
    resultColumn := "x"
    level := .deal }

/-- Under a limit of twenty characters the overview rejects the statement, and
the check finds nothing wrong. -/
theorem oneColumn_disagrees :
    ∃ settings, Settings.read "[validator]\nmax_sql_length = 20\n".toList = .ok settings ∧
      (Workbench.ofSettings .standard settings).faults (.custom oneColumn) = [] ∧
      ∃ v, ((Workbench.ofSettings .standard settings).overview (.custom oneColumn)).verdict = some v ∧
        v.isValid = false := by
  have hread : Settings.read "[validator]\nmax_sql_length = 20\n".toList =
      .ok { Settings.standard with maxLength := 20 } := by decide +kernel
  refine ⟨_, hread, by decide +kernel, _, rfl, by decide +kernel⟩

end DealSql
