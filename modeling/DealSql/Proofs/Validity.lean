import DealSql.Proofs.QuietTexts

/-!
# What makes a statement valid

Most of what a review asks does not depend on its options: a statement is
*sound* when it begins as a query, selects what its level requires, names its
result properly, and raises neither a fault of a placeholder nor an issue of
the gate.  The options add two limits and, where they are strict, the question
whether their dialect accepts the statement.  A statement is valid when it is
sound and the options permit it.

* `isValid_reviewWith_iff` — the two halves of a valid verdict.
* `mem_issues_iff` — the issues of a statement that is looked into.
-/

namespace DealSql.Review

open DealSql.Text DealSql.Statement

variable {parser : Parser} {o : Options} {sql : List Char} {level : Level} {column : String}

/-- What a review asks of a statement whatever its options. -/
structure IsSound (parser : Parser) (sql : List Char) (level : Level) (column : String) : Prop where
  visible : trim sql ≠ []
  entry : entryIssues (structuralLexemes sql) = []
  required : requiredColumnIssues (selectList (structuralLexemes sql)) level = []
  named : isResultColumn column.toList = true
  clean : (Placeholder.scan sql).isClean = true
  gate : gateIssuesWith parser sql = []

/-- What the options of a review ask of a statement. -/
structure Options.Permits (o : Options) (parser : Parser) (sql : List Char) : Prop where
  length : sql.length ≤ o.maxLength
  placeholders : (Placeholder.scan sql).groups ≤ o.maxPlaceholders
  accepted : o.strict = true → parser.accepts o.dialect (neutralize sql) = true

/-! ## Fatal issues -/

/-- A list of fatal issues lets a statement pass only when it is empty. -/
theorem any_isFatal_eq_false_iff {is : List Issue} (h : ∀ i ∈ is, i.isFatal = true) :
    is.any Issue.isFatal = false ↔ is = [] := by
  constructor
  · intro hany
    cases is with
    | nil => rfl
    | cons i rest => simp [h i List.mem_cons_self] at hany
  · rintro rfl
    rfl

theorem entryIssues_fatal {ls : List Lexeme} :
    (entryIssues ls).any Issue.isFatal = false ↔ entryIssues ls = [] := by
  refine any_isFatal_eq_false_iff fun i hi => ?_
  simp [Issue.isFatal, entryIssues_category hi, Category.isFatal]

theorem requiredColumnIssues_fatal {items : List (List Lexeme)} :
    (requiredColumnIssues items level).any Issue.isFatal = false ↔
      requiredColumnIssues items level = [] := by
  refine any_isFatal_eq_false_iff fun i hi => ?_
  simp [Issue.isFatal, requiredColumnIssues_category hi, Category.isFatal]

/-- Of the issues with the result only its name is fatal. -/
theorem resultColumnIssues_fatal {items : List (List Lexeme)} :
    (resultColumnIssues items column).any Issue.isFatal = false ↔
      isResultColumn column.toList = true := by
  unfold resultColumnIssues
  by_cases hname : isResultColumn column.toList = true
  · rw [if_neg (by simp [hname])]
    split <;> simp [hname, Issue.isFatal, Issue.category, Category.isFatal]
  · simp [hname, Issue.isFatal, Issue.category, Category.isFatal]

theorem placeholderIssues_fatal {s : Placeholder.Scan} {max : Nat} :
    (placeholderIssues s max).any Issue.isFatal = false ↔ s.groups ≤ max ∧ s.isClean = true := by
  have hempty : (placeholderIssues s max).any Issue.isFatal = false ↔
      placeholderIssues s max = [] := by
    refine any_isFatal_eq_false_iff fun i hi => ?_
    rcases placeholderIssues_category hi with hc | hc | hc <;>
      simp [Issue.isFatal, hc, Category.isFatal]
  rw [hempty, placeholderIssues]
  by_cases hcount : s.groups > max
  · have hnot : ¬ s.groups ≤ max := Nat.not_le.2 hcount
    simp [hcount, hnot]
  · have hle : s.groups ≤ max := Nat.not_lt.1 hcount
    simp [hcount, hle, Placeholder.Scan.isClean]

theorem gateIssues_category {i : Issue} (h : i ∈ gateIssuesWith parser sql) :
    i.category = .securityViolation := by
  obtain ⟨view, -, hsignal⟩ := mem_gateIssuesWith.1 h
  obtain ⟨l, -, hl⟩ := List.mem_filterMap.1 hsignal
  rcases signal?_blocked hl with rfl | ⟨k, -, rfl⟩ <;> rfl

theorem gateIssues_fatal :
    (gateIssuesWith parser sql).any Issue.isFatal = false ↔ gateIssuesWith parser sql = [] := by
  refine any_isFatal_eq_false_iff fun i hi => ?_
  simp [Issue.isFatal, gateIssues_category hi, Category.isFatal]

theorem acceptanceIssues_fatal {d : Dialect} :
    (acceptanceIssues parser d sql).any Issue.isFatal = false ↔
      parser.accepts d (neutralize sql) = true := by
  unfold acceptanceIssues
  split <;> simp_all [Issue.isFatal, Issue.category, Category.isFatal]

/-- The checks find nothing fatal in a sound statement without too many placeholders. -/
theorem checkIssues_fatal (hvisible : trim sql ≠ []) :
    (checkIssues parser o sql level column).any Issue.isFatal = false ↔
      IsSound parser sql level column ∧ (Placeholder.scan sql).groups ≤ o.maxPlaceholders := by
  simp only [checkIssues, List.any_append, Bool.or_eq_false_iff, entryIssues_fatal,
    requiredColumnIssues_fatal, resultColumnIssues_fatal, placeholderIssues_fatal,
    gateIssues_fatal]
  constructor
  · rintro ⟨⟨⟨⟨hentry, hrequired⟩, hname⟩, hcount, hclean⟩, hgate⟩
    exact ⟨⟨hvisible, hentry, hrequired, hname, hclean, hgate⟩, hcount⟩
  · rintro ⟨h, hcount⟩
    exact ⟨⟨⟨⟨h.entry, h.required⟩, h.named⟩, hcount, h.clean⟩, h.gate⟩

/-! ## Valid verdicts -/

/-- **The two halves of a valid verdict**: the statement is sound, and the
options of the review permit it. -/
theorem isValid_reviewWith_iff : (reviewWith parser o sql level column).isValid = true ↔
    IsSound parser sql level column ∧ o.Permits parser sql := by
  by_cases hexamined : Examined o sql
  · obtain ⟨hlength, hvisible⟩ := hexamined
    rw [reviewWith_of_examined parser level column ⟨hlength, hvisible⟩]
    have hlexical : (checkIssues parser o sql level column).any Issue.isFatal = false ↔
        IsSound parser sql level column ∧ (Placeholder.scan sql).groups ≤ o.maxPlaceholders :=
      checkIssues_fatal hvisible
    generalize checkIssues parser o sql level column = issues at *
    by_cases hfatal : issues.any Issue.isFatal = true
    · -- the dialect is not asked, and the statement is invalid as it is
      have hnot : ¬ (IsSound parser sql level column ∧ o.Permits parser sql) := fun h => by
        have hfine := hlexical.2 ⟨h.1, h.2.placeholders⟩
        rw [hfatal] at hfine
        cases hfine
      simp [Verdict.isValid, hfatal, hnot]
    · have hfine : issues.any Issue.isFatal = false := by simpa using hfatal
      obtain ⟨hsound, hcount⟩ := hlexical.1 hfine
      have hpermits : o.Permits parser sql ↔
          (o.strict = true → parser.accepts o.dialect (neutralize sql) = true) :=
        ⟨fun h => h.accepted, fun h => ⟨hlength, hcount, h⟩⟩
      rw [hpermits]
      cases hstrict : o.strict with
      | false => simp [Verdict.isValid, hfine, hsound]
      | true =>
        have hasked : (acceptanceIssues parser o.dialect sql).any Issue.isFatal = false ↔
            parser.accepts o.dialect (neutralize sql) = true := acceptanceIssues_fatal
        generalize acceptanceIssues parser o.dialect sql = more at *
        simpa [Verdict.isValid, hfine, hsound] using hasked
  · have hnot : ¬ (IsSound parser sql level column ∧ o.Permits parser sql) :=
      fun h => hexamined ⟨h.2.length, h.1.visible⟩
    rcases reviewWith_of_not_examined parser level column hexamined with hreview | hreview <;>
      simp [hreview, hnot, Verdict.rejected, Verdict.isValid, Issue.isFatal, Issue.category,
        Category.isFatal]

/-! ## The issues of a review -/

/-- A statement that is not examined has one issue, which says why. -/
theorem issues_of_not_examined (parser : Parser) (level : Level) (column : String)
    (h : ¬ Examined o sql) :
    (reviewWith parser o sql level column).issues = [.tooLong sql.length o.maxLength] ∨
      (reviewWith parser o sql level column).issues = [.emptySql] := by
  rcases reviewWith_of_not_examined parser level column h with hreview | hreview
  · exact Or.inl (by rw [hreview]; rfl)
  · exact Or.inr (by rw [hreview]; rfl)

/-- The issues of a statement that is examined are those of the checks; that
the dialect does not accept it comes last. -/
theorem mem_issues_iff (h : Examined o sql) {i : Issue} (hi : i ≠ .unparsable) :
    i ∈ (reviewWith parser o sql level column).issues ↔
      i ∈ entryIssues (structuralLexemes sql) ∨
      i ∈ requiredColumnIssues (selectList (structuralLexemes sql)) level ∨
      i ∈ resultColumnIssues (selectList (structuralLexemes sql)) column ∨
      i ∈ placeholderIssues (Placeholder.scan sql) o.maxPlaceholders ∨
      i ∈ gateIssuesWith parser sql := by
  have hstrict : i ∉ acceptanceIssues parser o.dialect sql := by
    unfold acceptanceIssues
    split <;> simp [hi]
  rw [reviewWith_of_examined parser level column h]
  split <;> simp [checkIssues, hstrict]

end DealSql.Review
