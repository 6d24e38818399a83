import DealSql.Proofs.ExpressionParts
import DealSql.Proofs.PreviewParts

/-!
# Formulas and previews

The formula of a calculation and its preview query are put together apart
from each other, one as a line of text and one as an expression.  They say
the same: the formula of an aggregation is its expression, written with the
names of the sources in place of the quoted tables, and the one is
incomplete exactly when the other is.  The two wordings for what is
incomplete are never the text of something complete.

* `formula_eq_written` — the formula of an aggregation is its expression.
* `aggregate_division` — an average divides by the sum of its own weights.
* `formula_agrees_with_query` — formula and preview describe one computation.
-/

namespace DealSql.Preview

open DealSql.Sql

/-- A column as formulas write it: the name of the source whose table it is,
and the field as it stands. -/
def sourceColumn (table : Option String) (name : String) : List Char :=
  match table with
  | none => name.toList
  | some t =>
    match Source.all.find? fun s => s.table == t with
    | some s => (qualified s name).toList
    | none => t.toList ++ '.' :: name.toList

/-- Tables belong to one source each. -/
@[simp] theorem find_table (s : Source) :
    (Source.all.find? fun x => x.table == s.table) = some s := by
  cases s <;> rfl

/-- A column of a source is written as the formula writes its field. -/
@[simp] theorem writeWith_column (d : Dialect) (s : Source) (field : String) :
    (Columns.column s field).writeWith sourceColumn d = (qualified s field).toList := by
  simp [Columns.column, Expr.ofTable, Expr.writeWith, sourceColumn]

/-! ## Aggregations -/

/-- The expression, written with the names of the sources, is the line of text. -/
theorem Computation.writeWith_expr (d : Dialect) (s : Source) (c : Computation) :
    (c.expr s).writeWith sourceColumn d = (c.text s).toList := by
  cases c with
  | plain function field =>
    have hupper : Text.upper function.name.toList = function.name.toList := by
      cases function <;> decide
    simp [expr, text, Expr.apply, Expr.writeWith, Expr.writeEachWith, hupper, List.intercalate,
      toString]
  | weighted field weight =>
    have hzero : Text.integer 0 = ['0'] := by decide
    have hsum : Text.upper ['S', 'U', 'M'] = ['S', 'U', 'M'] := by decide
    have hnullif : Text.upper ['N', 'U', 'L', 'L', 'I', 'F'] = ['N', 'U', 'L', 'L', 'I', 'F'] := by
      decide
    simp [expr, text, weightedFormula, Expr.apply, Expr.int, Expr.writeWith, Expr.writeEachWith,
      hzero, hsum, hnullif, List.intercalate, BinaryOp.fragment, Literal.fragment, Fragment.write,
      Symbol.text, toString]

/-- The formula of an aggregation is its expression with the fields named
after their sources, in whichever dialect the rest of it is written. -/
theorem formula_eq_written (a : Aggregation) (d : Dialect) :
    formula (.aggregation a) =
      ((aggregate? a).map fun e => String.ofList (e.writeWith sourceColumn d)).getD
        incompleteFormula := by
  rw [formula, aggregationFormula?_eq, aggregate?_eq]
  simp [Function.comp_def, Computation.writeWith_expr]

/-- A quotient in an aggregation divides by the sum of the weights that
multiply its value, or by nothing where that sum is zero. -/
theorem aggregate_division {a : Aggregation} {e l r : Expr} (he : aggregate? a = some e)
    (hpart : e.HasPart (.binary l .over r)) :
    ∃ field weight, a.field? = some field ∧ a.weight? = some weight ∧
      l = .apply "SUM" [.binary (Columns.column a.source field) .times
        (Columns.column a.source weight)] ∧
      r = .apply "NULLIF" [.apply "SUM" [Columns.column a.source weight], .int 0] := by
  rw [aggregate?_eq] at he
  obtain ⟨c, hc, rfl⟩ := Option.map_eq_some_iff.1 he
  cases c with
  | plain function field =>
    simp [Computation.expr, Expr.apply, Columns.column, Expr.ofTable] at hpart
  | weighted field weight =>
    obtain ⟨rfl, rfl⟩ : l = _ ∧ r = _ := by
      simpa [Computation.expr, Expr.apply, Expr.int, Columns.column, Expr.ofTable] using hpart
    obtain ⟨hfield, hweight⟩ := computation?_weighted hc
    exact ⟨field, weight, hfield, hweight, rfl, rfl⟩

/-! ## What is incomplete -/

/-- Formulas begin with the name of a source or of a function, and none of
these begins as the wording for what is incomplete does. -/
theorem qualified_ne_incomplete (s : Source) (field : String) :
    qualified s field ≠ incompleteFormula := by
  intro h
  have hhead : (qualified s field).toList.head? = incompleteFormula.toList.head? := by rw [h]
  cases s <;> simp [qualified, incompleteFormula, Source.name, toString] at hhead

theorem Computation.text_ne_incomplete (s : Source) (c : Computation) :
    c.text s ≠ incompleteFormula := by
  intro h
  have hhead : (c.text s).toList.head? = incompleteFormula.toList.head? := by rw [h]
  cases c with
  | plain function field =>
    cases function <;> simp [text, incompleteFormula, Function.name, toString] at hhead
  | weighted field weight => simp [text, weightedFormula, incompleteFormula, toString] at hhead

/-- A preview begins with its comment, which is not the one for what is incomplete. -/
theorem write_ne_incomplete (d : Dialect) {q : Query} (h : q.comment = some comment) :
    String.ofList (q.write d) ≠ incompleteQuery := by
  intro heq
  have hfourth : (q.write d)[3]? = incompleteQuery.toList[3]? := by rw [← heq, String.toList_ofList]
  have hcomment : (Fragment.comment comment).write d = "-- ".toList ++ comment.toList := by
    have hflat : Text.flatten comment.toList = comment.toList := by decide
    rw [Fragment.write, hflat]
  simp only [Query.write, Query.fragments_eq_comment_append q, Query.commentFragments, h,
    write_append, Expr.write_cons, hcomment, List.append_assoc] at hfourth
  simp [comment, incompleteQuery] at hfourth

/-- The formula of a calculation is incomplete when the calculation has no
value to report. -/
theorem formula_eq_incomplete_iff {c : Calculation} (hsource : c.source?.isSome = true) :
    formula c = incompleteFormula ↔ c.measure? = none := by
  cases c with
  | custom s => simp [Calculation.source?] at hsource
  | field f =>
    cases hfield : f.field? with
    | none => simp [formula, Calculation.measure?, hfield]
    | some field => simp [formula, Calculation.measure?, hfield, qualified_ne_incomplete]
  | aggregation a =>
    rw [formula, aggregationFormula?_eq, Calculation.measure?, aggregate?_eq]
    cases computation? a with
    | none => simp
    | some c => simp [Computation.text_ne_incomplete]

theorem query?_eq_none_iff {c : Calculation} (o : Options) (hsource : c.source?.isSome = true) :
    query? o c = none ↔ c.measure? = none := by
  obtain ⟨s, hs⟩ := Option.isSome_iff_exists.1 hsource
  have hsome : ∀ q, query? o c = some q ↔ _ := fun q => query?_eq_some_iff
  simp only [Option.eq_none_iff_forall_ne_some, ne_eq, hsome, hs]
  grind

/-- The preview is the wording for what is incomplete only where there is no query. -/
theorem sql_eq_incomplete_iff {c : Calculation} (o : Options) (hsource : c.source?.isSome = true) :
    sql o c = incompleteQuery ↔ query? o c = none := by
  have hsql : sql o c =
      ((query? o c).map fun q => String.ofList (q.write o.dialect)).getD incompleteQuery := by
    cases c with
    | custom s => simp [Calculation.source?] at hsource
    | field f => cases hq : query? o (.field f) <;> simp [sql, hq]
    | aggregation a => cases hq : query? o (.aggregation a) <;> simp [sql, hq]
  rw [hsql]
  cases hq : query? o c with
  | none => simp
  | some q =>
    obtain ⟨s, measure, -, -, rfl⟩ := query?_eq_some_iff.1 hq
    have hcomment : (queryOf c.name s c.level measure c.isAggregation o).comment = some comment := by
      rw [queryOf_eq]
    simp [write_ne_incomplete o.dialect hcomment]

/-- **Formula and preview describe one computation.**  The formula of an
aggregation is its expression with the fields named after their sources; the
formula of a calculation is incomplete exactly when it has no query, and
then its preview says so and otherwise never; and an average divides by the
sum of the weights that multiply its value. -/
theorem formula_agrees_with_query :
    (∀ (a : Aggregation) (d : Dialect), formula (.aggregation a) =
      ((aggregate? a).map fun e => String.ofList (e.writeWith sourceColumn d)).getD
        incompleteFormula) ∧
    (∀ (c : Calculation) (o : Options), c.source?.isSome = true →
      (formula c = incompleteFormula ↔ query? o c = none) ∧
        (query? o c = none ↔ sql o c = incompleteQuery)) ∧
    ∀ (a : Aggregation) (e l r : Expr), aggregate? a = some e → e.HasPart (.binary l .over r) →
      ∃ field weight, a.field? = some field ∧ a.weight? = some weight ∧
        l = .apply "SUM" [.binary (Columns.column a.source field) .times
          (Columns.column a.source weight)] ∧
        r = .apply "NULLIF" [.apply "SUM" [Columns.column a.source weight], .int 0] := by
  refine ⟨formula_eq_written, ?_, fun a e l r he hpart => aggregate_division he hpart⟩
  intro c o hsource
  have hformula := formula_eq_incomplete_iff hsource
  have hquery := query?_eq_none_iff o hsource
  exact ⟨hformula.trans hquery.symm, (sql_eq_incomplete_iff o hsource).symm⟩

/-- A weighted average whose field was typed with blanks around it. -/
def weightedRate : Aggregation :=
  { name := "Rate"
    description := ""
    source := .trancheBal
    sourceField := some " tr_pass_thru_rte "
    function := some .weightedAvg
    weightField := some "tr_end_bal_amt"
    level := .deal }

/-- It has a formula, a query and a preview, and divides by its weights. -/
theorem weightedRate_agrees : formula (.aggregation weightedRate) ≠ incompleteFormula ∧
    sql .standard (.aggregation weightedRate) ≠ incompleteQuery ∧
    ∃ l r, aggregate? weightedRate = some (.binary l .over r) ∧
      r = .apply "NULLIF" [.apply "SUM" [Columns.column .trancheBal "tr_end_bal_amt"], .int 0] := by
  have hfield : weightedRate.field? = some "tr_pass_thru_rte" := by decide +kernel
  have hweight : weightedRate.weight? = some "tr_end_bal_amt" := by decide +kernel
  have haggregate : aggregate? weightedRate =
      some (Computation.expr .trancheBal (.weighted "tr_pass_thru_rte" "tr_end_bal_amt")) := by
    rw [aggregate?, hfield, hweight]
    rfl
  obtain ⟨hquery, hsql⟩ := formula_agrees_with_query.2.1 (.aggregation weightedRate) .standard rfl
  have hcomplete : query? .standard (.aggregation weightedRate) ≠ none := by
    simp [query?, haggregate]
  refine ⟨fun h => hcomplete (hquery.1 h), fun h => hcomplete (hsql.2 h), _, _, haggregate, ?_⟩
  obtain ⟨field, weight, -, hw, -, hr⟩ :=
    formula_agrees_with_query.2.2 weightedRate _ _ _ haggregate (.whole _)
  obtain rfl : "tr_end_bal_amt" = weight := Option.some.inj (hweight.symm.trans hw)
  exact hr

end DealSql.Preview
