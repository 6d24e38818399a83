import DealSql.Preview.Formula
import DealSql.Preview.Query

/-!
# What previews are made of

An aggregation computes one of two things: a function of a field, or a
weighted average.  Its formula and its expression are two ways of writing
that computation.  A preview is made of the value so computed, the keys and
joins that the source and the level ask for, and the conjunction of the
conditions that restrict it to the sample.

* `aggregate?_eq`, `aggregationFormula?_eq` — both are of one computation.
* `queryOf_eq` — the query, part by part.
* `query?_eq_some_iff` — which calculations have a preview.
-/

namespace DealSql

open DealSql.Sql

namespace Preview

/-! ## Aggregations -/

/-- What an aggregation computes of its source, once it is complete. -/
inductive Computation where
  | plain (function : Function) (field : String)
  | weighted (field weight : String)

/-- The computation of an aggregation. -/
def computation? (a : Aggregation) : Option Computation := do
  let field ← a.field?
  let function ← a.function
  if function.requiresWeight then return .weighted field (← a.weight?)
  else return .plain function field

namespace Computation

/-- A computation as an expression over the table of a source. -/
def expr (s : Source) : Computation → Expr
  | .plain function field => .apply function.name [Columns.column s field]
  | .weighted field weight =>
    .binary (.apply "SUM" [.binary (Columns.column s field) .times (Columns.column s weight)]) .over
      (.apply "NULLIF" [.apply "SUM" [Columns.column s weight], .int 0])

/-- A computation as a line of text. -/
def text (s : Source) : Computation → String
  | .plain function field => s!"{function.name}({qualified s field})"
  | .weighted field weight => weightedFormula (qualified s field) (qualified s weight)

end Computation

theorem computation?_weighted {a : Aggregation} {field weight : String}
    (h : computation? a = some (.weighted field weight)) :
    a.field? = some field ∧ a.weight? = some weight := by
  cases hfield : a.field? with
  | none => simp [computation?, hfield] at h
  | some f =>
    cases hfunction : a.function with
    | none => simp [computation?, hfield, hfunction] at h
    | some function =>
      cases function <;> cases hweight : a.weight? <;>
        simp_all [computation?, Function.requiresWeight]

/-- The expression and the formula of an aggregation have one computation. -/
theorem aggregate?_eq (a : Aggregation) :
    aggregate? a = (computation? a).map (Computation.expr a.source) := by
  cases hfield : a.field? with
  | none => simp [computation?, aggregate?, hfield]
  | some field =>
    cases hfunction : a.function with
    | none => simp [computation?, aggregate?, hfield, hfunction]
    | some function =>
      cases function <;> cases hweight : a.weight? <;>
        simp [computation?, aggregate?, hfield, hfunction, hweight, Function.requiresWeight,
          Computation.expr]

theorem aggregationFormula?_eq (a : Aggregation) :
    aggregationFormula? a = (computation? a).map (Computation.text a.source) := by
  cases hfield : a.field? with
  | none => simp [computation?, aggregationFormula?, hfield]
  | some field =>
    cases hfunction : a.function with
    | none => simp [computation?, aggregationFormula?, hfield, hfunction]
    | some function =>
      cases function <;> cases hweight : a.weight? <;>
        simp [computation?, aggregationFormula?, hfield, hfunction, hweight,
          Function.requiresWeight, Computation.text]

end Preview

/-! ## The calculations that have a preview -/

/-- The value that a complete calculation reports. -/
def Calculation.measure? : Calculation → Option Expr
  | .aggregation a => Preview.aggregate? a
  | .field f => f.field?.map (Columns.column f.source)
  | .custom _ => none

/-- Whether the rows of a report are brought together by its keys. -/
def Calculation.isAggregation : Calculation → Bool
  | .aggregation _ => true
  | _ => false

namespace Preview

variable {o : Options} {c : Calculation} {q : Query} {s : Source} {l : Level} {j : Joins}

/-- The conjunction of a list of conditions, if it has any. -/
def conjunction? : List Expr → Option Expr
  | [] => none
  | e :: es => some (es.foldl Expr.and e)

/-- Further conditions change nothing else of a query. -/
theorem foldl_filter_of_condition {e : Expr} (h : q.condition = some e) (es : List Expr) :
    es.foldl Query.filter q = { q with condition := some (es.foldl Expr.and e) } := by
  induction es generalizing q e with
  | nil => simp [← h]
  | cons f fs ih =>
    have hfilter : (q.filter f).condition = some (e.and f) := by simp [Query.filter, h]
    rw [List.foldl_cons, List.foldl_cons, ih hfilter]
    rfl

theorem foldl_filter (h : q.condition = none) (es : List Expr) :
    es.foldl Query.filter q = { q with condition := conjunction? es } := by
  cases es with
  | nil => simp [conjunction?, ← h]
  | cons e es =>
    have hfilter : (q.filter e).condition = some e := by simp [Query.filter, h]
    rw [List.foldl_cons, foldl_filter_of_condition hfilter]
    rfl

/-- The query of a result with a name, part by part. -/
theorem queryOf_eq (name : String) (s : Source) (l : Level) (measure : Expr) (grouped : Bool)
    (o : Options) : queryOf name s l measure grouped o =
      { comment := some comment
        items := ((Joins.forSource s l).keys l).map (⟨·, none⟩) ++
          [⟨measure, some (String.ofList (resultColumn name.toList))⟩]
        table := some Source.deal.table
        joins := joinList (Joins.forSource s l)
        condition := conjunction? (sampleConditions (Joins.forSource s l) o)
        grouping := if grouped then (Joins.forSource s l).keys l else [] } :=
  foldl_filter rfl _

/-- A calculation has a preview when it has a source and a value to report. -/
theorem query?_eq_some_iff : query? o c = some q ↔ ∃ s measure, c.source? = some s ∧
    c.measure? = some measure ∧ q = queryOf c.name s c.level measure c.isAggregation o := by
  cases c with
  | custom s => simp [query?, Calculation.source?]
  | field f =>
    cases hfield : f.field? <;>
      simp [query?, Calculation.source?, Calculation.measure?, Calculation.name, Calculation.level,
        Calculation.isAggregation, hfield, eq_comm]
  | aggregation a =>
    cases hmeasure : aggregate? a <;>
      simp [query?, Calculation.source?, Calculation.measure?, Calculation.name, Calculation.level,
        Calculation.isAggregation, hmeasure, eq_comm]

end Preview

end DealSql
