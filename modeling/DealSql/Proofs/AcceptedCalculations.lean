import DealSql.Proofs.CheckedStatements
import DealSql.Proofs.Formulas

/-!
# Accepted calculations

The check of a calculation and the generators of its formula and its preview
each look for the parts that a calculation needs.  A calculation without
faults has all of them: it has a measure, the measure takes its columns from
the fields that the catalog lists for the source, and so there are a formula
and a query.  The statement of an administrator is its own preview, and passes
its standard review.

* `listsColumns_computation` — the columns of what an aggregation computes.
* `exists_measure_of_no_faults` — the measure of an accepted calculation.
* `accepted_compiles` — what every accepted calculation has.
-/

namespace DealSql

open DealSql.Text DealSql.Sql DealSql.Review DealSql.Preview

variable {parser : Parser} {c : Catalog} {x : Calculation} {s : Source}

/-! ## Listed columns -/

namespace Catalog

/-- The catalog lists a field of a source. -/
def Lists (c : Catalog) (s : Source) (field : String) : Prop :=
  ∃ entry ∈ c.fields s, entry.name = field

/-- Whether an expression is a listed field of a source, in the table of that
source, if it is a column at all. -/
def ListsColumn (c : Catalog) (s : Source) : Expr → Prop
  | .column table name => table = some s.table ∧ c.Lists s name
  | .star _ => False
  | _ => True

/-- All columns of an expression are listed fields of a source. -/
def ListsColumns (c : Catalog) (s : Source) (e : Expr) : Prop :=
  ∀ p, e.HasPart p → c.ListsColumn s p

@[simp] theorem listsColumns_column {name : String} :
    c.ListsColumns s (Columns.column s name) ↔ c.Lists s name :=
  Expr.forall_hasPart_iff.trans
    (by simp [Columns.column, Expr.ofTable, Expr.components, ListsColumn])

@[simp] theorem listsColumns_int {n : Int} : c.ListsColumns s (.int n) :=
  Expr.forall_hasPart_iff.2 (by simp [Expr.int, Expr.components, ListsColumn])

@[simp] theorem listsColumns_binary {l r : Expr} {op : BinaryOp} :
    c.ListsColumns s (.binary l op r) ↔ c.ListsColumns s l ∧ c.ListsColumns s r :=
  Expr.forall_hasPart_iff.trans (by simp [Expr.components, ListsColumn, ListsColumns])

@[simp] theorem listsColumns_apply {function : String} {args : List Expr} :
    c.ListsColumns s (.apply function args) ↔ ∀ a ∈ args, c.ListsColumns s a :=
  Expr.forall_hasPart_iff.trans
    (by simp [Expr.apply, Expr.components, ListsColumn, ListsColumns])

end Catalog

/-- The fields of which something is computed. -/
def Preview.Computation.fields : Computation → List String
  | .plain _ field => [field]
  | .weighted field weight => [field, weight]

/-- The columns of a computation are its fields. -/
theorem listsColumns_computation {computation : Computation} :
    c.ListsColumns s (computation.expr s) ↔ ∀ field ∈ computation.fields, c.Lists s field := by
  cases computation with
  | plain f field => simp [Computation.expr, Computation.fields]
  | weighted field weight => simp [Computation.expr, Computation.fields]

/-! ## Checks without faults -/

namespace Calculation

/-- A field without faults is listed. -/
theorem lists_of_fieldFaults {numbersFor : Option Function} {name : String}
    (h : fieldFaults c s numbersFor name = []) : c.Lists s name := by
  cases hentry : c.field? s name with
  | none => simp [fieldFaults, hentry] at h
  | some entry =>
    have hname : entry.name = name := by simpa using List.find?_some hentry
    exact ⟨entry, List.mem_of_find?_eq_some hentry, hname⟩

/-- An aggregation without faults computes something of listed fields. -/
theorem exists_computation_of_no_faults {a : Aggregation} (h : aggregationFaults c a = []) :
    ∃ computation, computation? a = some computation ∧
      ∀ field ∈ computation.fields, c.Lists a.source field := by
  unfold aggregationFaults at h
  split at h
  · cases h
  simp only [List.append_eq_nil_iff] at h
  obtain ⟨⟨hfunction, hfield⟩, hweight⟩ := h
  cases hf : a.function with
  | none => simp [hf] at hfunction
  | some f =>
    cases hname : a.field? with
    | none => simp [hname] at hfield
    | some field =>
      have hlisted : c.Lists a.source field := lists_of_fieldFaults (by simpa [hname] using hfield)
      by_cases hneeds : f.requiresWeight = true
      · obtain rfl : f = .weightedAvg := by simpa [Function.requiresWeight] using hneeds
        cases hw : a.weight? with
        | none => simp [weightFaults, hf, hw] at hweight
        | some weight =>
          have hweighted : c.Lists a.source weight :=
            lists_of_fieldFaults (by simpa [weightFaults, hf, hw] using hweight)
          refine ⟨.weighted field weight, by simp [computation?, hname, hf, hw, hneeds], ?_⟩
          simp [Computation.fields, hlisted, hweighted]
      · refine ⟨.plain f field, by simp [computation?, hname, hf, hneeds], ?_⟩
        simp [Computation.fields, hlisted]

/-- A reported field without faults is listed. -/
theorem exists_field_of_no_faults {f : ReportedField} (h : reportedFieldFaults c f = []) :
    ∃ field, f.field? = some field ∧ c.Lists f.source field := by
  unfold reportedFieldFaults at h
  split at h
  · cases h
  cases hname : f.field? with
  | none => simp [hname] at h
  | some field => exact ⟨field, rfl, lists_of_fieldFaults (by simpa [hname] using h)⟩

/-- A calculation without faults has a name and a listed level, and no faults
of its kind. -/
theorem faultsWith_eq_nil_iff : x.faultsWith parser c = [] ↔
    trim x.name.toList ≠ [] ∧ c.hasLevel x.level = true ∧
      match x with
      | .aggregation a => aggregationFaults c a = []
      | .field f => reportedFieldFaults c f = []
      | .custom s => customFaultsWith parser s = [] := by
  have hname : (if (trim x.name.toList).isEmpty then [Fault.missingName] else []) = [] ↔
      trim x.name.toList ≠ [] := by simp
  have hlevel : (if c.hasLevel x.level then [] else [Fault.unknownLevel x.level]) = [] ↔
      c.hasLevel x.level = true := by simp
  unfold faultsWith
  rw [List.append_eq_nil_iff, List.append_eq_nil_iff, hname, hlevel, and_assoc]
  cases x <;> rfl

/-- **The measure of an accepted calculation** takes its columns from the
fields that the catalog lists for the source. -/
theorem exists_measure_of_no_faults (h : x.faultsWith parser c = []) (hsource : x.source? = some s) :
    ∃ measure, x.measure? = some measure ∧ c.ListsColumns s measure := by
  obtain ⟨-, -, hkind⟩ := faultsWith_eq_nil_iff.1 h
  cases x with
  | custom s => cases hsource
  | field f =>
    obtain rfl : f.source = s := Option.some.inj hsource
    obtain ⟨field, hfield, hlisted⟩ := exists_field_of_no_faults hkind
    exact ⟨Columns.column f.source field, by simp [measure?, hfield], by simp [hlisted]⟩
  | aggregation a =>
    obtain rfl : a.source = s := Option.some.inj hsource
    obtain ⟨computation, hcomputation, hlisted⟩ := exists_computation_of_no_faults hkind
    refine ⟨computation.expr a.source, ?_, listsColumns_computation.2 hlisted⟩
    simp [measure?, aggregate?_eq, hcomputation]

end Calculation

/-! ## What accepted calculations have -/

/-- A text in which something is visible is given as it is, without the blanks
at its ends. -/
theorem given?_eq_some {t : String} (h : trim t.toList ≠ []) :
    given? (some t) = some (String.ofList (trim t.toList)) := by
  obtain ⟨b, r, hcons⟩ := List.exists_cons_of_ne_nil h
  simp [given?, nonBlank?, hcons]

/-- **What every accepted calculation has**, whatever reads its statement.  Its
name is not blank and its level is listed.  Where it has a source it has a formula and, for any options,
a query, whose measure takes its columns from the fields that the catalog
lists for that source.  A statement of an administrator is shown as it is
without the blanks at its ends, names its result properly, and is valid. -/
theorem accepted_compiles (parser : Parser) (c : Catalog) (x : Calculation)
    (h : x.faultsWith parser c = []) :
    trim x.name.toList ≠ [] ∧ (∃ entry ∈ c.levels, entry.level = x.level) ∧
    (∀ s, x.source? = some s → formula x ≠ incompleteFormula ∧
      ∃ measure, c.ListsColumns s measure ∧ ∀ o, sql o x ≠ incompleteQuery ∧
        ∃ q keys label, query? o x = some q ∧ sql o x = String.ofList (q.write o.dialect) ∧
          q.items = keys ++ [⟨measure, some label⟩]) ∧
    (∀ s, x = .custom s → (∀ o, sql o x = String.ofList (trim s.sql.toList)) ∧
      isResultColumn (trim s.resultColumn.toList) = true ∧
      (reviewWith parser .standard s.sql.toList s.level s.column).isValid = true) := by
  obtain ⟨hname, hlevel, hkind⟩ := Calculation.faultsWith_eq_nil_iff.1 h
  refine ⟨hname, by simpa [Catalog.hasLevel] using hlevel, ?_, ?_⟩
  · intro s hsource
    have hhas : x.source?.isSome = true := by simp [hsource]
    obtain ⟨measure, hmeasure, hlisted⟩ := Calculation.exists_measure_of_no_faults h hsource
    refine ⟨?_, measure, hlisted, fun o => ?_⟩
    · rw [Ne, formula_eq_incomplete_iff hhas, hmeasure]
      simp
    · have hquery : query? o x = some (queryOf x.name s x.level measure x.isAggregation o) :=
        query?_eq_some_iff.2 ⟨s, measure, hsource, hmeasure, rfl⟩
      refine ⟨?_, _, _, _, hquery, ?_, by rw [queryOf_eq]⟩
      · rw [Ne, sql_eq_incomplete_iff o hhas, hquery]
        simp
      · cases x with
        | custom _ => cases hsource
        | field f => simp [sql, hquery]
        | aggregation a => simp [sql, hquery]
  · rintro s rfl
    have hvalid := Calculation.customFaultsWith_eq_nil_iff.1 hkind
    obtain ⟨hsound, -⟩ := isValid_reviewWith_iff.1 hvalid
    refine ⟨fun o => ?_, ?_, hvalid⟩
    · simp [sql, given?_eq_some hsound.visible]
    · simpa [CustomSql.column] using hsound.named

/-- A weighted average and a statement that the standard catalog accepts. -/
theorem weightedRate_compiles :
    (Calculation.aggregation weightedRate).faults .standard = [] ∧
      formula (.aggregation weightedRate) ≠ incompleteFormula ∧
      (Calculation.custom oneColumn).faults .standard = [] ∧
      sql .standard (.custom oneColumn) = oneColumn.sql := by
  have hrate : (Calculation.aggregation weightedRate).faults .standard = [] := by decide +kernel
  have hone : (Calculation.custom oneColumn).faults .standard = [] := by decide +kernel
  obtain ⟨-, -, hsource, -⟩ := accepted_compiles .standard .standard _ hrate
  obtain ⟨-, -, -, hcustom⟩ := accepted_compiles .standard .standard _ hone
  have hsql := (hcustom oneColumn rfl).1 .standard
  refine ⟨hrate, (hsource .trancheBal rfl).1, hone, hsql.trans ?_⟩
  decide +kernel

end DealSql
