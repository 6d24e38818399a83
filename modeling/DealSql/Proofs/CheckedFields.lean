import DealSql.Calculation.Check
import DealSql.Proofs.CatalogEntries

/-!
# Checked fields

The check of a calculation asks its catalog for each of the fields: whether it
is listed and, where numbers are needed, whether it holds some.  The weights of
an average always need them.  The field that is aggregated needs them when the
entry of the function says so, and a function without an entry asks nothing.

* `fieldFaults_eq_nil_iff` — the fields without faults.
* `numericFunction?_eq` — which functions ask for numbers.
* `aggregationFaults_eq` — the faults of an aggregation, one field at a time.
-/

namespace DealSql

namespace Catalog

variable {c : Catalog} {s : Source} {name : String}

/-- A field of a source has numbers: it is listed, and as one of numbers. -/
def HoldsNumbers (c : Catalog) (s : Source) (name : String) : Prop :=
  (∃ e, c.HasField s e ∧ e.name = name) ∧
    ∀ e, c.HasField s e → e.name = name → e.type.isNumeric = true

/-- Whether the catalog wants numbers for a function. -/
def asksNumbers (c : Catalog) (f : Function) : Bool :=
  (c.function? f).any FunctionEntry.numericOnly

/-- A field that is listed is found. -/
theorem exists_field?_iff (hc : c.repetition? = none) :
    (∃ e, c.field? s name = some e) ↔ ∃ e, c.HasField s e ∧ e.name = name := by
  simp only [field?_eq_some_iff hc]

/-- The source of a field that is found is listed. -/
theorem source?_isNone_of_field? {e : FieldEntry} (h : c.field? s name = some e) :
    (c.source? s).isNone = false := by
  cases hsource : c.source? s with
  | none => simp [field?, fields, hsource] at h
  | some m => rfl

end Catalog

namespace Calculation

open Catalog

variable {c : Catalog} {s : Source} {e : FieldEntry} {f : Function} {a : Aggregation}
  {numbersFor : Option Function} {name : String}

/-- A field of numbers has no faults. -/
theorem fieldFaults_of_isNumeric (hfield : c.field? s name = some e)
    (hnumeric : e.type.isNumeric = true) : fieldFaults c s numbersFor name = [] := by
  cases numbersFor <;> simp [fieldFaults, hfield, hnumeric]

/-- A field without numbers has a fault where a function needs them. -/
theorem fieldFaults_of_not_isNumeric (hfield : c.field? s name = some e)
    (hplain : e.type.isNumeric = false) :
    fieldFaults c s numbersFor name =
      (numbersFor.map fun f => Fault.nonNumericField f s name).toList := by
  cases numbersFor <;> simp [fieldFaults, hfield, hplain]

/-- **The fields without faults** are listed, and have numbers where a
function needs them. -/
theorem fieldFaults_eq_nil_iff (hc : c.repetition? = none) :
    fieldFaults c s numbersFor name = [] ↔
      (∃ e, c.HasField s e ∧ e.name = name) ∧ (numbersFor ≠ none → c.HoldsNumbers s name) := by
  cases hfield : c.field? s name with
  | none =>
    have hunlisted : ¬ ∃ e, c.HasField s e ∧ e.name = name := by
      simp [← exists_field?_iff hc, hfield]
    simp [fieldFaults, hfield, hunlisted]
  | some e =>
    have hentry := (field?_eq_some_iff hc).1 hfield
    have hlisted : ∃ e, c.HasField s e ∧ e.name = name := ⟨e, hentry⟩
    have hnumbers : c.HoldsNumbers s name ↔ e.type.isNumeric = true := by
      refine ⟨fun h => h.2 e hentry.1 hentry.2, fun h => ⟨hlisted, fun e' he' hname => ?_⟩⟩
      have hsame : some e' = some e :=
        ((field?_eq_some_iff hc).2 ⟨he', hname⟩).symm.trans hfield
      rw [Option.some.inj hsame, h]
    by_cases hnumeric : e.type.isNumeric = true
    · simp [fieldFaults_of_isNumeric hfield hnumeric, hnumbers, hnumeric, hlisted]
    · rw [fieldFaults_of_not_isNumeric hfield (by simpa using hnumeric), hnumbers]
      cases numbersFor <;> simp [hnumeric, hlisted]

/-- Of the functions, those ask for numbers whose entry says so. -/
theorem numericFunction?_eq (hfunction : a.function = some f) :
    numericFunction? c a = if c.asksNumbers f then some f else none := by
  rw [numericFunction?, hfunction]
  rfl

/-- The faults of an aggregation of a field that is found: a function that is
missing, and the faults of the field and of the weights. -/
theorem aggregationFaults_eq (hname : a.field? = some name)
    (hfield : c.field? a.source name = some e) :
    aggregationFaults c a = (if a.function.isNone then [.missingFunction] else []) ++
      fieldFaults c a.source (numericFunction? c a) name ++ weightFaults c a := by
  rw [aggregationFaults, source?_isNone_of_field? hfield, hname]
  rfl

end Calculation

end DealSql
