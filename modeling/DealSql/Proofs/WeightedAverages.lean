import DealSql.Proofs.CheckedFields
import DealSql.Proofs.Formulas
import DealSql.Proofs.AcceptedCalculations
import DealSql.Schema.Catalog.Standard

/-!
# Weighted averages

A weighted average multiplies a field by its weights.  The check of an
aggregation wants numbers of the weights in any catalog, and of the field only
where the catalog wants numbers for weighted averages: where it has no entry
for them, or an entry that does not say so, a field of texts may be averaged.

* `aggregationFaults_weighted` — the check of a weighted average, in parts.
* `weightedAverage_accepted_iff` — the weighted averages that are accepted.
-/

namespace DealSql

open DealSql.Text DealSql.Sql DealSql.Preview

variable {c : Catalog} {a : Aggregation}

namespace Calculation

/-- The fields of a source that is not listed have faults. -/
theorem fieldFaults_ne_nil {s : Source} (hsource : c.source? s = none)
    (numbersFor : Option Function) (name : String) : fieldFaults c s numbersFor name ≠ [] := by
  have hfield : c.field? s name = none := by simp [Catalog.field?, Catalog.fields, hsource]
  simp [fieldFaults, hfield]

/-- **The check of a weighted average** is that of its field and of its
weights, which have to be given. -/
theorem aggregationFaults_weighted (hfunction : a.function = some .weightedAvg) :
    aggregationFaults c a = [] ↔ ∃ value weight, a.field? = some value ∧ a.weight? = some weight ∧
      fieldFaults c a.source (numericFunction? c a) value = [] ∧
      fieldFaults c a.source (some .weightedAvg) weight = [] := by
  cases hsource : c.source? a.source with
  | none => simp [aggregationFaults, hsource, fieldFaults_ne_nil hsource]
  | some m =>
    cases hvalue : a.field? with
    | none => simp [aggregationFaults, hsource, hfunction, hvalue]
    | some value =>
      cases hweight : a.weight? <;>
        simp [aggregationFaults, weightFaults, hsource, hfunction, hvalue, hweight]

/-- The fields of a weighted average that has no faults: the weights have
numbers, and the value has them where the catalog asks for them. -/
theorem fieldFaults_weighted (hc : c.repetition? = none)
    (hfunction : a.function = some .weightedAvg) {value weight : String} :
    fieldFaults c a.source (numericFunction? c a) value = [] ∧
        fieldFaults c a.source (some .weightedAvg) weight = [] ↔
      c.HoldsNumbers a.source weight ∧ (∃ e, c.HasField a.source e ∧ e.name = value) ∧
        (c.asksNumbers .weightedAvg = true → c.HoldsNumbers a.source value) := by
  have hasks : numericFunction? c a ≠ none ↔ c.asksNumbers .weightedAvg = true := by
    rw [numericFunction?_eq hfunction]
    cases c.asksNumbers .weightedAvg <;> simp
  have hweight : fieldFaults c a.source (some .weightedAvg) weight = [] ↔
      c.HoldsNumbers a.source weight := by
    rw [fieldFaults_eq_nil_iff hc]
    exact ⟨fun h => h.2 (by simp), fun h => ⟨h.1, fun _ => h⟩⟩
  rw [fieldFaults_eq_nil_iff hc, hweight, hasks]
  exact and_comm

end Calculation

/-- **The weighted averages that are accepted** with a catalog that is read.
They have a name, a listed level, a field and weights.  Their expression
multiplies the field by the weights and divides by the sum of the weights.  The
weights are a field of the source that has numbers; the value is a field of the
source, and has numbers if the catalog wants them for weighted averages. -/
theorem weightedAverage_accepted_iff (parser : Review.Parser) {text : List Char}
    (hread : Catalog.read text = .ok c) (hfunction : a.function = some .weightedAvg) :
    (Calculation.aggregation a).faultsWith parser c = [] ↔
      trim a.name.toList ≠ [] ∧ c.hasLevel a.level = true ∧
      ∃ value weight, a.field? = some value ∧ a.weight? = some weight ∧
        aggregate? a = some (.binary
          (.apply "SUM" [.binary (Columns.column a.source value) .times
            (Columns.column a.source weight)]) .over
          (.apply "NULLIF" [.apply "SUM" [Columns.column a.source weight], .int 0])) ∧
        c.HoldsNumbers a.source weight ∧ (∃ e, c.HasField a.source e ∧ e.name = value) ∧
        (c.asksNumbers .weightedAvg = true → c.HoldsNumbers a.source value) := by
  have hc := Catalog.repetition?_of_read hread
  rw [Calculation.faultsWith_eq_nil_iff]
  refine and_congr_right fun _ => and_congr_right fun _ => ?_
  refine (Calculation.aggregationFaults_weighted hfunction).trans ?_
  refine exists_congr fun value => exists_congr fun weight => ?_
  refine and_congr_right fun hvalue => and_congr_right fun hweight => ?_
  rw [Calculation.fieldFaults_weighted hc hfunction]
  have hcomputation : computation? a = some (.weighted value weight) := by
    simp [computation?, hvalue, hfunction, hweight, Function.requiresWeight]
  rw [aggregate?_eq, hcomputation]
  exact (and_iff_right rfl).symm

/-- The issuers of the deals, which are no numbers. -/
def issuers : FieldEntry := Catalog.field "issr_cde" "Issuer Code" .string false

/-- A catalog of the numbers and the issuers of the deals. -/
def dealNumbersAndIssuers (functions : List FunctionEntry) : Catalog :=
  { sources := [{ source := .deal, label := "Deal", description := ""
                  fields := [Catalog.field "dl_nbr" "Deal Number" .integer false, issuers] }]
    functions
    levels := [{ level := .deal, label := "Deal Level", description := "" }] }

/-- The sources and levels of that catalog as a text. -/
def sourcesText : List Char :=
  "\n[[source_models]]\nmodel = \"Deal\"\ndisplay_label = \"Deal\"\n".toList ++
  "[[source_models.fields]]\nname = \"dl_nbr\"\ndisplay_label = \"Deal Number\"\n".toList ++
  "semantic_type = \"integer\"\n".toList ++
  "[[source_models.fields]]\nname = \"issr_cde\"\ndisplay_label = \"Issuer Code\"\n".toList ++
  "semantic_type = \"string\"\n".toList ++
  "[[group_levels]]\nlevel = \"deal\"\ndisplay_label = \"Deal Level\"\n".toList

/-- An entry for weighted averages that wants numbers, as a text. -/
def numericAverageText : List Char :=
  "[[aggregation_functions]]\nfunction = \"WEIGHTED_AVG\"\ndisplay_label = \"Average\"\n".toList ++
  "numeric_only = true\n".toList

/-- The average of a field of the deals, weighted by their numbers. -/
def byDealNumber (field : String) : Aggregation :=
  { name := "Average"
    description := ""
    source := .deal
    sourceField := some field
    function := some .weightedAvg
    weightField := some "dl_nbr"
    level := .deal }

/-- A catalog that wants numbers for weighted averages: that of the deal numbers
is accepted, which are numbers then, and that of the issuers is not. -/
theorem dealNumberAverage_accepted : ∃ c,
    Catalog.read (numericAverageText ++ sourcesText) = .ok c ∧
    (byDealNumber "dl_nbr").function = some .weightedAvg ∧
    (Calculation.aggregation (byDealNumber "dl_nbr")).faults c = [] ∧
    c.HoldsNumbers .deal "dl_nbr" ∧
    (Calculation.aggregation (byDealNumber "issr_cde")).faults c ≠ [] := by
  have hread : Catalog.read (numericAverageText ++ sourcesText) =
      .ok (dealNumbersAndIssuers [Catalog.unweighted .weightedAvg "Average" "" true]) := by
    unfold numericAverageText sourcesText
    repeat rw [String.toList_ofList]
    decide +kernel
  have haccepted : (Calculation.aggregation (byDealNumber "dl_nbr")).faults
      (dealNumbersAndIssuers [Catalog.unweighted .weightedAvg "Average" "" true]) = [] := by
    decide +kernel
  obtain ⟨-, -, value, weight, -, hweight, -, hnumbers, -, -⟩ :=
    (weightedAverage_accepted_iff .standard hread rfl).1 haccepted
  obtain rfl : "dl_nbr" = weight := Option.some.inj hweight
  refine ⟨_, hread, rfl, haccepted, hnumbers, fun hissuers => ?_⟩
  obtain ⟨-, -, value, weight, hvalue, -, -, -, -, hasked⟩ :=
    (weightedAverage_accepted_iff .standard hread rfl).1 hissuers
  obtain rfl : "issr_cde" = value := Option.some.inj hvalue
  have htext := (hasked rfl).2 issuers ⟨_, List.mem_singleton_self _, rfl, by simp⟩ rfl
  cases htext

/-- A catalog without an entry for weighted averages: that of the issuers is
accepted, and multiplies the issuers, which are no numbers, by the deal
numbers. -/
theorem issuerAverage_accepted : ∃ c,
    Catalog.read ("aggregation_functions = []".toList ++ sourcesText) = .ok c ∧
    (Calculation.aggregation (byDealNumber "issr_cde")).faults c = [] ∧
    (byDealNumber "issr_cde").function = some .weightedAvg ∧
    aggregate? (byDealNumber "issr_cde") = some (.binary
      (.apply "SUM" [.binary (Columns.column .deal "issr_cde") .times
        (Columns.column .deal "dl_nbr")]) .over
      (.apply "NULLIF" [.apply "SUM" [Columns.column .deal "dl_nbr"], .int 0])) ∧
    ¬ c.HoldsNumbers .deal "issr_cde" := by
  have hread : Catalog.read ("aggregation_functions = []".toList ++ sourcesText) =
      .ok (dealNumbersAndIssuers []) := by
    unfold sourcesText
    repeat rw [String.toList_ofList]
    decide +kernel
  refine ⟨_, hread, by decide +kernel, rfl, rfl, fun hnumbers => ?_⟩
  have htext := hnumbers.2 issuers ⟨_, List.mem_singleton_self _, rfl, by simp⟩ rfl
  cases htext

end DealSql
