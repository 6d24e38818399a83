import DealSql.Proofs.CheckedFields
import DealSql.Schema.Catalog.Standard
import Mathlib.Data.Multiset.MapFold

/-!
# Catalogs in any order

A catalog is a document in which the sources, the fields of a source, the
functions and the levels stand in some order.  What is found for a source, a
field or a level does not depend on it, because a catalog that repeats a source
or a field is refused, and a level is only asked for.  A function may be listed
again, and then the first of its entries counts: another order of such a
catalog may find another entry, and a calculation that is refused in one order
may be accepted in another.

* `repetition?_order`, `source?_order`, `field?_order`, `hasLevel_order` — what
  is the same in any order.
* `faultsWith_eq_of_alike` — what a check asks a catalog for.
* `order_irrelevant_iff` — when functions and checks are the same in any order.
-/

namespace DealSql

/-- What the entry of a source says, the order of its fields aside. -/
def SourceEntry.content (m : SourceEntry) : Source × String × String × Multiset FieldEntry :=
  (m.source, m.label, m.description, m.fields)

namespace Catalog

variable {c d : Catalog} {s : Source} {name : String}

/-- Two catalogs list the same in any order. -/
structure SameEntries (c d : Catalog) : Prop where
  sources : (c.sources.map SourceEntry.content).Perm (d.sources.map SourceEntry.content)
  functions : c.functions.Perm d.functions
  levels : c.levels.Perm d.levels

/-- A catalog with its functions in another order lists the same. -/
theorem sameEntries_functions {es : List FunctionEntry} (h : c.functions.Perm es) :
    c.SameEntries { c with functions := es } :=
  ⟨.refl _, h, .refl _⟩

/-! ## What is the same in any order -/

/-- The sources of two catalogs that list the same. -/
theorem SameEntries.keys (h : c.SameEntries d) :
    (c.sources.map SourceEntry.source).Perm (d.sources.map SourceEntry.source) := by
  simpa [List.map_map, Function.comp_def, SourceEntry.content] using h.sources.map Prod.fst

/-- The entry of the one catalog says what an entry of the other does. -/
theorem SameEntries.exists_content (h : c.SameEntries d) {m : SourceEntry} (hm : m ∈ d.sources) :
    ∃ m' ∈ c.sources, m'.content = m.content := by
  have hcontent : m.content ∈ c.sources.map SourceEntry.content :=
    h.sources.mem_iff.2 (List.mem_map_of_mem hm)
  simpa using hcontent

/-- In any order, a catalog that repeats nothing repeats nothing. -/
theorem repetition?_order (h : c.SameEntries d) (hc : c.repetition? = none) :
    d.repetition? = none := by
  obtain ⟨hsources, hfields⟩ := repetition?_eq_none_iff.1 hc
  refine repetition?_eq_none_iff.2 ⟨h.keys.nodup_iff.1 hsources, fun m hm => ?_⟩
  obtain ⟨m', hm', hcontent⟩ := h.exists_content hm
  have hperm : m'.fields.Perm m.fields := by
    simp only [SourceEntry.content, Prod.mk.injEq, Multiset.coe_eq_coe] at hcontent
    exact hcontent.2.2.2
  exact (hperm.map FieldEntry.name).nodup_iff.1 (hfields m' hm')

/-- A source is looked up by what its entries say. -/
theorem map_content_source? (c : Catalog) (s : Source) :
    (c.source? s).map SourceEntry.content =
      (c.sources.map SourceEntry.content).find? fun x => x.1 == s := by
  rw [List.find?_map]
  rfl

/-- **Sources**: in any order, the entry that is found says the same. -/
theorem source?_order (h : c.SameEntries d) (hc : c.repetition? = none) (s : Source) :
    (c.source? s).map SourceEntry.content = (d.source? s).map SourceEntry.content := by
  have hkeys : ((c.sources.map SourceEntry.content).map Prod.fst).Nodup := by
    simpa [List.map_map, Function.comp_def, SourceEntry.content] using
      (repetition?_eq_none_iff.1 hc).1
  rw [map_content_source?, map_content_source?]
  exact find?_eq_of_perm h.sources (agreeByKey_of_nodup hkeys) s

/-- The fields of a source are the same in any order. -/
theorem perm_fields_order (h : c.SameEntries d) (hc : c.repetition? = none) (s : Source) :
    (c.fields s).Perm (d.fields s) := by
  have hfound := source?_order h hc s
  unfold fields
  cases hm : c.source? s with
  | none =>
    cases hm' : d.source? s with
    | none => exact .refl _
    | some m' => simp [hm, hm'] at hfound
  | some m =>
    cases hm' : d.source? s with
    | none => simp [hm, hm'] at hfound
    | some m' =>
      simp only [hm, hm', Option.map_some, Option.some.injEq, SourceEntry.content, Prod.mk.injEq,
        Multiset.coe_eq_coe] at hfound
      exact hfound.2.2.2

/-- **Fields**: in any order, the same entry is found. -/
theorem field?_order (h : c.SameEntries d) (hc : c.repetition? = none) (s : Source)
    (name : String) : c.field? s name = d.field? s name :=
  find?_eq_of_perm (perm_fields_order h hc s) (agreeByKey_of_nodup (nodup_fields hc s)) name

/-- **Levels**: in any order, the same ones are listed. -/
theorem hasLevel_order (h : c.SameEntries d) (l : Level) : c.hasLevel l = d.hasLevel l :=
  h.levels.any_eq

end Catalog

/-! ## What a check asks for -/

/-- The catalog lists a field without numbers that a calculation can name: one
whose name is not blank and has no blanks at its ends. -/
def Catalog.HasPlainField (c : Catalog) : Prop :=
  ∃ s e, c.HasField s e ∧ e.type.isNumeric = false ∧ ∃ t, given? t = some e.name

namespace Calculation

open Catalog

variable {parser : Review.Parser} {c d : Catalog} {e : FieldEntry} {f : Function} {a : Aggregation}

/-- A check asks a catalog for the fields, for the sources and levels, and
whether the function of an aggregation wants numbers of its field. -/
theorem faultsWith_eq_of_alike (h : c.SameEntries d) (hc : c.repetition? = none)
    (hvalue : ∀ (a : Aggregation) (name : String), a.field? = some name →
      fieldFaults c a.source (numericFunction? c a) name =
        fieldFaults c a.source (numericFunction? d a) name)
    (x : Calculation) : x.faultsWith parser c = x.faultsWith parser d := by
  have hsource : ∀ s, (c.source? s).isNone = (d.source? s).isNone := fun s => by
    simpa using congrArg Option.isNone (source?_order h hc s)
  have hfield : ∀ s numbersFor name,
      fieldFaults c s numbersFor name = fieldFaults d s numbersFor name := fun s numbersFor name => by
    simp only [fieldFaults, field?_order h hc]
  have haggregation : ∀ a, aggregationFaults c a = aggregationFaults d a := fun a => by
    have hweight : weightFaults c a = weightFaults d a := by simp only [weightFaults, hfield]
    unfold aggregationFaults
    rw [hsource, hweight]
    cases hname : a.field? with
    | none => rfl
    | some name => simp only [hvalue a name hname, hfield]
  unfold faultsWith
  rw [hasLevel_order h]
  cases x with
  | aggregation a => simp only [haggregation]
  | field f => simp only [reportedFieldFaults, hsource, hfield]
  | custom s => rfl

/-- With other functions, the check of an aggregation of a field without
numbers is the same only if its function wants numbers as before. -/
theorem asksNumbers_of_faultsWith_eq {es : List FunctionEntry}
    (hfield : c.field? a.source e.name = some e) (hplain : e.type.isNumeric = false)
    (hname : a.field? = some e.name) (hfunction : a.function = some f)
    (hsame : (Calculation.aggregation a).faultsWith parser c =
      (Calculation.aggregation a).faultsWith parser { c with functions := es }) :
    c.asksNumbers f = ({ c with functions := es } : Catalog).asksNumbers f := by
  have hfield' : ({ c with functions := es } : Catalog).field? a.source e.name = some e := hfield
  have hwhole : aggregationFaults c a = aggregationFaults { c with functions := es } a := by
    unfold faultsWith at hsame
    exact List.append_cancel_left hsame
  rw [aggregationFaults_eq hname hfield, aggregationFaults_eq hname hfield'] at hwhole
  have hvalue := List.append_cancel_left (List.append_cancel_right hwhole)
  rw [fieldFaults_of_not_isNumeric hfield hplain, fieldFaults_of_not_isNumeric hfield' hplain,
    numericFunction?_eq hfunction, numericFunction?_eq hfunction] at hvalue
  cases hasks : c.asksNumbers f <;>
    cases hasks' : ({ c with functions := es } : Catalog).asksNumbers f <;> simp_all

end Calculation

/-! ## What depends on the order -/

namespace Catalog

variable {c d : Catalog}

/-- Each entry of a function is found when the functions stand in some order. -/
theorem exists_function?_eq {a : FunctionEntry} (ha : a ∈ c.functions) :
    ∃ es, c.SameEntries { c with functions := es } ∧
      ({ c with functions := es } : Catalog).function? a.function = some a := by
  obtain ⟨es, hes, hfind⟩ := exists_perm_find? FunctionEntry.function ha
  exact ⟨es, sameEntries_functions hes, hfind⟩

/-- **Functions**: the same entries are found in any order exactly when no
function has two different ones. -/
theorem function?_order_iff :
    (∀ d, c.SameEntries d → ∀ f, c.function? f = d.function? f) ↔
      ∀ a ∈ c.functions, ∀ b ∈ c.functions, a.function = b.function → a = b := by
  constructor
  · intro h
    refine (find?_perm_iff FunctionEntry.function id c.functions).1 fun es hes f => ?_
    rw [Option.map_id, id_eq, id_eq]
    exact h _ (sameEntries_functions hes) f
  · intro hagree d hd f
    have hsame : AgreeByKey FunctionEntry.function id c.functions := hagree
    exact find?_eq_of_perm hd.functions hsame f

/-- Where the entries of a function agree on whether it wants numbers, any
order gives the same answer. -/
theorem asksNumbers_order (h : c.SameEntries d)
    (hagree : AgreeByKey FunctionEntry.function FunctionEntry.numericOnly c.functions)
    (f : Function) : c.asksNumbers f = d.asksNumbers f := by
  have hfound := congrArg (Option.any id) (find?_of_perm h.functions hagree f)
  simpa [asksNumbers, function?, Option.any_map] using hfound

/-- **Checks**: they find the same faults in any order exactly when the entries
of a function agree on whether it wants numbers, or every field that a
calculation can name has them. -/
theorem faultsWith_order_iff (parser : Review.Parser) (hc : c.repetition? = none) :
    (∀ d, c.SameEntries d → ∀ x : Calculation, x.faultsWith parser c = x.faultsWith parser d) ↔
      (c.HasPlainField → ∀ a ∈ c.functions, ∀ b ∈ c.functions,
        a.function = b.function → a.numericOnly = b.numericOnly) := by
  constructor
  · rintro h ⟨s, e, hentry, hplain, t, ht⟩
    have hfield := (field?_eq_some_iff hc).2 ⟨hentry, rfl⟩
    -- an aggregation of the field shows which entry is found
    have hshown : ∀ a ∈ c.functions, c.asksNumbers a.function = a.numericOnly := by
      intro a ha
      obtain ⟨es, hes, hfind⟩ := exists_function?_eq ha
      let x : Aggregation :=
        { name := "", description := "", source := s, sourceField := t
          function := some a.function, weightField := none, level := .deal }
      rw [Calculation.asksNumbers_of_faultsWith_eq (a := x) hfield hplain ht rfl (h _ hes _),
        asksNumbers, hfind, Option.any_some]
    intro a ha b hb hkey
    rw [← hshown a ha, hkey, hshown b hb]
  · intro hagree d hd
    refine Calculation.faultsWith_eq_of_alike hd hc fun a name hname => ?_
    cases hfield : c.field? a.source name with
    | none => simp [Calculation.fieldFaults, hfield]
    | some e =>
      by_cases hnumeric : e.type.isNumeric = true
      · rw [Calculation.fieldFaults_of_isNumeric hfield hnumeric,
          Calculation.fieldFaults_of_isNumeric hfield hnumeric]
      · obtain ⟨hentry, rfl⟩ := (field?_eq_some_iff hc).1 hfield
        have hplain : c.HasPlainField :=
          ⟨a.source, e, hentry, by simpa using hnumeric, a.sourceField, hname⟩
        cases hfunction : a.function with
        | none => simp [Calculation.numericFunction?, hfunction]
        | some f =>
          rw [Calculation.numericFunction?_eq hfunction, Calculation.numericFunction?_eq hfunction,
            asksNumbers_order hd (hagree hplain)]

/-- **What is the same in any order.**  A catalog that repeats nothing repeats
nothing in any order, and sources, fields and levels are found alike.
Functions are found alike in every order exactly when no function has two
different entries, and checks find the same faults in every order exactly when
the entries of a function agree on whether it wants numbers, or every field
that a calculation can name has them. -/
theorem order_irrelevant_iff (parser : Review.Parser) (hc : c.repetition? = none) :
    (∀ d, c.SameEntries d → d.repetition? = none ∧
      (∀ s, (c.source? s).map SourceEntry.content = (d.source? s).map SourceEntry.content) ∧
      (∀ s name, c.field? s name = d.field? s name) ∧
      ∀ l, c.hasLevel l = d.hasLevel l) ∧
    ((∀ d, c.SameEntries d → ∀ f, c.function? f = d.function? f) ↔
      ∀ a ∈ c.functions, ∀ b ∈ c.functions, a.function = b.function → a = b) ∧
    ((∀ d, c.SameEntries d → ∀ x : Calculation, x.faultsWith parser c = x.faultsWith parser d) ↔
      (c.HasPlainField → ∀ a ∈ c.functions, ∀ b ∈ c.functions,
        a.function = b.function → a.numericOnly = b.numericOnly)) :=
  ⟨fun _ hd => ⟨repetition?_order hd hc, source?_order hd hc, field?_order hd hc,
    hasLevel_order hd⟩, function?_order_iff, faultsWith_order_iff parser hc⟩

/-- The standard catalog may be written in any order. -/
theorem standard_order : standard.repetition? = none ∧
    ∀ d, standard.SameEntries d → (∀ f, standard.function? f = d.function? f) ∧
      ∀ x : Calculation, x.faults standard = x.faults d := by
  have hc := repetition?_standard
  obtain ⟨-, hfunctions, hfaults⟩ := order_irrelevant_iff .standard hc
  have hagree : ∀ a ∈ standard.functions, ∀ b ∈ standard.functions,
      a.function = b.function → a = b := by decide
  refine ⟨hc, fun d hd => ⟨hfunctions.2 hagree d hd, hfaults.2 ?_ d hd⟩⟩
  intro _ a ha b hb hkey
  rw [hagree a ha b hb hkey]

/-- A catalog that lists the sum twice, once for numbers and once for any
field. -/
def sumTwice (first second : Bool) : Catalog :=
  { sources := [deals]
    functions := [unweighted .sum "Sum" "" first, unweighted .sum "Sum" "" second]
    levels := [{ level := .deal, label := "Deal Level", description := "" }] }

/-- The sum of the issuers, which are no numbers. -/
def issuerSum : Aggregation :=
  { name := "Issuers"
    description := ""
    source := .deal
    sourceField := some "issr_cde"
    function := some .sum
    weightField := none
    level := .deal }

/-- Of the two entries of the sum the first counts: the sum of the issuers is
accepted in one order and refused in the other. -/
theorem sumTwice_order :
    (sumTwice false true).repetition? = none ∧ (sumTwice true false).repetition? = none ∧
      (sumTwice false true).SameEntries (sumTwice true false) ∧
      (sumTwice false true).function? .sum ≠ (sumTwice true false).function? .sum ∧
      (Calculation.aggregation issuerSum).faults (sumTwice false true) = [] ∧
      (Calculation.aggregation issuerSum).faults (sumTwice true false) =
        [.nonNumericField .sum .deal "issr_cde"] := by
  have hlist : (sumTwice false true).SameEntries (sumTwice true false) :=
    sameEntries_functions (.swap _ _ _)
  exact ⟨by decide, by decide, hlist, by decide, by decide +kernel, by decide +kernel⟩

end Catalog

end DealSql
