import DealSql.Calculation.Data
import DealSql.Execution.Data
import DealSql.Proofs.Cycles
import DealSql.Proofs.PrintedJson

/-!
# Stored calculations and executions

A calculation is stored with all its parts, those that are missing as null, and
an execution with the code of its cycle.  Both are read back as they were, from
the data and from the text in which the data are printed, whatever characters
their names and statements have.

What data define may be written in other ways as well: parts left out, an array
in place of an object, members that do not matter.  Storing it brings it into
the one form in which it is read back.

* `Calculation.ofJson?_toJson` — a calculation is read back.
* `Execution.ofJson?_toJson` — an execution is read back.
* `stored_values_read_back` — both, from their texts too.
-/

namespace DealSql

open DealSql.Text

/-! ## Members -/

namespace Json.Members

variable {ms : Json.Members} {key : String} {v : Json}

/-- What a member holds is found when no other has its key. -/
theorem find_of_mem (hkeys : (ms.map Prod.fst).Nodup) (h : (key, v) ∈ ms) :
    ms.find key = some (some v) := by
  have hfilter : ms.filter (fun m => m.1 == key) = [(key, v)] := by
    induction ms with
    | nil => cases h
    | cons m r ih =>
      rw [List.map_cons, List.nodup_cons] at hkeys
      obtain ⟨hfirst, hrest⟩ := hkeys
      rcases List.mem_cons.1 h with rfl | hmem
      · have hnone : r.filter (fun m => m.1 == key) = [] := by
          rw [List.filter_eq_nil_iff]
          intro m hm heq
          exact hfirst (by simpa [← beq_iff_eq.1 heq] using ⟨m.2, hm⟩)
        rw [List.filter_cons, if_pos (beq_self_eq_true key), hnone]
      · have hne : ¬ (m.1 == key) = true := by
          intro heq
          exact hfirst (by simpa [beq_iff_eq.1 heq] using ⟨v, hmem⟩)
        rw [List.filter_cons, if_neg hne, ih hrest hmem]
  rw [find, hfilter]

/-- A required member is found. -/
theorem require_of_mem (hkeys : (ms.map Prod.fst).Nodup) (h : (key, v) ∈ ms) :
    ms.require key = some v := by
  rw [require, find_of_mem hkeys h]
  rfl

/-- A required string is found. -/
theorem string_of_mem {s : String} (hkeys : (ms.map Prod.fst).Nodup) (h : (key, .string s) ∈ ms) :
    ms.string key = some s := by
  rw [string, require_of_mem hkeys h]
  rfl

/-- A member with a default is found. -/
theorem orElse_of_mem {α : Type} {read : Json → Option α} {default : α}
    (hkeys : (ms.map Prod.fst).Nodup) (h : (key, v) ∈ ms) :
    ms.orElse key read default = read v := by
  rw [orElse, find_of_mem hkeys h]
  rfl

/-- A value that may be missing is found, when null is written only for a missing one. -/
theorem optional_of_mem {α : Type} {read : Json → Option α} {write : α → Json}
    (hread : ∀ a, read (write a) = some a) (hnull : ∀ a, write a ≠ .null) (o : Option α)
    (hkeys : (ms.map Prod.fst).Nodup) (h : (key, (o.map write).getD .null) ∈ ms) :
    ms.optional key read = some o := by
  rw [optional, find_of_mem hkeys h]
  cases o with
  | none => rfl
  | some a =>
    simp only [Option.map_some, Option.getD_some, Option.bind_some]
    split
    · next heq => cases heq
    · next heq => exact absurd (Option.some.inj heq) (hnull a)
    · next heq =>
      cases heq
      rw [hread]
      rfl

/-- A string that may be missing is found. -/
theorem optional_string_of_mem (o : Option String) (hkeys : (ms.map Prod.fst).Nodup)
    (h : (key, .ofOption o) ∈ ms) : ms.optional key Json.string? = some o := by
  have hwrite : Json.ofOption o = (o.map Json.string).getD .null := by cases o <;> rfl
  have hread : ∀ t : String, Json.string? (.string t) = some t := fun _ => rfl
  have hnull : ∀ t : String, Json.string t ≠ .null := fun _ => Json.noConfusion
  rw [hwrite] at h
  exact optional_of_mem hread hnull o hkeys h

end Json.Members

/-! ## Calculations -/

namespace Calculation

open Json.Members

theorem part?_source (s : Source) : part? Source.ofName? s.toJson = some s := by
  cases s <;> decide

theorem part?_level (l : Level) : part? Level.ofName? l.toJson = some l := by
  cases l <;> decide

theorem part?_function (f : Function) : part? Function.ofName? f.toJson = some f := by
  cases f <;> decide

/-- An aggregation is read back. -/
theorem ofJson?_aggregation (a : Aggregation) :
    ofJson? (toJson (.aggregation a)) = some (.aggregation a) := by
  let ms : Json.Members := [("kind", .string "user_aggregation"), ("name", .string a.name),
    ("description", .string a.description), ("source_model", a.source.toJson),
    ("source_field", .ofOption a.sourceField),
    ("aggregation_function", (a.function.map Function.toJson).getD .null),
    ("weight_field", .ofOption a.weightField), ("group_level", a.level.toJson)]
  have hkeys : (ms.map Prod.fst).Nodup := by simp [ms]
  have hkind : ms.string "kind" = some "user_aggregation" := string_of_mem hkeys (by simp [ms])
  have hname : ms.string "name" = some a.name := string_of_mem hkeys (by simp [ms])
  have hdescription : ms.stringOrEmpty "description" = some a.description :=
    orElse_of_mem (v := .string a.description) hkeys (by simp [ms])
  have hsource : ms.require "source_model" = some a.source.toJson :=
    require_of_mem hkeys (by simp [ms])
  have hfield : ms.optional "source_field" Json.string? = some a.sourceField :=
    optional_string_of_mem _ hkeys (by simp [ms])
  have hfunction : ms.optional "aggregation_function" (part? Function.ofName?) = some a.function :=
    optional_of_mem part?_function (fun _ => Json.noConfusion) _ hkeys (by simp [ms])
  have hweight : ms.optional "weight_field" Json.string? = some a.weightField :=
    optional_string_of_mem _ hkeys (by simp [ms])
  have hlevel : ms.require "group_level" = some a.level.toJson :=
    require_of_mem hkeys (by simp [ms])
  have hparts : aggregationOf? ms = some (.aggregation a) := by
    simp [aggregationOf?, hname, hdescription, hsource, hfield, hfunction, hweight, hlevel,
      part?_source, part?_level]
  change ofJson? (.object ms) = _
  rw [ofJson?, kindAndParts?, hkind]
  exact hparts

/-- A reported field is read back. -/
theorem ofJson?_field (f : ReportedField) :
    ofJson? (toJson (.field f)) = some (.field f) := by
  let ms : Json.Members := [("kind", .string "system_field"), ("name", .string f.name),
    ("source_model", f.source.toJson), ("source_field", .ofOption f.sourceField),
    ("group_level", f.level.toJson)]
  have hkeys : (ms.map Prod.fst).Nodup := by simp [ms]
  have hkind : ms.string "kind" = some "system_field" := string_of_mem hkeys (by simp [ms])
  have hname : ms.string "name" = some f.name := string_of_mem hkeys (by simp [ms])
  have hsource : ms.require "source_model" = some f.source.toJson :=
    require_of_mem hkeys (by simp [ms])
  have hfield : ms.optional "source_field" Json.string? = some f.sourceField :=
    optional_string_of_mem _ hkeys (by simp [ms])
  have hlevel : ms.require "group_level" = some f.level.toJson :=
    require_of_mem hkeys (by simp [ms])
  have hparts : fieldOf? ms = some (.field f) := by
    simp [fieldOf?, hname, hsource, hfield, hlevel, part?_source, part?_level]
  change ofJson? (.object ms) = _
  rw [ofJson?, kindAndParts?, hkind]
  exact hparts

/-- A statement is read back. -/
theorem ofJson?_custom (s : CustomSql) :
    ofJson? (toJson (.custom s)) = some (.custom s) := by
  let ms : Json.Members := [("kind", .string "system_sql"), ("name", .string s.name),
    ("description", .string s.description), ("raw_sql", .string s.sql),
    ("result_column_name", .string s.resultColumn), ("group_level", s.level.toJson)]
  have hkeys : (ms.map Prod.fst).Nodup := by simp [ms]
  have hkind : ms.string "kind" = some "system_sql" := string_of_mem hkeys (by simp [ms])
  have hname : ms.string "name" = some s.name := string_of_mem hkeys (by simp [ms])
  have hdescription : ms.stringOrEmpty "description" = some s.description :=
    orElse_of_mem (v := .string s.description) hkeys (by simp [ms])
  have hsql : ms.string "raw_sql" = some s.sql := string_of_mem hkeys (by simp [ms])
  have hcolumn : ms.string "result_column_name" = some s.resultColumn :=
    string_of_mem hkeys (by simp [ms])
  have hlevel : ms.require "group_level" = some s.level.toJson :=
    require_of_mem hkeys (by simp [ms])
  have hparts : customOf? ms = some (.custom s) := by
    simp [customOf?, hname, hdescription, hsql, hcolumn, hlevel, part?_level]
  change ofJson? (.object ms) = _
  rw [ofJson?, kindAndParts?, hkind]
  exact hparts

/-- **A calculation is read back.** -/
theorem ofJson?_toJson : ∀ c : Calculation, ofJson? c.toJson = some c
  | .aggregation a => ofJson?_aggregation a
  | .field f => ofJson?_field f
  | .custom s => ofJson?_custom s

/-- What is stored of a calculation is no deeper than one object. -/
theorem fits_toJson (c : Calculation) : c.toJson.fits Json.maxDepth = true := by
  have hoption : ∀ (d : Nat) (o : Option String), (Json.ofOption o).fits d = true := by
    intro d o
    cases o <;> rfl
  cases c with
  | aggregation a =>
    have hfunction : ∀ d, ((a.function.map Function.toJson).getD .null).fits d = true := by
      intro d
      cases a.function <;> rfl
    simp [toJson, Json.fits, Json.membersFit, hoption, hfunction, Source.toJson, Level.toJson,
      Json.maxDepth]
  | field f =>
    simp [toJson, Json.fits, Json.membersFit, hoption, Source.toJson, Level.toJson, Json.maxDepth]
  | custom s => simp [toJson, Json.fits, Json.membersFit, Level.toJson, Json.maxDepth]

end Calculation

/-! ## Executions -/

/-- A list of values is read back when each of them is. -/
theorem Json.listOf?_map {α : Type} {read : Json → Option α} {write : α → Json} {xs : List α}
    (h : ∀ x ∈ xs, read (write x) = some x) :
    Json.listOf? read (.array (xs.map write)) = some xs := by
  change (xs.map write).mapM read = some xs
  induction xs with
  | nil => rfl
  | cons x xs ih =>
    obtain ⟨hx, hxs⟩ := List.forall_mem_cons.1 h
    rw [List.map_cons, List.mapM_cons, hx, ih hxs]
    rfl

/-- Whether the numbers of all selected deals are integers of 64 bits. -/
def Execution.IsStorable (x : Execution) : Prop := ∀ s ∈ x.deals, fitsInt64 s.dealNumber = true

instance (x : Execution) : Decidable x.IsStorable :=
  inferInstanceAs (Decidable (∀ s ∈ x.deals, fitsInt64 s.dealNumber = true))

open Json.Members

/-- A selection is read back. -/
theorem DealSelection.ofJson?_toJson {s : DealSelection} (h : fitsInt64 s.dealNumber = true) :
    DealSelection.ofJson? s.toJson = some s := by
  let ms : Json.Members := [("deal_number", .integer s.dealNumber),
    ("tranche_ids", (s.trancheIds.map Json.strings).getD .null)]
  have hkeys : (ms.map Prod.fst).Nodup := by simp [ms]
  have hnumber : ms.require "deal_number" = some (.integer s.dealNumber) :=
    require_of_mem hkeys (by simp [ms])
  have hstrings : ∀ xs : List String, Json.strings? (Json.strings xs) = some xs := fun xs =>
    Json.listOf?_map fun _ _ => rfl
  have htranches : ms.optional "tranche_ids" Json.strings? = some s.trancheIds :=
    optional_of_mem hstrings (fun _ => Json.noConfusion) _ hkeys (by simp [ms])
  change DealSelection.ofJson? (.object ms) = _
  simp [DealSelection.ofJson?, Json.record?, hnumber, htranches, Json.int64?, h]

/-- **An execution is read back.** -/
theorem Execution.ofJson?_toJson {x : Execution} (h : x.IsStorable) :
    Execution.ofJson? x.toJson = some x := by
  let ms : Json.Members := [("anchor_cycle", .integer x.anchor.code),
    ("deals", .array (x.deals.map DealSelection.toJson))]
  have hkeys : (ms.map Prod.fst).Nodup := by simp [ms]
  have hcode : ms.require "anchor_cycle" = some (.integer x.anchor.code) :=
    require_of_mem hkeys (by simp [ms])
  have hdeals : ms.orElse "deals" (Json.listOf? DealSelection.ofJson?) [] = some x.deals := by
    rw [orElse_of_mem (v := .array (x.deals.map DealSelection.toJson)) hkeys (by simp [ms])]
    exact Json.listOf?_map fun s hs => DealSelection.ofJson?_toJson (h s hs)
  change Execution.ofJson? (.object ms) = _
  simp [Execution.ofJson?, Json.record?, hcode, hdeals, Json.int64?, Cycle.fitsInt64_code,
    Cycle.ofCode_code, Except.toOption]

/-- Values read as a list have each been read from an item. -/
theorem Json.exists_of_listOf? {α : Type} {read : Json → Option α} {v : Json} {xs : List α}
    (h : Json.listOf? read v = some xs) : ∀ x ∈ xs, ∃ w, read w = some x := by
  obtain ⟨vs, -, hvs⟩ := Option.bind_eq_some_iff.1 h
  clear h
  induction vs generalizing xs with
  | nil =>
    cases hvs
    simp
  | cons w vs ih =>
    rw [List.mapM_cons] at hvs
    obtain ⟨x, hx, hrest⟩ := Option.bind_eq_some_iff.1 hvs
    obtain ⟨xs, hxs, heq⟩ := Option.bind_eq_some_iff.1 hrest
    cases heq
    exact List.forall_mem_cons.2 ⟨⟨w, hx⟩, ih hxs⟩

/-- The number of a selection that was read is an integer of 64 bits. -/
theorem DealSelection.fitsInt64_of_ofJson? {v : Json} {s : DealSelection}
    (h : DealSelection.ofJson? v = some s) : fitsInt64 s.dealNumber = true := by
  obtain ⟨ms, -, hparts⟩ := Option.bind_eq_some_iff.1 h
  obtain ⟨w, -, hparts⟩ := Option.bind_eq_some_iff.1 hparts
  obtain ⟨n, hn, hparts⟩ := Option.bind_eq_some_iff.1 hparts
  obtain ⟨ids, -, heq⟩ := Option.bind_eq_some_iff.1 hparts
  cases heq
  cases w with
  | integer k =>
    rw [Json.int64?] at hn
    split at hn
    · next hfits =>
      cases hn
      exact hfits
    · cases hn
  | _ => cases hn

/-- What was read as an execution can be stored. -/
theorem Execution.isStorable_of_ofJson? {v : Json} {x : Execution}
    (h : Execution.ofJson? v = some x) : x.IsStorable := by
  obtain ⟨ms, -, hparts⟩ := Option.bind_eq_some_iff.1 h
  obtain ⟨w, -, hparts⟩ := Option.bind_eq_some_iff.1 hparts
  obtain ⟨code, -, hparts⟩ := Option.bind_eq_some_iff.1 hparts
  obtain ⟨anchor, -, hparts⟩ := Option.bind_eq_some_iff.1 hparts
  obtain ⟨deals, hdeals, heq⟩ := Option.bind_eq_some_iff.1 hparts
  cases heq
  obtain ⟨d, -, hread⟩ := Option.bind_eq_some_iff.1 hdeals
  intro s hs
  cases d with
  | none =>
    cases hread
    cases hs
  | some d =>
    obtain ⟨u, hu⟩ := Json.exists_of_listOf? hread s hs
    exact DealSelection.fitsInt64_of_ofJson? hu

/-- What is stored of an execution is an object with an array of objects. -/
theorem Execution.fits_toJson (x : Execution) : x.toJson.fits Json.maxDepth = true := by
  have hids : ∀ s : DealSelection,
      ((s.trancheIds.map Json.strings).getD .null).fits 124 = true := by
    intro s
    cases s.trancheIds with
    | none => rfl
    | some ids => simp [Json.strings, Json.fits, Json.itemsFit_iff]
  simp [toJson, Json.fits, Json.membersFit, Json.maxDepth, Json.itemsFit_iff, DealSelection.toJson,
    hids]

/-- **What is stored is read back**: every calculation, and every execution whose
deals have numbers of 64 bits, from its data and from the text of its data; and
so is whatever data define, once it has been stored. -/
theorem stored_values_read_back :
    (∀ c : Calculation, Calculation.ofJson? c.toJson = some c ∧
      (Json.read? c.toJson.pretty.toList).bind Calculation.ofJson? = some c) ∧
    (∀ x : Execution, x.IsStorable → Execution.ofJson? x.toJson = some x ∧
      (Json.read? x.toJson.pretty.toList).bind Execution.ofJson? = some x) ∧
    (∀ v c, Calculation.ofJson? v = some c → Calculation.ofJson? c.toJson = some c ∧
      (Json.read? c.toJson.pretty.toList).bind Calculation.ofJson? = some c) ∧
    ∀ v x, Execution.ofJson? v = some x → Execution.ofJson? x.toJson = some x ∧
      (Json.read? x.toJson.pretty.toList).bind Execution.ofJson? = some x := by
  have htext : ∀ v : Json, v.fits Json.maxDepth = true → Json.read? v.pretty.toList = some v := by
    intro v hv
    rw [Json.pretty, String.toList_ofList, Json.read?_print hv]
  have hcalculation : ∀ c : Calculation, Calculation.ofJson? c.toJson = some c ∧
      (Json.read? c.toJson.pretty.toList).bind Calculation.ofJson? = some c := by
    intro c
    have hread := c.ofJson?_toJson
    exact ⟨hread, by rw [htext _ c.fits_toJson, Option.bind_some, hread]⟩
  have hexecution : ∀ x : Execution, x.IsStorable → Execution.ofJson? x.toJson = some x ∧
      (Json.read? x.toJson.pretty.toList).bind Execution.ofJson? = some x := by
    intro x hx
    have hread := x.ofJson?_toJson hx
    exact ⟨hread, by rw [htext _ x.fits_toJson, Option.bind_some, hread]⟩
  exact ⟨hcalculation, hexecution, fun _ c _ => hcalculation c,
    fun _ x h => hexecution x (Execution.isStorable_of_ofJson? h)⟩

/-- An execution with the least number that there is and tranches whose names have
quotes and control characters, a statement without a description, and an
execution without deals. -/
theorem stored_execution_read_back :
    let x : Execution := ⟨.ofIndex 0 (by decide),
      [⟨-9223372036854775808, none⟩, ⟨101, some ["A\"\\\n\x01é", ""]⟩]⟩
    let v : Json := .object [("raw_sql", .string "SELECT 1"), ("kind", .string "system_sql"),
      ("group_level", .string "deal"), ("name", .string "n"), ("result_column_name", .string "r")]
    let c : Calculation := .custom ⟨"n", "", "SELECT 1", "r", .deal⟩
    let w : Json := .object [("anchor_cycle", .integer 101)]
    let y : Execution := ⟨.ofIndex 0 (by decide), []⟩
    (x.IsStorable ∧ Execution.ofJson? x.toJson = some x ∧
      (Json.read? x.toJson.pretty.toList).bind Execution.ofJson? = some x) ∧
    (Calculation.ofJson? v = some c ∧ Calculation.ofJson? c.toJson = some c ∧
      (Json.read? c.toJson.pretty.toList).bind Calculation.ofJson? = some c) ∧
    Execution.ofJson? w = some y ∧ Execution.ofJson? y.toJson = some y ∧
      (Json.read? y.toJson.pretty.toList).bind Execution.ofJson? = some y := by
  intro x v c w y
  have hx : x.IsStorable := by decide
  have hv : Calculation.ofJson? v = some c := by decide
  have hw : Execution.ofJson? w = some y := by decide
  exact ⟨⟨hx, stored_values_read_back.2.1 x hx⟩, ⟨hv, stored_values_read_back.2.2.1 v c hv⟩,
    hw, stored_values_read_back.2.2.2 w y hw⟩

end DealSql
