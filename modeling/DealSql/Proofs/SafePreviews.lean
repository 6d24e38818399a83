import DealSql.Proofs.PreviewScope
import DealSql.Proofs.ResultNames
import DealSql.Proofs.SafeQueries

/-!
# Safe previews

A preview takes from its calculation and its sample the names of a field and
of weights, the identifiers of tranches and the name of the result.  Where
these are plain names and no reserved words, the preview is a safe query,
and each of its items can be told from the others.

* `isSafe_queryOf` — a preview is a safe query.
* `isItem_of_contained` — its items keep their commas in parentheses.
-/

namespace DealSql.Preview

open DealSql.Text DealSql.Statement DealSql.Sql DealSql.Review

variable {o : Options} {c : Calculation} {s : Source} {l : Level} {j : Joins} {d : Dialect}
  {measure : Expr} {depth : Nat}

/-- A name of ASCII that is no reserved word. -/
def IsPlainName (w : List Char) : Prop := IsName w ∧ isOneOf w reservedWords = false

instance (w : List Char) : Decidable (IsPlainName w) := inferInstanceAs (Decidable (_ ∧ _))

/-- An identifier of letters and digits that is no reserved word. -/
def IsPlainId (w : List Char) : Prop :=
  (∀ c ∈ w, c.isAlphanum = true) ∧ isOneOf w reservedWords = false

instance (w : List Char) : Decidable (IsPlainId w) := inferInstanceAs (Decidable (_ ∧ _))

/-- What a preview takes from elsewhere is plain. -/
structure PlainNames (o : Options) (c : Calculation) : Prop where
  field : ∀ f ∈ c.field?, IsPlainName f.toList
  weight : ∀ w ∈ c.weight?, IsPlainName w.toList
  tranches : ∀ t ∈ o.tranches, IsPlainId t.toList
  result : isOneOf (resultColumn c.name.toList) reservedWords = false

/-! ## The parts of a preview -/

/-- What a calculation reports: a column as it is, a function of one, or an
average with weights. -/
theorem measure_cases (h : c.measure? = some measure) : ∃ s f, c.source? = some s ∧
    c.field? = some f ∧ (measure = Columns.column s f ∨
      (∃ function : Function, measure = .apply function.name [Columns.column s f]) ∨
      ∃ w, c.weight? = some w ∧ measure = (Computation.weighted f w).expr s) := by
  cases c with
  | custom _ => cases h
  | field r =>
    obtain ⟨f, hf, rfl⟩ := Option.map_eq_some_iff.1 h
    exact ⟨r.source, f, rfl, hf, Or.inl rfl⟩
  | aggregation a =>
    rw [Calculation.measure?, aggregate?_eq] at h
    obtain ⟨computation, hcomputation, rfl⟩ := Option.map_eq_some_iff.1 h
    cases computation with
    | plain function f =>
      have hfield : a.field? = some f := by
        cases hfield : a.field? with
        | none => simp [computation?, hfield] at hcomputation
        | some f' =>
          cases hfunction : a.function with
          | none => simp [computation?, hfield, hfunction] at hcomputation
          | some function' =>
            cases function' <;> cases hweight : a.weight? <;>
              simp_all [computation?, Function.requiresWeight]
      exact ⟨a.source, f, rfl, hfield, Or.inr (Or.inl ⟨function, rfl⟩)⟩
    | weighted f w =>
      obtain ⟨hfield, hweight⟩ := computation?_weighted hcomputation
      exact ⟨a.source, f, rfl, hfield, Or.inr (Or.inr ⟨w, hweight, rfl⟩)⟩

/-- The names of the columns by which tables are joined and reports are grouped. -/
def keyNames : List String := [Columns.dealNumberName, Columns.trancheIdName, Columns.cycleName]

theorem isPlainName_keyNames : ∀ name ∈ keyNames, IsPlainName name.toList := by decide

/-- The keys of a report are columns. -/
theorem mem_keys {e : Expr} (h : e ∈ j.keys l) :
    ∃ s, ∃ name ∈ keyNames, e = Columns.column s name := by
  have hmem : e ∈ [Columns.dealNumber, Columns.trancheId, Columns.cycle] := by
    simp only [Joins.keys, List.mem_append] at h
    grind
  simp only [List.mem_cons, List.not_mem_nil, or_false] at hmem
  rcases hmem with rfl | rfl | rfl
  · exact ⟨.deal, Columns.dealNumberName, by decide, rfl⟩
  · exact ⟨.tranche, Columns.trancheIdName, by decide, rfl⟩
  · exact ⟨.trancheBal, Columns.cycleName, by decide, rfl⟩

/-! ## Safe expressions -/

/-- A plain name is safe as an identifier. -/
theorem isSafe_identifier {name : String} (h : IsPlainName name.toList) :
    (Fragment.identifier name).IsSafe :=
  ⟨h.1, by simpa [Fragment.names] using h.2, by simp⟩

theorem isSafe_table (s : Source) : (Fragment.identifier s.table).IsSafe := by
  cases s <;> decide

/-- A column with a plain name. -/
theorem isSafe_column {name : String} (h : IsPlainName name.toList) :
    (Columns.column s name).IsSafe := by
  refine Expr.isSafe_of_components ?_ (by simp [Columns.column, Expr.ofTable, Expr.components])
  intro f hf
  simp only [Columns.column, Expr.ofTable, Expr.ownFragments, Option.toList_some, List.map_cons,
    List.map_nil, List.cons_append, List.nil_append, List.mem_cons, List.not_mem_nil,
    or_false] at hf
  rcases hf with rfl | rfl
  · exact isSafe_table s
  · exact isSafe_identifier h

theorem isSafe_keyColumn {name : String} (h : name ∈ keyNames) : (Columns.column s name).IsSafe :=
  isSafe_column (isPlainName_keyNames name h)

/-- What a calculation with plain names reports. -/
theorem isSafe_measure (h : PlainNames o c) (hmeasure : c.measure? = some measure) :
    measure.IsSafe := by
  obtain ⟨s, field, -, hfield, hcases⟩ := measure_cases hmeasure
  have hvalue : (Columns.column s field).IsSafe := isSafe_column (h.field field hfield)
  rcases hcases with rfl | ⟨function, rfl⟩ | ⟨w, hw, rfl⟩
  · exact hvalue
  · exact Expr.isSafe_call (by cases function <;> decide) (by simpa using hvalue)
  · have hweight : (Columns.column s w).IsSafe := isSafe_column (h.weight w hw)
    have hsum : ∀ e : Expr, e.IsSafe → (Expr.apply "SUM" [e]).IsSafe :=
      fun e he => Expr.isSafe_call (by decide) (by simpa using he)
    refine Expr.isSafe_binary (hsum _ (Expr.isSafe_binary hvalue hweight)) ?_
    refine Expr.isSafe_call (by decide) ?_
    simpa using ⟨hsum _ hweight, Expr.isSafe_int 0⟩

/-- The condition that two tables agree on a key. -/
theorem isSafe_agree {a b : Source} {name : String} (h : name ∈ keyNames) :
    (agree a b name).IsSafe := Expr.isSafe_binary (isSafe_keyColumn h) (isSafe_keyColumn h)

/-- The conditions that restrict a preview to its sample. -/
theorem isSafe_sampleConditions (h : PlainNames o c) :
    ∀ e ∈ sampleConditions j o, e.IsSafe := by
  have hkey : ∀ s, ∀ name ∈ keyNames, (Columns.column s name).IsSafe :=
    fun s name hname => isSafe_keyColumn hname
  have hdeals : (dealCondition o.deals).IsSafe := by
    refine Expr.isSafe_member (hkey .deal _ (by decide)) fun v hv => ?_
    obtain ⟨n, -, rfl⟩ := List.mem_map.1 hv
    exact Expr.isSafe_int n
  have htranches : (trancheCondition o.tranches).IsSafe := by
    refine Expr.isSafe_member (hkey .tranche _ (by decide)) fun v hv => ?_
    obtain ⟨t, ht, rfl⟩ := List.mem_map.1 hv
    obtain ⟨halnum, hreserved⟩ := h.tranches t ht
    exact Expr.isSafe_literal
      ⟨halnum, by simpa [Literal.fragment, Fragment.names] using hreserved,
        by simp [Literal.fragment]⟩
  have hcycle : ∀ n, (Columns.cycle.equals (.int n)).IsSafe := fun n =>
    Expr.isSafe_binary (hkey .trancheBal _ (by decide)) (Expr.isSafe_int n)
  intro e he
  simp only [sampleConditions, List.mem_append] at he
  rcases he with (he | he) | he
  · split at he
    · cases he
    · obtain rfl := List.mem_singleton.1 he
      exact hdeals
  · split at he
    · obtain rfl := List.mem_singleton.1 he
      exact htranches
    · cases he
  · split at he
    · split at he
      · obtain rfl := List.mem_singleton.1 he
        exact hcycle _
      · cases he
    · cases he

/-- A conjunction is safe when its conditions are. -/
theorem isSafe_conjunction {es : List Expr} {e : Expr} (h : ∀ c ∈ es, c.IsSafe)
    (he : conjunction? es = some e) : e.IsSafe := by
  have hfold : ∀ (fs : List Expr) (a : Expr), a.IsSafe → (∀ c ∈ fs, c.IsSafe) →
      (fs.foldl Expr.and a).IsSafe := by
    intro fs
    induction fs with
    | nil => exact fun a ha _ => ha
    | cons f fs ih =>
      intro a ha hfs
      exact ih (a.and f) (Expr.isSafe_binary ha (hfs f List.mem_cons_self))
        fun c hc => hfs c (List.mem_cons_of_mem f hc)
  cases es with
  | nil => cases he
  | cons a fs =>
    obtain rfl := Option.some.inj he
    exact hfold fs a (h a List.mem_cons_self) fun c hc => h c (List.mem_cons_of_mem a hc)

/-- **A preview is a safe query.** -/
theorem isSafe_queryOf (h : PlainNames o c) (hmeasure : measure.IsSafe) (grouped : Bool) :
    (queryOf c.name s l measure grouped o).IsSafe := by
  have hkeys : ∀ e ∈ (Joins.forSource s l).keys l, e.IsSafe := by
    intro e he
    obtain ⟨t, name, hname, rfl⟩ := mem_keys he
    exact isSafe_keyColumn hname
  rw [queryOf_eq]
  constructor
  · intro i hi
    rcases List.mem_append.1 hi with hi | hi
    · obtain ⟨e, he, rfl⟩ := List.mem_map.1 hi
      exact fun f hf => hkeys e he f (by simpa [SelectItem.fragments] using hf)
    · obtain rfl := List.mem_singleton.1 hi
      have hlabel : (Fragment.identifier (String.ofList (resultColumn c.name.toList))).IsSafe :=
        isSafe_identifier ⟨by simpa using isName_resultColumn _, by simpa using h.result⟩
      intro f hf
      rcases List.mem_append.1 hf with hf | hf
      · exact hmeasure f hf
      · simp only [List.mem_cons, List.not_mem_nil, or_false] at hf
        rcases hf with rfl | rfl | rfl | rfl
        · decide
        · decide
        · decide
        · exact hlabel
  · intro t ht
    obtain rfl : Source.deal.table = t := Option.some.inj ht
    exact isSafe_table .deal
  · intro x hx
    have hfirst : trancheJoin.condition.IsSafe := isSafe_agree (by decide)
    have hsecond : balanceJoin.condition.IsSafe :=
      Expr.isSafe_binary (isSafe_agree (by decide)) (isSafe_agree (by decide))
    have hmem : x ∈ [trancheJoin, balanceJoin] := by
      simp only [joinList_eq, List.mem_append] at hx
      grind
    simp only [List.mem_cons, List.not_mem_nil, or_false] at hmem
    rcases hmem with rfl | rfl
    · exact ⟨isSafe_table .tranche, hfirst⟩
    · exact ⟨isSafe_table .trancheBal, hsecond⟩
  · exact fun e he => isSafe_conjunction (isSafe_sampleConditions h) he
  · intro e he
    cases grouped with
    | true => exact hkeys e he
    | false => cases he

/-! ## Items -/

/-- The lexemes of a column. -/
theorem lexemes_column (name : String) : lexemesOf d depth (Columns.column s name).fragments =
    [⟨.word s.table.toList, 0, depth⟩, ⟨.punct '.', 0, depth⟩, ⟨.word name.toList, 0, depth⟩] := rfl

/-- An item whose lexemes keep their commas in parentheses. -/
def Contained (d : Dialect) (fs : List Fragment) : Prop :=
  depthAfter 0 fs = 0 ∧ ∀ l ∈ lexemesOf d 0 fs, separatesItems l = false

theorem contained_column (name : String) : Contained d (Columns.column s name).fragments := by
  refine ⟨rfl, ?_⟩
  rw [lexemes_column]
  simp [separatesItems, Lexeme.isPunct]

/-- The commas of what is reported stand in parentheses. -/
theorem contained_measure (h : c.measure? = some measure) : Contained d measure.fragments := by
  obtain ⟨s, field, -, -, hcases⟩ := measure_cases h
  rcases hcases with rfl | ⟨function, rfl⟩ | ⟨w, -, rfl⟩
  · exact contained_column field
  · refine ⟨rfl, ?_⟩
    have hlexemes : lexemesOf d 0 (Expr.apply function.name [Columns.column s field]).fragments =
        ⟨.word (upper function.name.toList), 0, 0⟩ :: ⟨.punct '(', 0, 0⟩ ::
          lexemesOf d 1 (Columns.column s field).fragments ++ [⟨.punct ')', 0, 0⟩] := rfl
    rw [hlexemes, lexemes_column]
    simp [separatesItems, Lexeme.isPunct]
  · refine ⟨rfl, ?_⟩
    simp [Computation.expr, Expr.apply, Expr.int, Columns.column, Expr.ofTable, Expr.fragments,
      Expr.fragmentsOfEach, commaSeparated, List.intercalate, qualifier, BinaryOp.fragment,
      Literal.fragment, lexemesOf, Fragment.lexemes, Fragment.depthAfter, Symbol.text,
      separatesItems, Lexeme.isPunct]

/-- Contained items with safe fragments are items. -/
theorem isItem_of_contained {fs : List Fragment} (hsafe : ∀ f ∈ fs, f.IsSafe)
    (h : Contained d fs) (hne : lexemesOf d 0 fs ≠ []) : IsItem (lexemesOf d 0 fs) := by
  refine ⟨hne, fun l hl => ⟨h.2 l hl, ?_⟩⟩
  have hfrom : l.isKeyword "FROM" = false := isKeyword_of_mem_lexemesOf hsafe hl (by decide)
  have hsemicolon : l.isPunct ';' = false := by
    obtain ⟨f, -, n, hl⟩ := mem_lexemesOf hl
    exact isPunct_semicolon hl
  simp [endsList, hfrom, hsemicolon]

/-- The items of a preview: its keys, and the result under its name. -/
def previewItems (j : Joins) (l : Level) (measure : Expr) (label : String) : List SelectItem :=
  (j.keys l).map (⟨·, none⟩) ++ [⟨measure, some label⟩]

/-- The lexemes of the result. -/
theorem lexemes_result (label : String) (h : Contained d measure.fragments) :
    lexemesOf d 0 (SelectItem.fragments ⟨measure, some label⟩) =
        lexemesOf d 0 measure.fragments ++ [keywordLexeme "AS" 0, ⟨.word label.toList, 0, 0⟩] ∧
      depthAfter 0 (SelectItem.fragments ⟨measure, some label⟩) = 0 := by
  rw [SelectItem.fragments, lexemesOf_append, depthAfter_append, h.1]
  exact ⟨rfl, rfl⟩

/-- The lexemes of a key. -/
theorem lexemes_key {name : String} :
    lexemesOf d 0 (SelectItem.fragments ⟨Columns.column s name, none⟩) =
      [⟨.word s.table.toList, 0, 0⟩, ⟨.punct '.', 0, 0⟩, ⟨.word name.toList, 0, 0⟩] := rfl

/-- **The items of a preview** are told from each other. -/
theorem contained_items (h : c.measure? = some measure) (label : String) :
    ∀ i ∈ previewItems j l measure label, Contained d i.fragments ∧
      lexemesOf d 0 i.fragments ≠ [] := by
  intro i hi
  rcases List.mem_append.1 hi with hi | hi
  · obtain ⟨e, he, rfl⟩ := List.mem_map.1 hi
    obtain ⟨t, name, -, rfl⟩ := mem_keys he
    have hcolumn : Contained d (Columns.column t name).fragments := contained_column name
    exact ⟨hcolumn, by rw [lexemes_key]; simp⟩
  · obtain rfl := List.mem_singleton.1 hi
    have hmeasure : Contained d measure.fragments := contained_measure h
    obtain ⟨hlexemes, hdepth⟩ := lexemes_result label hmeasure
    refine ⟨⟨hdepth, fun l hl => ?_⟩, by rw [hlexemes]; simp⟩
    rw [hlexemes] at hl
    rcases List.mem_append.1 hl with hl | hl
    · exact hmeasure.2 l hl
    · simp only [List.mem_cons, List.not_mem_nil, or_false] at hl
      rcases hl with rfl | rfl <;> rfl

end DealSql.Preview
