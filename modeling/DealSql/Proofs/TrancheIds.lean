import DealSql.Proofs.AlikeValues
import DealSql.Proofs.SubstitutionMask
import DealSql.Proofs.TemplateLexemes
import DealSql.Proofs.TransparentValues
import DealSql.Proofs.ValidStatements

/-!
# The reach of tranche identifiers

Two executions have the same shape when they differ only in the identifiers
of their tranches.  Filling a statement for both succeeds for both or fails
for both alike, and where the conditions on tranches stand in plain code the
two results differ only inside literals.

Placeholders are found in literals and in quoted names too.  There the
quotes of the condition close what is open, so that the identifier stands in
the code or in a name, and some two executions of the same shape tell the
difference: the lexemes of the longer identifier weigh more.

* `substitute_alike` — identifiers stay in literals.
* `lexemes_independent_iff` — exactly where the lexemes do not depend on
  them.
-/

namespace DealSql

open DealSql.Text DealSql.Statement DealSql.Sql

/-- Executions that differ only in the identifiers of their tranches. -/
structure Execution.SameShape (x y : Execution) : Prop where
  anchor : x.anchor = y.anchor
  deals : List.Forall₂ DealSelection.SameShape x.deals y.deals

namespace Placeholder

variable {d : Dialect} {x y : Execution} {sql : List Char} {u : Template} {a : Place}
  {f f' : Placeholder → List Char} {n n' : Nesting}

/-- Outcomes that are related statements, or the same error. -/
def Agree (R : List Char → List Char → Prop) :
    Except SubstitutionError (List Char) → Except SubstitutionError (List Char) → Prop
  | .ok out, .ok out' => R out out'
  | .error e, .error e' => e = e'
  | _, _ => False

/-! ## Executions of the same shape -/

/-- Selections of the same shape have the same deals. -/
theorem dealNumbers_eq (h : x.SameShape y) : x.dealNumbers = y.dealNumbers := by
  have hnumbers : List.Forall₂ Eq x.dealNumbers y.dealNumbers := by
    rw [Execution.dealNumbers, Execution.dealNumbers, List.forall₂_map_left_iff,
      List.forall₂_map_right_iff]
    exact h.deals.imp fun _ _ hselection => hselection.dealNumber
  rwa [List.forall₂_eq_eq_eq] at hnumbers

theorem isEmpty_eq (h : x.SameShape y) : x.deals.isEmpty = y.deals.isEmpty := by
  rw [Bool.eq_iff_iff, List.isEmpty_iff_length_eq_zero, List.isEmpty_iff_length_eq_zero,
    h.deals.length_eq]

/-- What stands for no tranches depends on the shape only. -/
theorem value_eq (h : x.SameShape y) {p : Placeholder} (hp : p ≠ .dealTrancheFilter) :
    value d x p = value d y p := by
  have hcycle : ∀ months, cycleText x months = cycleText y months := by
    intro months
    rw [cycleText, cycleText, h.anchor]
  cases p with
  | dealTrancheFilter => exact absurd rfl hp
  | currentCycle => exact hcycle 0
  | previousCycle => exact hcycle 1
  | earlierCycle k => exact hcycle (k.val + 2)
  | dealFilter => simp only [value, ifSelected, isEmpty_eq h, dealNumbers_eq h]
  | dealNumbers => simp only [value, ifSelected, isEmpty_eq h, dealNumbers_eq h]

/-- Whether placeholders have values depends on the shape only. -/
theorem firstError?_eq (h : x.SameShape y) (ps : List Placeholder) :
    firstError? d x ps = firstError? d y ps := by
  unfold firstError?
  congr 1
  funext p
  by_cases hp : p = .dealTrancheFilter
  · subst hp
    simp only [value, ifSelected, isEmpty_eq h]
    cases y.deals.isEmpty <;> rfl
  · rw [value_eq h hp]

/-- Filling succeeds for both executions of a shape, or fails alike. -/
theorem substitute_agree (hxy : x.SameShape y) {R : List Char → List Char → Prop}
    (h : ∀ out out', substitute d x sql = .ok out → substitute d y sql = .ok out' → R out out') :
    Agree R (substitute d x sql) (substitute d y sql) := by
  unfold substitute at h ⊢
  dsimp only at h ⊢
  split at h
  · next hclean =>
    rw [if_pos hclean, if_pos hclean]
    rfl
  · next hclean =>
    rw [if_neg hclean, if_neg hclean]
    rw [firstError?_eq hxy] at h ⊢
    split at h
    · rfl
    · exact h _ _ rfl rfl

/-! ## Plain code -/

/-- A position in the code, and in no quoted name either. -/
def InPlainCode (sql : List Char) (position : Nat) : Prop :=
  roleAt position (marks sql) = some .code ∧ (nestingAt position sql).name = none

/-- The conditions on tranches of a statement stand in plain code. -/
def FiltersInPlainCode (sql : List Char) : Prop :=
  ∀ o ∈ (scan sql).occurrences, o.placeholder = .dealTrancheFilter → InPlainCode sql o.start

/-- The conditions on tranches stand in plain code when they do so in the template. -/
theorem filtersInPlainCode_iff (hu : IsTemplateOf u sql) :
    FiltersInPlainCode sql ↔
      u.Within (fun a p => p = .dealTrancheFilter → a.InCode) .start := by
  have hiff := hu.forall_occurrences_iff
    (R := fun r n p => p = .dealTrancheFilter → r = some .code ∧ n.name = none)
  refine hiff.trans ⟨fun h => ?_, fun h => ?_⟩
  · refine (h.and hu.steady).imp fun a p _ hplace hp => ?_
    obtain ⟨hplace, ha⟩ := hplace
    obtain ⟨hrole, hname⟩ := hplace hp
    exact ⟨ha.region.eq_code (Option.some.inj hrole), hname⟩
  · refine h.imp fun a p _ hplace hp => ?_
    obtain ⟨hregion, hname⟩ := hplace hp
    rw [hregion]
    exact ⟨rfl, hname⟩

/-- What is shown of a filled statement is what is shown of its template. -/
theorem maskLiterals_fill (hu : IsTemplateOf u sql)
    (h : u.Within (fun a p => a.region.Keeps (f p)) .start) :
    maskLiterals (fill f sql) = u.shown f .code := by
  rw [Template.shown, ← hu.marks_fill h]
  rfl

/-! ## Identifiers in literals -/

/-- Conditions on tranches are alike in plain code. -/
theorem alike_filter (hd : d ≠ .tsql) (hxy : x.SameShape y) (ha : a.InCode)
    {v v' : List Char} (h : value d x .dealTrancheFilter = .ok v)
    (h' : value d y .dealTrancheFilter = .ok v') :
    Alike a.nesting (a.shown v) (a.shown v') ∧ a.nesting.after true (a.shown v) = a.nesting := by
  obtain ⟨g, ⟨depth, name⟩⟩ := a
  obtain ⟨rfl, rfl⟩ := ha
  obtain ⟨-, rfl⟩ := ifSelected_eq_ok h
  obtain ⟨-, rfl⟩ := ifSelected_eq_ok h'
  have halike := alike_selectionCondition hd hxy.deals
  have hshown : ∀ z : Execution, maskFrom .commentsAndLiterals .code
      ((selectionCondition z.deals).write d) =
        shownFragments d (selectionCondition z.deals).fragments :=
    fun z => (areOfCondition_selectionCondition z).piecewise.maskFrom_eq
  simp only [Place.shown, hshown]
  exact ⟨halike.alike depth, halike.balanced depth⟩

/-- **Identifiers stay in literals** when the conditions on tranches stand in
plain code. -/
theorem substitute_alike (hd : d ≠ .tsql) (hxy : x.SameShape y) (hplain : FiltersInPlainCode sql)
    {out out' : List Char} (h : substitute d x sql = .ok out)
    (h' : substitute d y sql = .ok out') :
    Alike ⟨0, none⟩ (maskLiterals out) (maskLiterals out') := by
  obtain ⟨hclean, -, rfl⟩ := substitute_eq_ok h
  obtain ⟨-, -, rfl⟩ := substitute_eq_ok h'
  obtain ⟨u, hu⟩ := exists_template_of_clean hclean
  have hplaces := ((filtersInPlainCode_iff hu).1 hplain).and hu.steady
  have hkeeps : ∀ z : Execution,
      (∀ p ∈ u.holes, value d z p = .ok (written d z p)) →
      u.Within (fun a p => a.region.Keeps (written d z p)) .start := by
    intro z hz
    refine hplaces.imp fun a p hp hplace => ?_
    obtain ⟨hcode, ha⟩ := hplace
    by_cases hfilter : p = .dealTrancheFilter
    · rw [(hcode hfilter).1]
      exact (value_keeps (hz p hp)).2
    · exact (transparent_value hd hfilter (hz p hp)).keeps _ ha.region
  have hvalue := fun p hp => value_of_mem_holes hu h (p := p) hp
  have hvalue' := fun p hp => value_of_mem_holes hu h' (p := p) hp
  rw [maskLiterals_fill hu (hkeeps x hvalue), maskLiterals_fill hu (hkeeps y hvalue')]
  refine Template.alike_shown (a := .start) (hplaces.imp fun a p hp hplace => ?_)
  obtain ⟨hcode, ha⟩ := hplace
  by_cases hfilter : p = .dealTrancheFilter
  · subst hfilter
    exact alike_filter hd hxy (hcode rfl) (hvalue _ hp) (hvalue' _ hp)
  · have hsame : written d x p = written d y p := by rw [written, written, value_eq hxy hfilter]
    rw [← hsame]
    exact ⟨.same _ _, (transparent_value hd hfilter (hvalue p hp)).nesting a ha⟩

/-! ## Identifiers in the code -/

/-- An execution for one tranche. -/
def oneTranche (id : String) : Execution :=
  ⟨⟨2025, 6, by omega, by omega, by omega, by omega⟩, [⟨1, some [id]⟩]⟩

/-- The condition on one tranche. -/
def oneTrancheFilter (id : String) : List Char :=
  "((\"deal\".\"dl_nbr\" = 1 AND \"tranche\".\"tr_id\" IN ('".toList ++ id.toList ++ "')))".toList

/-- Executions for one tranche have the same shape. -/
theorem sameShape_oneTranche (id id' : String) : (oneTranche id).SameShape (oneTranche id') :=
  ⟨rfl, .cons ⟨rfl, rfl⟩ .nil⟩

/-- An execution for one tranche gives every placeholder a value. -/
theorem value_oneTranche (d : Dialect) (id : String) (p : Placeholder) :
    value d (oneTranche id) p = .ok (written d (oneTranche id) p) := by
  have hok : ∃ v, value d (oneTranche id) p = .ok v := by
    refine exists_value_iff.2 ⟨fun _ => List.cons_ne_nil _ _, fun k hk => ?_⟩
    have hyear : 12 ≤ (oneTranche id).anchor.index := by
      simp only [oneTranche, Cycle.index]
      omega
    exact Nat.le_trans (cycleOffset?_le hk) hyear
  obtain ⟨v, hv⟩ := hok
  rw [written, hv]
  rfl

theorem written_oneTranche (hd : d ≠ .tsql) :
    written d (oneTranche "A") .dealTrancheFilter = oneTrancheFilter "A" ∧
      written d (oneTranche "AA") .dealTrancheFilter = oneTrancheFilter "AA" := by
  cases d with
  | tsql => exact absurd rfl hd
  | _ => decide

/-- Every steady region is kept by the condition on one tranche. -/
theorem keeps_oneTrancheFilter {g : Region} (hg : g.Steady) :
    g.Keeps (oneTrancheFilter "A") ∧ g.Keeps (oneTrancheFilter "AA") := by
  rcases hg with rfl | rfl | rfl
  all_goals exact ⟨⟨by decide, by decide, by decide, by decide⟩,
    ⟨by decide, by decide, by decide, by decide⟩⟩

/-- The longer identifier weighs more outside plain code. -/
theorem heavier_oneTrancheFilter (ha : a.Steady) :
    a.Heavier (oneTrancheFilter "A") (oneTrancheFilter "AA") ∧
      (a.nesting.weight (a.shown (oneTrancheFilter "A")) =
        a.nesting.weight (a.shown (oneTrancheFilter "AA")) → a.InCode) := by
  obtain ⟨g, n⟩ := a
  obtain ⟨hg, hn⟩ := ha
  have hplace : ∀ name, name = none ∨ name = some '"' ∨ name = some ']' →
      (Place.Heavier ⟨g, ⟨0, name⟩⟩ (oneTrancheFilter "A") (oneTrancheFilter "AA")) ∧
        (Nesting.weight ⟨0, name⟩ (maskFrom .commentsAndLiterals g (oneTrancheFilter "A")) =
          Nesting.weight ⟨0, name⟩ (maskFrom .commentsAndLiterals g (oneTrancheFilter "AA")) →
            g = .code ∧ name = none) := by
    intro name hname
    rcases hg with rfl | rfl | rfl <;> rcases hname with rfl | rfl | rfl
    all_goals exact ⟨⟨by decide, by decide, by decide⟩, by decide⟩
  obtain ⟨hheavier, hsame⟩ := hplace n.name hn
  have hname : ∀ s, (n.after true s).name = (Nesting.after true ⟨0, n.name⟩ s).name :=
    Nesting.after_name_eq rfl
  have hweight : ∀ s, n.weight s = Nesting.weight ⟨0, n.name⟩ s := Nesting.weight_eq rfl
  refine ⟨⟨?_, ?_, ?_⟩, ?_⟩
  · rw [hname]
    exact hheavier.returns
  · rw [hname]
    exact hheavier.returns'
  · rw [hweight, hweight]
    exact hheavier.weight
  · rw [hweight, hweight]
    exact hsame

/-- An execution for one tranche fills every statement whose placeholders are right. -/
theorem substitute_oneTranche (hclean : (scan sql).isClean = true) (id : String) :
    substitute d (oneTranche id) sql = .ok (fill (written d (oneTranche id)) sql) := by
  have hfirst : firstError? d (oneTranche id) (scan sql).placeholders = none := by
    refine List.findSome?_eq_none_iff.2 fun p _ => ?_
    rw [value_oneTranche]
  simp only [substitute, hclean, hfirst]
  rfl

theorem transparent_oneTranche (hd : d ≠ .tsql) (id : String) {p : Placeholder}
    (hp : p ≠ .dealTrancheFilter) : Transparent (written d (oneTranche id) p) :=
  transparent_value hd hp (value_oneTranche d id p)

/-- The values for either tranche keep every place. -/
theorem keeps_oneTranche (hd : d ≠ .tsql) (ha : a.Steady) (p : Placeholder) :
    a.region.Keeps (written d (oneTranche "A") p) ∧
      a.region.Keeps (written d (oneTranche "AA") p) := by
  by_cases hp : p = .dealTrancheFilter
  · subst hp
    obtain ⟨hshort, hlong⟩ := written_oneTranche hd
    rw [hshort, hlong]
    exact keeps_oneTrancheFilter ha.region
  · exact ⟨(transparent_oneTranche hd "A" hp).keeps _ ha.region,
      (transparent_oneTranche hd "AA" hp).keeps _ ha.region⟩

/-- The values for the longer identifier weigh no less anywhere. -/
theorem heavier_oneTranche (hd : d ≠ .tsql) (ha : a.Steady) (p : Placeholder) :
    a.Heavier (written d (oneTranche "A") p) (written d (oneTranche "AA") p) := by
  by_cases hp : p = .dealTrancheFilter
  · subst hp
    obtain ⟨hshort, hlong⟩ := written_oneTranche hd
    rw [hshort, hlong]
    exact (heavier_oneTrancheFilter ha).1
  · have hsame : written d (oneTranche "AA") p = written d (oneTranche "A") p := by
      rw [written, written, value_eq (sameShape_oneTranche "AA" "A") hp]
    have hreturns := congrArg Nesting.name ((transparent_oneTranche hd "A" hp).nesting a ha)
    rw [hsame]
    exact ⟨hreturns, hreturns, Nat.le_refl _⟩

/-- Statements with the same kinds and depths of lexemes, literals masked. -/
def SameOutline (out out' : List Char) : Prop :=
  outline (Review.structuralLexemes out) = outline (Review.structuralLexemes out')

/-- Where the lexemes tell no two executions apart, the conditions on
tranches stand in plain code. -/
theorem filtersInPlainCode_of_agree (hd : d ≠ .tsql) (hclean : (scan sql).isClean = true)
    (h : Agree SameOutline (substitute d (oneTranche "A") sql)
      (substitute d (oneTranche "AA") sql)) : FiltersInPlainCode sql := by
  obtain ⟨u, hu⟩ := exists_template_of_clean hclean
  have hshort := maskLiterals_fill hu (hu.steady.imp fun a p _ ha => (keeps_oneTranche hd ha p).1)
  have hlong := maskLiterals_fill hu (hu.steady.imp fun a p _ ha => (keeps_oneTranche hd ha p).2)
  rw [substitute_oneTranche hclean, substitute_oneTranche hclean, Agree, SameOutline,
    Review.structuralLexemes, Review.structuralLexemes, lexemes, lexemes, hshort, hlong] at h
  -- the same lexemes weigh the same, so every value weighs the same in its place
  have hweight := congrArg outlineWeight h
  rw [weight_lexFrom, weight_lexFrom] at hweight
  have hheavier := hu.steady.imp fun a p _ ha => heavier_oneTranche hd ha p
  have hplaces := (Template.weight_shown hheavier rfl rfl).2 hweight
  refine (filtersInPlainCode_iff hu).2 ((hplaces.and hu.steady).imp fun a p _ hplace hp => ?_)
  obtain ⟨hsame, ha⟩ := hplace
  subst hp
  obtain ⟨hfilter, hfilter'⟩ := written_oneTranche hd
  rw [hfilter, hfilter'] at hsame
  exact (heavier_oneTrancheFilter ha).2 hsame

/-! ## Valid statements -/

/-- **The lexemes do not depend on the identifiers of tranches** exactly when
the conditions on tranches stand in plain code; the results then differ only
in how long their literals are.  It is enough that the statement is valid as
some parser reads it. -/
theorem lexemes_independent_iff (parser : Review.Parser) (d : Dialect) (hd : d ≠ .tsql)
    (sql : List Char) (level : Level) (column : String)
    (h : (Review.reviewWith parser .standard sql level column).isValid = true) :
    ((∀ x y, x.SameShape y → Agree SameOutline (substitute d x sql) (substitute d y sql)) ↔
      FiltersInPlainCode sql) ∧
    (FiltersInPlainCode sql → ∀ x y, x.SameShape y →
      Agree (fun out out' => Alike ⟨0, none⟩ (maskLiterals out) (maskLiterals out'))
        (substitute d x sql) (substitute d y sql)) := by
  refine ⟨⟨fun hagree => ?_, fun hplain x y hxy => ?_⟩, fun hplain x y hxy => ?_⟩
  · exact filtersInPlainCode_of_agree hd (isClean_of_isValid h)
      (hagree _ _ (sameShape_oneTranche "A" "AA"))
  · exact substitute_agree hxy fun out out' hout hout' =>
      (substitute_alike hd hxy hplain hout hout').outline_eq rfl 0 0
  · exact substitute_agree hxy fun out out' hout hout' =>
      substitute_alike hd hxy hplain hout hout'

/-- A statement with a condition on tranches in a literal. -/
def filterInLiteral : List Char :=
  "SELECT deal.dl_nbr, '\x7bdeal_tranche_filter\x7d' AS x FROM deal".toList

/-- The statement is valid, and an identifier in it is read as code. -/
theorem filterInLiteral_exposed :
    (Review.review .standard filterInLiteral .deal "x").isValid = true ∧
      (oneTranche "A").SameShape (oneTranche "A B") ∧
      ∃ out out', substitute .postgres (oneTranche "A") filterInLiteral = .ok out ∧
        substitute .postgres (oneTranche "A B") filterInLiteral = .ok out' ∧
        outline (Review.structuralLexemes out) ≠ outline (Review.structuralLexemes out') := by
  have hissues : (Review.review .standard filterInLiteral .deal "x").issues = [] := by
    decide +kernel
  refine ⟨by simp [Review.Verdict.isValid, hissues], sameShape_oneTranche "A" "A B",
    "SELECT deal.dl_nbr, '".toList ++ oneTrancheFilter "A" ++ "' AS x FROM deal".toList,
    "SELECT deal.dl_nbr, '".toList ++ oneTrancheFilter "A B" ++ "' AS x FROM deal".toList,
    ?_, ?_, ?_⟩
  all_goals decide +kernel

/-- A statement with a condition on tranches in plain code. -/
def filterInCode : List Char :=
  ("SELECT deal.dl_nbr, '\x7bdeal_filter\x7d' AS x FROM deal " ++
    "WHERE \x7bdeal_tranche_filter\x7d").toList

/-- The lexemes are those of any other execution of the same shape. -/
theorem filterInCode_independent :
    (Review.review .standard filterInCode .deal "x").isValid = true ∧
      ∀ x y, x.SameShape y →
        Agree SameOutline (substitute .duckdb x filterInCode)
          (substitute .duckdb y filterInCode) := by
  have hissues : (Review.review .standard filterInCode .deal "x").issues = [] := by decide +kernel
  have hvalid : (Review.review .standard filterInCode .deal "x").isValid = true := by
    simp [Review.Verdict.isValid, hissues]
  have hplain : FiltersInPlainCode filterInCode := by
    unfold FiltersInPlainCode InPlainCode
    decide +kernel
  obtain ⟨hiff, -⟩ :=
    lexemes_independent_iff .standard .duckdb (by decide) filterInCode .deal "x" hvalid
  exact ⟨hvalid, hiff.2 hplain⟩

end Placeholder

end DealSql
