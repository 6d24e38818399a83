import DealSql.Placeholder.Substitution
import DealSql.Proofs.GroupedConditions

/-!
# The rows of selected deals

The condition on deals and tranches is written term by term, each in
parentheses, with nothing else to say what belongs together.  Read by the
precedence of SQL it groups as it was built: a row is taken when one of the
selections is of its deal and names its tranche, or names none.

* `dealTrancheFilter_holds_iff` — the rows that the written conditions take.
-/

namespace DealSql

open DealSql.Sql

/-! ## Rows -/

/-- The number of a deal, as an operand. -/
def dealOperand : Operand := .column (some Source.deal.table) Columns.dealNumberName

/-- The identifier of a tranche, as an operand. -/
def trancheOperand : Operand := .column (some Source.tranche.table) Columns.trancheIdName

variable {d : Dialect} {x : Execution} {row : Row} {a b : Literal} {s : DealSelection}
  {deals : List DealSelection}

/-- Values are equal when they are the same and not missing. -/
theorem compare?_eq_some_eq : a.compare? b = some .eq ↔ a = b ∧ b ≠ .null := by
  cases a <;> cases b <;> simp [Literal.compare?]

/-- Whether a selection takes a tranche of a deal: it names the deal, and the
tranche if it names any. -/
def DealSelection.Takes (s : DealSelection) (number : Int) (tranche : String) : Prop :=
  s.dealNumber = number ∧ ∀ ids, s.trancheIds = some ids → ids = [] ∨ tranche ∈ ids

theorem DealSelection.takes_iff {number : Int} {tranche : String} : s.Takes number tranche ↔
    s.dealNumber = number ∧ (s.tranches = [] ∨ tranche ∈ s.tranches) := by
  unfold Takes tranches
  cases s.trancheIds <;> simp

/-! ## Conditions as they group -/

/-- How the condition on the deal of a selection groups. -/
def DealSelection.groupedDeal (s : DealSelection) : Condition :=
  .test (.comparison dealOperand .eq (.literal (.integer s.dealNumber)))

/-- How the condition of a selection groups. -/
def DealSelection.grouped (s : DealSelection) : Condition :=
  if s.tranches = [] then s.groupedDeal
  else .both s.groupedDeal (.test (.membership trancheOperand (s.tranches.map .string)))

/-- How the condition on selected deals and tranches groups. -/
def groupedSelections : List DealSelection → Condition
  | [] => .test (.constant false)
  | s :: ss => (ss.map DealSelection.grouped).foldl .either s.grouped

/-- How the condition on deals groups. -/
def groupedNumbers (numbers : List Int) : Condition :=
  .test (.membership dealOperand (numbers.map .integer))

theorem readable_dealNumber : Readable d Columns.dealNumber.fragments :=
  dealOperand.readable (by simp [dealOperand])

theorem readable_trancheId : Readable d Columns.trancheId.fragments :=
  trancheOperand.readable (by simp [trancheOperand])

theorem isFactor_dealNumber (s : DealSelection) :
    IsFactor (Columns.dealNumber.equals (.int s.dealNumber)).fragments s.groupedDeal :=
  isFactor_comparison dealOperand .eq (.literal (.integer s.dealNumber))

theorem isFactor_trancheCondition {ids : List String} (h : ids ≠ []) :
    IsFactor (trancheCondition ids).fragments
      (.test (.membership trancheOperand (ids.map .string))) :=
  isFactor_membership trancheOperand .string h

theorem readable_trancheCondition (ids : List String) :
    Readable d (trancheCondition ids).fragments :=
  readable_membership trancheOperand .string readable_trancheId
    fun t _ => legible_string t

/-- The condition on deals is a factor. -/
theorem isFactor_dealCondition {numbers : List Int} (h : numbers ≠ []) :
    IsFactor (dealCondition numbers).fragments (groupedNumbers numbers) :=
  isFactor_membership dealOperand .integer h

theorem readable_dealCondition (numbers : List Int) :
    Readable d (dealCondition numbers).fragments :=
  readable_membership dealOperand .integer readable_dealNumber
    fun n _ => legible_integer n

/-- The condition of a selection is a factor. -/
theorem isFactor_condition (s : DealSelection) : IsFactor s.condition.fragments s.grouped := by
  have hdeal := isFactor_dealNumber s
  rw [DealSelection.condition, DealSelection.grouped, Expr.fragments]
  by_cases htranches : s.tranches = []
  · rw [if_pos htranches, if_pos (by simpa using htranches)]
    exact hdeal.isTerm.isWhole.paren
  · rw [if_neg htranches, if_neg (by simpa using htranches)]
    have hboth := hdeal.isTerm.and (isFactor_trancheCondition htranches)
    rw [Expr.and, Expr.fragments]
    exact hboth.isWhole.paren

theorem readable_condition (s : DealSelection) : Readable d s.condition.fragments := by
  have hdeal : Readable d (Columns.dealNumber.equals (.int s.dealNumber)).fragments :=
    readable_comparison (l := dealOperand) (r := .literal (.integer s.dealNumber)) .eq
      readable_dealNumber (Operand.readable _ (by simp))
  have hand : Legible d (.keyword .AND) := legible_word (by decide) fun b hb => by cases hb
  rw [DealSelection.condition, Expr.fragments]
  split
  · exact hdeal.paren
  · rw [Expr.and, Expr.fragments]
    exact (hdeal.around (readable_trancheCondition s.tranches) hand).paren

/-- A disjunction of factors is a whole. -/
theorem isWhole_foldl_or {e : Expr} {c : Condition} (he : IsWhole e.fragments c)
    (ss : List DealSelection) :
    IsWhole ((ss.map DealSelection.condition).foldl Expr.or e).fragments
      ((ss.map DealSelection.grouped).foldl .either c) := by
  induction ss generalizing e c with
  | nil => exact he
  | cons s ss ih =>
    refine ih ?_
    rw [Expr.or, Expr.fragments]
    exact he.or (isFactor_condition s).isTerm

theorem readable_foldl_or {e : Expr} (he : Readable d e.fragments) (ss : List DealSelection) :
    Readable d ((ss.map DealSelection.condition).foldl Expr.or e).fragments := by
  have hor : Legible d (.keyword .OR) := legible_word (by decide) fun b hb => by cases hb
  induction ss generalizing e with
  | nil => exact he
  | cons s ss ih =>
    refine ih ?_
    rw [Expr.or, Expr.fragments]
    exact he.around (readable_condition s) hor

/-- The condition on selected deals and tranches is a factor. -/
theorem isFactor_selectionCondition (deals : List DealSelection) :
    IsFactor (selectionCondition deals).fragments (groupedSelections deals) := by
  rw [selectionCondition, Expr.fragments]
  cases deals with
  | nil => exact (isFactor_isIn_nil Columns.dealNumber).isTerm.isWhole.paren
  | cons s ss => exact (isWhole_foldl_or (isFactor_condition s).isTerm.isWhole ss).paren

theorem readable_selectionCondition (deals : List DealSelection) :
    Readable d (selectionCondition deals).fragments := by
  rw [selectionCondition, Expr.fragments]
  cases deals with
  | nil => exact (readable_dealCondition []).paren
  | cons s ss => exact (readable_foldl_or (readable_condition s) ss).paren

/-! ## Rows of conditions -/

theorem holds_groupedDeal :
    s.groupedDeal.holds row = true ↔ dealOperand.value row = .integer s.dealNumber := by
  have heq : ∀ o : Option Ordering, o.any Comparison.eq.accepts = true ↔ o = some .eq := by
    rintro (_ | o)
    · decide
    · cases o <;> decide
  simp [DealSelection.groupedDeal, Condition.holds, Test.holds, heq, compare?_eq_some_eq,
    Operand.value]

theorem holds_grouped : s.grouped.holds row = true ↔
    dealOperand.value row = .integer s.dealNumber ∧
      (s.tranches = [] ∨ ∃ t ∈ s.tranches, trancheOperand.value row = .string t) := by
  unfold DealSelection.grouped
  by_cases htranches : s.tranches = []
  · simp [htranches, holds_groupedDeal]
  · have hdeal : s.groupedDeal.holds row = true ↔ _ := holds_groupedDeal
    simp [htranches, Condition.holds, hdeal, Test.holds, compare?_eq_some_eq]

/-- A disjunction holds when one of its terms does. -/
theorem holds_foldl_either {c : Condition} (cs : List Condition) :
    (cs.foldl .either c).holds row = true ↔ c.holds row = true ∨ ∃ e ∈ cs, e.holds row = true := by
  induction cs generalizing c with
  | nil => simp
  | cons e cs ih => simp [ih, Condition.holds, or_assoc]

theorem holds_groupedSelections : (groupedSelections deals).holds row = true ↔
    ∃ s ∈ deals, s.grouped.holds row = true := by
  cases deals with
  | nil => simp [groupedSelections, Condition.holds, Test.holds]
  | cons s ss => simp [groupedSelections, holds_foldl_either]

theorem holds_groupedNumbers {numbers : List Int} : (groupedNumbers numbers).holds row = true ↔
    ∃ n ∈ numbers, dealOperand.value row = .integer n := by
  simp [groupedNumbers, Condition.holds, Test.holds, compare?_eq_some_eq]

/-! ## Written conditions -/

/-- What the written condition on selected deals and tranches says. -/
theorem readCondition_dealTrancheFilter (h : x.deals ≠ []) :
    ∃ v, Placeholder.value d x .dealTrancheFilter = .ok v ∧
      readCondition d v = some (groupedSelections x.deals) := by
  refine ⟨(selectionCondition x.deals).write d, ?_, ?_⟩
  · simp [Placeholder.value, Placeholder.ifSelected, h]
  · exact readCondition_write (isFactor_selectionCondition x.deals).isTerm.isWhole
      (readable_selectionCondition x.deals)

/-- What the written condition on selected deals says. -/
theorem readCondition_dealFilter (h : x.deals ≠ []) :
    ∃ v, Placeholder.value d x .dealFilter = .ok v ∧
      readCondition d v = some (groupedNumbers x.dealNumbers) := by
  have hnumbers : x.dealNumbers ≠ [] := by simpa [Execution.dealNumbers] using h
  refine ⟨(dealCondition x.dealNumbers).write d, ?_, ?_⟩
  · simp [Placeholder.value, Placeholder.ifSelected, h]
  · exact readCondition_write (isFactor_dealCondition hnumbers).isTerm.isWhole
      (readable_dealCondition x.dealNumbers)

/-- **The rows that the written conditions take.**  Read by precedence, the
condition on deals and tranches is true of the rows of the selections; it
implies the condition on deals, and is equivalent to it where no selection
names a tranche. -/
theorem dealTrancheFilter_holds_iff (d : Dialect) (x : Execution) (h : x.deals ≠ []) :
    ∃ v w, Placeholder.value d x .dealTrancheFilter = .ok v ∧
      Placeholder.value d x .dealFilter = .ok w ∧
      ∃ c e, readCondition d v = some c ∧ readCondition d w = some e ∧
        (∀ row number tranche, dealOperand.value row = .integer number →
          trancheOperand.value row = .string tranche →
          (c.holds row = true ↔ ∃ s ∈ x.deals, s.Takes number tranche)) ∧
        (∀ row, c.holds row = true → e.holds row = true) ∧
        ((∀ s ∈ x.deals, s.tranches = []) → ∀ row, c.holds row = e.holds row) := by
  obtain ⟨v, hv, hc⟩ := readCondition_dealTrancheFilter (d := d) h
  obtain ⟨w, hw, he⟩ := readCondition_dealFilter (d := d) h
  have himplies : ∀ row, (groupedSelections x.deals).holds row = true →
      (groupedNumbers x.dealNumbers).holds row = true := by
    intro row hrow
    obtain ⟨s, hs, hrow⟩ := holds_groupedSelections.1 hrow
    exact holds_groupedNumbers.2 ⟨s.dealNumber, List.mem_map_of_mem hs, (holds_grouped.1 hrow).1⟩
  refine ⟨v, w, hv, hw, _, _, hc, he, ?_, himplies, ?_⟩
  · intro row number tranche hnumber htranche
    have hnumbers : ∀ s : DealSelection,
        Literal.integer number = .integer s.dealNumber ↔ s.dealNumber = number := by
      intro s
      rw [Literal.integer.injEq, eq_comm]
    rw [holds_groupedSelections]
    simp [holds_grouped, hnumber, htranche, DealSelection.takes_iff, hnumbers]
  · intro htranches row
    refine Bool.eq_iff_iff.2 ⟨himplies row, fun hrow => ?_⟩
    obtain ⟨n, hn, hrow⟩ := holds_groupedNumbers.1 hrow
    obtain ⟨s, hs, rfl⟩ := List.mem_map.1 hn
    exact holds_groupedSelections.2
      ⟨s, hs, holds_grouped.2 ⟨hrow, Or.inl (htranches s hs)⟩⟩

/-- A tranche of one deal, and all of another. -/
def trancheAndDeal : Execution :=
  ⟨⟨2023, 12, by decide, by decide, by decide, by decide⟩, [⟨1, some ["A"]⟩, ⟨2, none⟩]⟩

/-- A row of a tranche. -/
def rowOf (number : Int) (tranche : String) : Row := fun table _ =>
  if table = some Source.deal.table then .integer number else .string tranche

/-- Of the first deal one tranche is taken, and of the second any. -/
theorem trancheAndDeal_holds : ∃ v c,
    Placeholder.value .tsql trancheAndDeal .dealTrancheFilter = .ok v ∧
      readCondition .tsql v = some c ∧
      c.holds (rowOf 1 "A") = true ∧ c.holds (rowOf 1 "B") = false ∧
      c.holds (rowOf 2 "B") = true := by
  obtain ⟨v, w, hv, -, c, e, hc, -, hrows, -⟩ :=
    dealTrancheFilter_holds_iff .tsql trancheAndDeal (by decide)
  have hrow : ∀ number tranche, c.holds (rowOf number tranche) = true ↔
      ∃ s ∈ trancheAndDeal.deals, s.Takes number tranche := fun number tranche =>
    hrows (rowOf number tranche) number tranche rfl rfl
  refine ⟨v, c, hv, hc, (hrow 1 "A").2 ?_, ?_, (hrow 2 "B").2 ?_⟩
  · simp [trancheAndDeal, DealSelection.Takes]
  · rw [← Bool.not_eq_true, hrow]
    simp [trancheAndDeal, DealSelection.Takes]
  · simp [trancheAndDeal, DealSelection.Takes]

end DealSql
