import DealSql.Proofs.ExpressionParts
import DealSql.Proofs.PreviewParts
import DealSql.Proofs.SelectedRows

/-!
# The scope of preview queries

A preview joins the tables that its source and level need, selects the keys
of the report and one measure, and restricts the rows to a sample.  Which
keys, joins and conditions there are is decided in one place each, from the
source and the level; together they have to fit.

* `wellScoped_preview` — every column has its table, every join its order.
* `readCondition_conjunction` — what a written conjunction says.
* `query?_scoped` — scope, keys and sample of every preview.
-/

namespace DealSql.Preview

open DealSql.Sql

variable {o : Options} {c : Calculation} {q : Query} {s : Source} {l : Level} {j : Joins}

/-! ## Scope -/

/-- The table that an expression mentions by being a column of it, where one
that names no table could be of any. -/
def mentioned? : Expr → Option (Option String)
  | .column table _ => some table
  | .star table => some table
  | _ => none

/-- An expression mentions columns of some tables only. -/
def ScopedTo (tables : List String) (e : Expr) : Prop :=
  ∀ p, e.HasPart p → ∀ table ∈ mentioned? p, ∃ t ∈ tables, table = some t

variable {tables : List String}

/-- An expression that is no column itself is scoped as its components are. -/
theorem scopedTo_iff {e : Expr} (h : mentioned? e = none) :
    ScopedTo tables e ↔ ∀ c ∈ e.components, ScopedTo tables c :=
  Expr.forall_hasPart_iff.trans (by simp [h, ScopedTo])

@[simp] theorem scopedTo_column {name : String} :
    ScopedTo tables (Columns.column s name) ↔ s.table ∈ tables := by
  simp only [ScopedTo, Columns.column, Expr.ofTable, Expr.hasPart_column, forall_eq]
  simp [mentioned?]

@[simp] theorem scopedTo_literal {v : Literal} : ScopedTo tables (.literal v) :=
  (scopedTo_iff rfl).2 (by simp [Expr.components])

@[simp] theorem scopedTo_binary {a b : Expr} {op : BinaryOp} :
    ScopedTo tables (.binary a op b) ↔ ScopedTo tables a ∧ ScopedTo tables b :=
  (scopedTo_iff rfl).trans (by simp [Expr.components])

@[simp] theorem scopedTo_call {function : String} {args : List Expr} {distinct : Bool} :
    ScopedTo tables (.call function args distinct) ↔ ∀ a ∈ args, ScopedTo tables a :=
  (scopedTo_iff rfl).trans (by simp [Expr.components])

@[simp] theorem scopedTo_member {e : Expr} {values : List Expr} {negated : Bool} :
    ScopedTo tables (.member e values negated) ↔
      ScopedTo tables e ∧ ∀ v ∈ values, ScopedTo tables v :=
  (scopedTo_iff rfl).trans (by simp [Expr.components])

/-- A conjunction is scoped as its conditions are. -/
theorem scopedTo_foldl_and {e : Expr} (es : List Expr) (he : ScopedTo tables e)
    (h : ∀ f ∈ es, ScopedTo tables f) : ScopedTo tables (es.foldl Expr.and e) := by
  induction es generalizing e with
  | nil => exact he
  | cons f fs ih =>
    have hand : ScopedTo tables (e.and f) := scopedTo_binary.2 ⟨he, h f List.mem_cons_self⟩
    exact ih hand fun g hg => h g (List.mem_cons_of_mem f hg)

theorem scopedTo_conjunction {es : List Expr} {e : Expr} (he : conjunction? es = some e)
    (h : ∀ f ∈ es, ScopedTo tables f) : ScopedTo tables e := by
  cases es with
  | nil => cases he
  | cons f fs =>
    obtain rfl : fs.foldl Expr.and f = e := by simpa [conjunction?] using he
    exact scopedTo_foldl_and fs (h f List.mem_cons_self) fun g hg => h g (List.mem_cons_of_mem f hg)

/-! ## What a preview mentions -/

/-- The tables of a query, in the order in which they are joined. -/
def tablesOf (q : Query) : List String := q.table.toList ++ q.joins.map Join.table

/-- A query in which every column has its table: that of the `FROM` clause or
a joined one, and in the condition of a join one joined so far. -/
structure WellScoped (q : Query) : Prop where
  items : ∀ i ∈ q.items, ScopedTo (tablesOf q) i.expr
  condition : ∀ e ∈ q.condition, ScopedTo (tablesOf q) e
  grouping : ∀ e ∈ q.grouping, ScopedTo (tablesOf q) e
  joins : ∀ before j after, q.joins = before ++ j :: after →
    ScopedTo (q.table.toList ++ before.map Join.table ++ [j.table]) j.condition

/-- The tables that are joined. -/
def joined (j : Joins) : List String := j.sources.map Source.table

/-- A table is joined with its source. -/
@[simp] theorem table_mem_joined : s.table ∈ joined j ↔
    s = .deal ∨ (s = .tranche ∧ j.tranche = true) ∨ (s = .trancheBal ∧ j.trancheBal = true) := by
  obtain ⟨tranche, trancheBal⟩ := j
  cases s <;> cases tranche <;> cases trancheBal <;> decide

/-- Balances are joined through their tranches. -/
theorem tranche_of_trancheBal (h : (Joins.forSource s l).trancheBal = true) :
    (Joins.forSource s l).tranche = true := by
  revert h
  cases s <;> cases l <;> decide

theorem tranche_of_level : (Joins.forSource s .tranche).tranche = true := by
  cases s <;> rfl

/-- The source of a value is among those that are joined for it. -/
theorem source_mem_joined (s : Source) (l : Level) : s.table ∈ joined (Joins.forSource s l) := by
  rw [table_mem_joined]
  cases s <;> cases l <;> decide

/-- The tables of a preview are those that are joined. -/
theorem tablesOf_queryOf (name : String) (measure : Expr) (grouped : Bool) :
    tablesOf (queryOf name s l measure grouped o) = joined (Joins.forSource s l) := by
  rw [queryOf_eq, tablesOf]
  cases s <;> cases l <;> rfl

theorem scopedTo_measure {measure : Expr} (hs : c.source? = some s)
    (h : c.measure? = some measure) (l : Level) :
    ScopedTo (joined (Joins.forSource s l)) measure := by
  have hmem := source_mem_joined s l
  cases c with
  | custom x => cases hs
  | field f =>
    obtain rfl : f.source = s := Option.some.inj hs
    obtain ⟨field, -, rfl⟩ := Option.map_eq_some_iff.1 h
    exact scopedTo_column.2 hmem
  | aggregation a =>
    obtain rfl : a.source = s := Option.some.inj hs
    rw [Calculation.measure?, aggregate?_eq] at h
    obtain ⟨x, -, rfl⟩ := Option.map_eq_some_iff.1 h
    cases x <;> simpa [Computation.expr, Expr.apply, Expr.int] using hmem

/-- The keys of a report are columns of what is joined for it. -/
theorem scopedTo_keys {e : Expr} (he : e ∈ (Joins.forSource s l).keys l) :
    ScopedTo (joined (Joins.forSource s l)) e := by
  simp only [Joins.keys, List.mem_append, List.mem_singleton, List.mem_ite_nil_right] at he
  rcases he with (rfl | ⟨rfl, rfl⟩) | ⟨hbalance, rfl⟩
  · simp [Columns.dealNumber]
  · simp [Columns.trancheId, tranche_of_level]
  · simp [Columns.cycle, hbalance]

/-- The sample restricts columns of what is joined. -/
theorem scopedTo_sampleConditions {e : Expr} (he : e ∈ sampleConditions j o) :
    ScopedTo (joined j) e := by
  have hints : ∀ ns : List Int, ∀ v ∈ ns.map Expr.int, ScopedTo (joined j) v := by
    simp [Expr.int]
  have hstrings : ∀ ts : List String, ∀ v ∈ ts.map Expr.str, ScopedTo (joined j) v := by
    simp [Expr.str]
  simp only [sampleConditions, List.mem_append, List.mem_ite_nil_left,
    List.mem_ite_nil_right, List.mem_singleton] at he
  rcases he with (⟨-, rfl⟩ | ⟨htranche, rfl⟩) | he
  · exact scopedTo_member.2 ⟨by simp [Columns.dealNumber], hints _⟩
  · have hjoined : j.tranche = true := (Bool.and_eq_true_iff.1 htranche).1
    exact scopedTo_member.2 ⟨by simp [Columns.trancheId, hjoined], hstrings _⟩
  · cases hcycle : o.cycle with
    | none => simp [hcycle] at he
    | some n =>
      by_cases hbalance : j.trancheBal = true
      · obtain rfl : e = _ := by simpa [hcycle, hbalance] using he
        simp [Expr.equals, Expr.int, Columns.cycle, hbalance]
      · simp [hcycle, hbalance] at he

/-- Two tables agree on a column where both are at hand. -/
@[simp] theorem scopedTo_agree {a b : Source} {name : String} :
    ScopedTo tables (agree a b name) ↔ a.table ∈ tables ∧ b.table ∈ tables := by
  simp [agree, Expr.equals]

/-- The join of the tranches. -/
def trancheJoin : Join := ⟨Source.tranche.table, agree .deal .tranche Columns.dealNumberName⟩

/-- The join of the balances. -/
def balanceJoin : Join :=
  ⟨Source.trancheBal.table, (agree .tranche .trancheBal Columns.dealNumberName).and
    (agree .tranche .trancheBal Columns.trancheIdName)⟩

theorem joinList_eq (j : Joins) : joinList j =
    (if j.tranche then [trancheJoin] else []) ++ (if j.trancheBal then [balanceJoin] else []) := rfl

/-- Each join compares with what is joined before it. -/
theorem scopedTo_joinList {before after : List Join} {x : Join}
    (htranche : j.trancheBal = true → j.tranche = true)
    (h : joinList j = before ++ x :: after) :
    ScopedTo (Source.deal.table :: before.map Join.table ++ [x.table]) x.condition := by
  have hfirst : ScopedTo [Source.deal.table, trancheJoin.table] trancheJoin.condition := by
    simp [trancheJoin]
  have hsecond : ScopedTo [Source.deal.table, trancheJoin.table, balanceJoin.table]
      balanceJoin.condition := by
    simp [trancheJoin, balanceJoin, Expr.and]
  rw [joinList_eq] at h
  by_cases hjoined : j.tranche = true
  · by_cases hbalance : j.trancheBal = true
    · have h : [trancheJoin, balanceJoin] = before ++ x :: after := by
        simpa [hjoined, hbalance] using h
      rcases before with _ | ⟨first, _ | ⟨second, before⟩⟩ <;> simp at h
      · obtain ⟨rfl, -⟩ := h
        exact hfirst
      · obtain ⟨rfl, rfl, -⟩ := h
        exact hsecond
    · have h : [trancheJoin] = before ++ x :: after := by simpa [hjoined, hbalance] using h
      rcases before with _ | ⟨first, before⟩ <;> simp at h
      obtain ⟨rfl, -⟩ := h
      exact hfirst
  · have hbalance : j.trancheBal = false := by simpa [hjoined] using htranche
    simp [hjoined, hbalance] at h

/-- Every part of a preview mentions only what it joins. -/
theorem wellScoped_preview (h : query? o c = some q) : WellScoped q := by
  obtain ⟨s, measure, hs, hmeasure, rfl⟩ := query?_eq_some_iff.1 h
  have htables := tablesOf_queryOf (s := s) (l := c.level) (o := o) c.name measure c.isAggregation
  constructor
  · intro i hi
    rw [htables]
    simp only [queryOf_eq, List.mem_append, List.mem_map, List.mem_singleton] at hi
    rcases hi with ⟨k, hk, rfl⟩ | rfl
    · exact scopedTo_keys hk
    · exact scopedTo_measure hs hmeasure c.level
  · intro e he
    rw [htables]
    rw [queryOf_eq] at he
    exact scopedTo_conjunction he fun f hf => scopedTo_sampleConditions hf
  · intro e he
    rw [htables]
    rw [queryOf_eq] at he
    cases hgrouped : c.isAggregation with
    | true => exact scopedTo_keys (by simpa [hgrouped] using he)
    | false => simp [hgrouped] at he
  · intro before x after hjoins
    rw [queryOf_eq] at hjoins ⊢
    exact scopedTo_joinList tranche_of_trancheBal hjoins

/-! ## The sample -/

/-- The cycle of a balance, as an operand. -/
def cycleOperand : Operand := .column (some Source.trancheBal.table) Columns.cycleName

/-- Whether a row of joined tables belongs to a sample: each part of the
sample restricts a table, where there is such a part and the table is joined. -/
structure InSample (o : Options) (tables : List String) (row : Row) : Prop where
  deal : o.deals ≠ [] → ∃ n ∈ o.deals, dealOperand.value row = .integer n
  tranche : Source.tranche.table ∈ tables → o.tranches ≠ [] →
    ∃ t ∈ o.tranches, trancheOperand.value row = .string t
  cycle : Source.trancheBal.table ∈ tables → ∀ n ∈ o.cycle, cycleOperand.value row = .integer n

/-- How the conditions on tranches and on the cycle group. -/
def groupedTranches (ids : List String) : Condition :=
  .test (.membership trancheOperand (ids.map .string))

def groupedCycle (n : Int) : Condition :=
  .test (.comparison cycleOperand .eq (.literal (.integer n)))

/-- The conditions of a sample, each with the way in which it groups. -/
def sample (j : Joins) (o : Options) : List (Expr × Condition) :=
  (if o.deals.isEmpty then [] else [(dealCondition o.deals, groupedNumbers o.deals)]) ++
  (if j.tranche && !o.tranches.isEmpty then
    [(trancheCondition o.tranches, groupedTranches o.tranches)] else []) ++
  (match o.cycle with
    | some n => if j.trancheBal then
        [(Columns.cycle.equals (.int n), groupedCycle n)] else []
    | none => [])

theorem map_sample (j : Joins) (o : Options) : (sample j o).map Prod.fst = sampleConditions j o := by
  unfold sample sampleConditions
  cases o.cycle <;> simp [apply_ite (List.map Prod.fst)]

/-- Each condition is there when it restricts something. -/
theorem mem_sample {p : Expr × Condition} : p ∈ sample j o ↔
    (o.deals ≠ [] ∧ p = (dealCondition o.deals, groupedNumbers o.deals)) ∨
    (j.tranche = true ∧ o.tranches ≠ [] ∧
      p = (trancheCondition o.tranches, groupedTranches o.tranches)) ∨
    (j.trancheBal = true ∧ ∃ n, o.cycle = some n ∧
      p = (Columns.cycle.equals (.int n), groupedCycle n)) := by
  cases hcycle : o.cycle <;> simp [sample, hcycle, and_assoc]

/-- A condition that is read as a factor in any dialect. -/
def ReadAs (e : Expr) (c : Condition) : Prop :=
  IsFactor e.fragments c ∧ ∀ d, Readable d e.fragments

theorem readAs_sample {p : Expr × Condition} (hp : p ∈ sample j o) : ReadAs p.1 p.2 := by
  rcases mem_sample.1 hp with ⟨hdeals, rfl⟩ | ⟨-, htranches, rfl⟩ | ⟨-, n, -, rfl⟩
  · exact ⟨isFactor_dealCondition hdeals, fun d => readable_dealCondition _⟩
  · exact ⟨isFactor_trancheCondition htranches, fun d => readable_trancheCondition _⟩
  · refine ⟨isFactor_comparison cycleOperand .eq (.literal (.integer n)), fun d => ?_⟩
    exact readable_comparison (l := cycleOperand) (r := .literal (.integer n)) .eq
      (cycleOperand.readable (by simp [cycleOperand])) (Operand.readable _ (by simp))

/-- A conjunction of factors is a term. -/
theorem isTerm_foldl_and {e : Expr} {a : Condition} (he : IsTerm e.fragments a)
    {ps : List (Expr × Condition)} (h : ∀ p ∈ ps, ReadAs p.1 p.2) :
    IsTerm ((ps.map Prod.fst).foldl Expr.and e).fragments
      ((ps.map Prod.snd).foldl .both a) := by
  induction ps generalizing e a with
  | nil => exact he
  | cons p ps ih =>
    have hand : IsTerm (e.and p.1).fragments (.both a p.2) := by
      rw [Expr.and, Expr.fragments]
      exact he.and (h p List.mem_cons_self).1
    exact ih hand fun r hr => h r (List.mem_cons_of_mem p hr)

theorem readable_foldl_and {d : Dialect} {e : Expr} (he : Readable d e.fragments)
    {ps : List (Expr × Condition)} (h : ∀ p ∈ ps, ReadAs p.1 p.2) :
    Readable d ((ps.map Prod.fst).foldl Expr.and e).fragments := by
  induction ps generalizing e with
  | nil => exact he
  | cons p ps ih =>
    have hand : Legible d (.keyword .AND) := legible_word (by decide) fun b hb => by cases hb
    have hmore : Readable d (e.and p.1).fragments := by
      rw [Expr.and, Expr.fragments]
      exact he.around ((h p List.mem_cons_self).2 d) hand
    exact ih hmore fun r hr => h r (List.mem_cons_of_mem p hr)

/-- A conjunction holds when all of it does. -/
theorem holds_foldl_both {row : Row} {a : Condition} (cs : List Condition) :
    (cs.foldl .both a).holds row = true ↔ a.holds row = true ∧ ∀ b ∈ cs, b.holds row = true := by
  induction cs generalizing a with
  | nil => simp
  | cons b cs ih => simp [ih, Condition.holds, and_assoc]

/-- The written conjunction of conditions holds where all of them do. -/
theorem readCondition_conjunction {ps : List (Expr × Condition)} (h : ∀ p ∈ ps, ReadAs p.1 p.2)
    {e : Expr} (he : conjunction? (ps.map Prod.fst) = some e) (d : Dialect) :
    ∃ a, readCondition d (e.write d) = some a ∧
      ∀ row, a.holds row = true ↔ ∀ p ∈ ps, p.2.holds row = true := by
  cases ps with
  | nil => cases he
  | cons p ps =>
    obtain rfl : (ps.map Prod.fst).foldl Expr.and p.1 = e := by simpa [conjunction?] using he
    have hp := h p List.mem_cons_self
    have hps : ∀ r ∈ ps, ReadAs r.1 r.2 := fun r hr => h r (List.mem_cons_of_mem p hr)
    refine ⟨_, readCondition_write (isTerm_foldl_and hp.1.isTerm hps).isWhole
      (readable_foldl_and (hp.2 d) hps), fun row => ?_⟩
    rw [holds_foldl_both, List.forall_mem_map, List.forall_mem_cons]

theorem holds_groupedCycle {row : Row} {n : Int} :
    (groupedCycle n).holds row = true ↔ cycleOperand.value row = .integer n := by
  have heq : ∀ x : Option Ordering, x.any Comparison.eq.accepts = true ↔ x = some .eq := by
    rintro (_ | x)
    · decide
    · cases x <;> decide
  simp [groupedCycle, Condition.holds, Test.holds, heq, compare?_eq_some_eq, Operand.value]

theorem holds_groupedTranches {row : Row} {ids : List String} :
    (groupedTranches ids).holds row = true ↔
      ∃ t ∈ ids, trancheOperand.value row = .string t := by
  simp [groupedTranches, Condition.holds, Test.holds, compare?_eq_some_eq]

/-- The conditions of a sample hold of the rows in it. -/
theorem holds_sample {row : Row} :
    (∀ p ∈ sample j o, p.2.holds row = true) ↔ InSample o (joined j) row := by
  have htranche : Source.tranche.table ∈ joined j ↔ j.tranche = true := by simp
  have hbalance : Source.trancheBal.table ∈ joined j ↔ j.trancheBal = true := by simp
  constructor
  · intro h
    constructor
    · intro hne
      exact holds_groupedNumbers.1 (h _ (mem_sample.2 (Or.inl ⟨hne, rfl⟩)))
    · intro hjoined hne
      have hmem := mem_sample.2 (Or.inr (Or.inl ⟨htranche.1 hjoined, hne, rfl⟩))
      exact holds_groupedTranches.1 (h _ hmem)
    · intro hjoined n hn
      have hmem := mem_sample.2 (Or.inr (Or.inr ⟨hbalance.1 hjoined, n, hn, rfl⟩))
      exact holds_groupedCycle.1 (h _ hmem)
  · rintro ⟨hdeals, htranches, hcycle⟩ p hp
    rcases mem_sample.1 hp with ⟨hne, rfl⟩ | ⟨hjoined, hne, rfl⟩ | ⟨hjoined, n, hn, rfl⟩
    · exact holds_groupedNumbers.2 (hdeals hne)
    · exact holds_groupedTranches.2 (htranches (htranche.2 hjoined) hne)
    · exact holds_groupedCycle.2 (hcycle (hbalance.2 hjoined) n hn)

/-- There is no condition where no part of the sample restricts anything. -/
theorem conjunction?_sample_eq_none_iff : conjunction? (sampleConditions j o) = none ↔
    o.deals = [] ∧ (Source.tranche.table ∈ joined j → o.tranches = []) ∧
      (Source.trancheBal.table ∈ joined j → o.cycle = none) := by
  have htranche : Source.tranche.table ∈ joined j ↔ j.tranche = true := by simp
  have hbalance : Source.trancheBal.table ∈ joined j ↔ j.trancheBal = true := by simp
  have hnil : ∀ es, conjunction? es = none ↔ es = [] := by
    rintro (_ | ⟨e, es⟩) <;> simp [conjunction?]
  rw [hnil, htranche, hbalance]
  cases hcycle : o.cycle <;> simp [sampleConditions, hcycle]

/-! ## Every preview -/

/-- **Previews are well scoped and group what they aggregate.**  Every part
of a preview mentions only tables that are joined, and each join only those
joined so far.  The items are the keys of the report and one measure with
its name, and an aggregation is grouped by those keys.  The written
condition, read by precedence, holds of the rows in the sample; there is
none where the sample restricts nothing. -/
theorem query?_scoped (h : query? o c = some q) :
    WellScoped q ∧
    (∃ s measure, c.source? = some s ∧ c.measure? = some measure ∧
      q.items = ((Joins.forSource s c.level).keys c.level).map (⟨·, none⟩) ++
        [⟨measure, some (String.ofList (resultColumn c.name.toList))⟩] ∧
      q.grouping = if c.isAggregation then (Joins.forSource s c.level).keys c.level else []) ∧
    (∀ e ∈ q.condition, ∀ d, ∃ a, readCondition d (e.write d) = some a ∧
      ∀ row, a.holds row = true ↔ InSample o (tablesOf q) row) ∧
    (q.condition = none ↔ o.deals = [] ∧
      (Source.tranche.table ∈ tablesOf q → o.tranches = []) ∧
      (Source.trancheBal.table ∈ tablesOf q → o.cycle = none)) := by
  have hscoped := wellScoped_preview h
  obtain ⟨s, measure, hs, hmeasure, rfl⟩ := query?_eq_some_iff.1 h
  refine ⟨hscoped, ⟨s, measure, hs, hmeasure, ?_, ?_⟩, ?_, ?_⟩
  · rw [queryOf_eq]
  · rw [queryOf_eq]
  · intro e he d
    rw [queryOf_eq] at he
    have hconjunction : conjunction? ((sample (Joins.forSource s c.level) o).map Prod.fst) =
        some e := by
      rw [map_sample]
      exact he
    obtain ⟨a, hread, hrows⟩ := readCondition_conjunction (fun p => readAs_sample) hconjunction d
    refine ⟨a, hread, fun row => ?_⟩
    rw [hrows row, holds_sample, tablesOf_queryOf]
  · rw [tablesOf_queryOf, queryOf_eq]
    exact conjunction?_sample_eq_none_iff

/-- The balances of tranches, as they are. -/
def endingBalance : Calculation :=
  .field ⟨"Ending Balance", .trancheBal, some "tr_end_bal_amt", .tranche⟩

/-- Its preview is restricted to all parts of the usual sample. -/
theorem endingBalance_scoped : ∃ q, query? .standard endingBalance = some q ∧
    WellScoped q ∧ q.grouping = [] ∧ ∃ e ∈ q.condition, ∃ a,
      readCondition .postgres (e.write .postgres) = some a ∧
      ∀ row, a.holds row = true → cycleOperand.value row = .integer 202404 := by
  have hmeasure : endingBalance.measure? =
      some (Columns.column .trancheBal "tr_end_bal_amt") := by
    have hgiven : given? (some "tr_end_bal_amt") = some "tr_end_bal_amt" := by decide +kernel
    simp [endingBalance, Calculation.measure?, ReportedField.field?, hgiven]
  obtain ⟨q, hq⟩ : ∃ q, query? .standard endingBalance = some q :=
    ⟨_, query?_eq_some_iff.2 ⟨_, _, rfl, hmeasure, rfl⟩⟩
  have htables : Source.trancheBal.table ∈ tablesOf q := by
    obtain ⟨s, measure, hs, -, rfl⟩ := query?_eq_some_iff.1 hq
    rw [tablesOf_queryOf]
    obtain rfl : Source.trancheBal = s := Option.some.inj hs
    decide
  obtain ⟨hscoped, ⟨_, _, _, _, _, hgrouping⟩, hread, hnone⟩ := query?_scoped hq
  refine ⟨q, hq, hscoped, hgrouping, ?_⟩
  cases hcondition : q.condition with
  | none =>
    have hdeals : Options.standard.deals = [] := (hnone.1 hcondition).1
    cases hdeals
  | some e =>
    obtain ⟨a, ha, hrows⟩ := hread e hcondition .postgres
    exact ⟨e, rfl, a, ha, fun row hrow => ((hrows row).1 hrow).cycle htables 202404 rfl⟩

end DealSql.Preview
