import DealSql.Proofs.ExpressionParts
import DealSql.Proofs.GroupedConditions
import DealSql.Proofs.PreviewParts

/-!
# Conditions that are added to a query

A condition is built as a tree of tests, `AND` and `OR`, and written without
any parentheses but those in the tree.  Read by precedence the text may group
otherwise: an `OR` that stands bare below an `AND` is split by it.  What is
read is worked out here for every tree, from what stands before it on the same
level, and compared with what the tree says.

A row that meets the tree is always a row of the text.  The other way round it
is so for *grouped* trees, in which no `OR` stands bare below an `AND`.  A query
joins the conditions that are added to it with `AND`, one after the other, so
that its rows are those that meet them all as long as none of them is a bare
`OR`; a bare `OR` parts the text in two, of which the first keeps only the
conditions before it and the second only those behind it.

* `Formula.readCondition_expr` — what is read in the text of a tree.
* `Formula.holds_readingAfter_of_holds`, `Formula.holds_of_isGrouped` — how it
  compares with the tree.
* `Formula.reading_conjunction_either` — where an `OR` parts a conjunction.
* `Query.filters_says` — the rows of a query with added conditions.
-/

namespace DealSql.Sql

variable {d : Dialect} {row : Row}

/-! ## Trees -/

/-- A condition as it is built. -/
inductive Formula where
  | comparison (left : Operand) (x : Comparison) (right : Operand)
  | membership (e : Operand) (values : List Literal)
  | both (a b : Formula)
  | either (a b : Formula)
  | paren (a : Formula)
  deriving Repr, DecidableEq

/-- A value as a dialect has it: for T-SQL truth values are the integers 1 and 0. -/
def Literal.inDialect (d : Dialect) : Literal → Literal
  | .truth b => if d = .tsql then .integer (if b then 1 else 0) else .truth b
  | v => v

def Operand.inDialect (d : Dialect) : Operand → Operand
  | .column table name => .column table name
  | .literal v => .literal (v.inDialect d)

theorem Literal.write_inDialect (d : Dialect) (v : Literal) :
    Sql.write d [(v.inDialect d).fragment] = Sql.write d [v.fragment] := by
  cases v with
  | truth b => cases d <;> cases b <;> rfl
  | _ => rfl

theorem Literal.legible_inDialect (d : Dialect) (v : Literal) :
    Legible d (v.inDialect d).fragment := by
  refine (v.inDialect d).legible fun b hb hd => ?_
  subst hd
  cases v <;> simp [inDialect] at hb

theorem Operand.write_inDialect (d : Dialect) (e : Operand) :
    (e.inDialect d).expr.write d = e.expr.write d := by
  cases e with
  | column table name => rfl
  | literal v => exact v.write_inDialect d

theorem Operand.readable_inDialect (d : Dialect) (e : Operand) :
    Readable d (e.inDialect d).expr.fragments := by
  cases e with
  | column table name => exact Operand.readable _ (by simp [inDialect])
  | literal v => exact readable_singleton (v.legible_inDialect d)

namespace Formula

/-- The tree with its values as a dialect has them. -/
def inDialect (d : Dialect) : Formula → Formula
  | comparison l x r => comparison (l.inDialect d) x (r.inDialect d)
  | membership e vs => membership (e.inDialect d) (vs.map (Literal.inDialect d))
  | both a b => both (a.inDialect d) (b.inDialect d)
  | either a b => either (a.inDialect d) (b.inDialect d)
  | paren a => paren (a.inDialect d)

/-- The expression that is built. -/
def expr : Formula → Expr
  | comparison l x r => .binary l.expr x.op r.expr
  | membership e vs => e.expr.isIn (vs.map .literal)
  | both a b => a.expr.and b.expr
  | either a b => a.expr.or b.expr
  | paren a => .paren a.expr

/-- Whether a row meets a condition as it is built. -/
def holds (row : Row) : Formula → Bool
  | comparison l x r => (Test.comparison l x r).holds row
  | membership e vs => (Test.membership e vs).holds row
  | both a b => a.holds row && b.holds row
  | either a b => a.holds row || b.holds row
  | paren a => a.holds row

/-- Whether a condition is an `OR` without parentheses around it. -/
def isBareOr : Formula → Bool
  | either _ _ => true
  | _ => false

/-- Whether no `OR` stands bare below an `AND`. -/
def isGrouped : Formula → Bool
  | both a b => a.isGrouped && b.isGrouped && !a.isBareOr && !b.isBareOr
  | either a b => a.isGrouped && b.isGrouped
  | paren a => a.isGrouped
  | _ => true

/-! ## The reading of a tree -/

/-- What has been read on a level behind the text of a tree, but for its last
factor, and this factor. -/
def readFrom (l : Level) : Formula → Level × Condition
  | comparison e x r => (l, .test (.comparison e x r))
  | membership e vs => (l, .test (if vs.isEmpty then .constant false else .membership e vs))
  | both a b =>
    let x := readFrom l a
    readFrom ⟨x.1.terms, some (x.1.term x.2)⟩ b
  | either a b =>
    let x := readFrom l a
    readFrom ⟨some (x.1.whole x.2), none⟩ b
  | paren a =>
    let x := readFrom ⟨none, none⟩ a
    (l, x.1.whole x.2)

/-- What is read in the text of a tree behind some factors. -/
def readingAfter (factors : Option Condition) (f : Formula) : Condition :=
  (f.readFrom ⟨none, factors⟩).1.whole (f.readFrom ⟨none, factors⟩).2

/-- What is read in the text of a tree. -/
def reading (f : Formula) : Condition := f.readingAfter none

/-- The fragments of a tree are read level by level. -/
theorem steps_fragments (f : Formula) (outer : List Level) (level : Level) :
    ∃ factor, Progress.steps ⟨outer, level, .nothing⟩ f.expr.fragments =
        some ⟨outer, (f.readFrom level).1, factor⟩ ∧
      factor.condition? = some (f.readFrom level).2 := by
  induction f generalizing outer level with
  | comparison e x r => exact isFactor_comparison e x r outer level
  | membership e vs =>
    by_cases hvs : vs = []
    · subst hvs
      exact isFactor_isIn_nil e.expr outer level
    · have hfactor := isFactor_membership e id hvs outer level
      simpa [readFrom, expr, hvs] using hfactor
  | both a b iha ihb =>
    obtain ⟨x, hx, hxc⟩ := iha outer level
    obtain ⟨y, hy, hyc⟩ := ihb outer
      ⟨(a.readFrom level).1.terms, some ((a.readFrom level).1.term (a.readFrom level).2)⟩
    have hand := (Progress.step_of_condition (p := ⟨outer, (a.readFrom level).1, x⟩) hxc).1
    refine ⟨y, ?_, hyc⟩
    rw [expr, Expr.and, Expr.fragments]
    simp [hx, BinaryOp.fragment, hand, hy, readFrom]
  | either a b iha ihb =>
    obtain ⟨x, hx, hxc⟩ := iha outer level
    obtain ⟨y, hy, hyc⟩ := ihb outer
      ⟨some ((a.readFrom level).1.whole (a.readFrom level).2), none⟩
    have hor := (Progress.step_of_condition (p := ⟨outer, (a.readFrom level).1, x⟩) hxc).2.1
    refine ⟨y, ?_, hyc⟩
    rw [expr, Expr.or, Expr.fragments]
    simp [hx, BinaryOp.fragment, hor, hy, readFrom]
  | paren a ih =>
    have hwhole : IsWhole a.expr.fragments a.reading := by
      intro outer
      obtain ⟨x, hx, hxc⟩ := ih outer ⟨none, none⟩
      exact ⟨_, x, _, hx, hxc, rfl⟩
    rw [expr, Expr.fragments]
    exact hwhole.paren outer level

/-- The text of a tree is read as its reading. -/
theorem isWhole (f : Formula) : IsWhole f.expr.fragments f.reading := by
  intro outer
  obtain ⟨x, hx, hxc⟩ := f.steps_fragments outer ⟨none, none⟩
  exact ⟨_, x, _, hx, hxc, rfl⟩

/-! ## Truth -/

theorem holds_term (l : Level) (c : Condition) :
    (l.term c).holds row = (l.factors.all (Condition.holds row) && c.holds row) := by
  obtain ⟨terms, _ | factors⟩ := l
  · simp [Level.term, joined]
  · simp [Level.term, joined, Condition.holds]

theorem holds_whole (l : Level) (c : Condition) :
    (l.whole c).holds row = (l.terms.any (Condition.holds row) || (l.term c).holds row) := by
  obtain ⟨_ | terms, factors⟩ := l
  · simp [Level.whole, joined]
  · simp [Level.whole, joined, Condition.holds]

/-- What stands before the last `OR` only adds a term: the last term is made of
the factors after it. -/
theorem readFrom_eq (f : Formula) (l : Level) :
    (f.readFrom l).1.factors = (f.readFrom ⟨none, l.factors⟩).1.factors ∧
      (f.readFrom l).2 = (f.readFrom ⟨none, l.factors⟩).2 ∧
      ∀ row, (f.readFrom l).1.terms.any (Condition.holds row) =
        (l.terms.any (Condition.holds row) ||
          (f.readFrom ⟨none, l.factors⟩).1.terms.any (Condition.holds row)) := by
  induction f generalizing l with
  | comparison e x r => simp [readFrom]
  | membership e vs => simp [readFrom]
  | both a b iha ihb =>
    obtain ⟨hfactors, hfactor, hterms⟩ := iha l
    have hterm : (a.readFrom l).1.term (a.readFrom l).2 =
        (a.readFrom ⟨none, l.factors⟩).1.term (a.readFrom ⟨none, l.factors⟩).2 := by
      rw [Level.term, Level.term, hfactors, hfactor]
    obtain ⟨hfactors', hfactor', hterms'⟩ := ihb
      ⟨(a.readFrom l).1.terms, some ((a.readFrom l).1.term (a.readFrom l).2)⟩
    obtain ⟨hfactors₀, hfactor₀, hterms₀⟩ := ihb
      ⟨(a.readFrom ⟨none, l.factors⟩).1.terms, some ((a.readFrom l).1.term (a.readFrom l).2)⟩
    simp only [readFrom, ← hterm]
    refine ⟨hfactors'.trans hfactors₀.symm, hfactor'.trans hfactor₀.symm, fun row => ?_⟩
    rw [hterms' row, hterms₀ row, hterms row, Bool.or_assoc]
  | either a b iha ihb =>
    obtain ⟨hfactors, hfactor, hterms⟩ := iha l
    have hwhole : ∀ row, ((a.readFrom l).1.whole (a.readFrom l).2).holds row =
        (l.terms.any (Condition.holds row) || ((a.readFrom ⟨none, l.factors⟩).1.whole
          (a.readFrom ⟨none, l.factors⟩).2).holds row) := by
      intro row
      rw [holds_whole, holds_whole, holds_term, holds_term, hterms row, hfactors, hfactor,
        Bool.or_assoc]
    obtain ⟨hfactors', hfactor', hterms'⟩ := ihb
      ⟨some ((a.readFrom l).1.whole (a.readFrom l).2), none⟩
    obtain ⟨hfactors₀, hfactor₀, hterms₀⟩ := ihb
      ⟨some ((a.readFrom ⟨none, l.factors⟩).1.whole (a.readFrom ⟨none, l.factors⟩).2), none⟩
    refine ⟨hfactors'.trans hfactors₀.symm, hfactor'.trans hfactor₀.symm, fun row => ?_⟩
    have hright := hterms' row
    have hright₀ := hterms₀ row
    simp only [Option.any_some] at hright hright₀
    simp only [readFrom]
    rw [hright, hright₀, hwhole row, Bool.or_assoc]
  | paren a ih => simp [readFrom]

theorem holds_readFrom (f : Formula) (l : Level) :
    ((f.readFrom l).1.whole (f.readFrom l).2).holds row =
      (l.terms.any (Condition.holds row) || (f.readingAfter l.factors).holds row) := by
  obtain ⟨hfactors, hfactor, hterms⟩ := f.readFrom_eq l
  rw [readingAfter, holds_whole, holds_whole, holds_term, holds_term, hterms row, hfactors, hfactor,
    Bool.or_assoc]

/-- An `OR` parts what stands before it on its level from what follows. -/
theorem holds_readingAfter_either (a b : Formula) (factors : Option Condition) :
    ((either a b).readingAfter factors).holds row =
      ((a.readingAfter factors).holds row || b.reading.holds row) := by
  rw [readingAfter, readFrom, holds_readFrom]
  rfl

theorem holds_readingAfter_both (a b : Formula) (factors : Option Condition) :
    ((both a b).readingAfter factors).holds row =
      ((a.readFrom ⟨none, factors⟩).1.terms.any (Condition.holds row) ||
        (b.readingAfter (some ((a.readFrom ⟨none, factors⟩).1.term
          (a.readFrom ⟨none, factors⟩).2))).holds row) := by
  rw [readingAfter, readFrom, holds_readFrom]

theorem holds_readingAfter_paren (a : Formula) (factors : Option Condition) :
    (a.paren.readingAfter factors).holds row =
      (factors.all (Condition.holds row) && a.reading.holds row) := by
  simp [readingAfter, readFrom, holds_whole, holds_term, reading]

theorem holds_membership (e : Operand) (vs : List Literal) :
    (Condition.test (if vs.isEmpty then .constant false else .membership e vs)).holds row =
      (Test.membership e vs).holds row := by
  cases vs with
  | nil => simp [Condition.holds, Test.holds]
  | cons v vs => simp [Condition.holds]

/-- **A row that meets a tree meets its text**, with the factors that stand
before it. -/
theorem holds_readingAfter_of_holds (f : Formula) (factors : Option Condition)
    (hfactors : factors.all (Condition.holds row) = true) (h : f.holds row = true) :
    (f.readingAfter factors).holds row = true := by
  induction f generalizing factors with
  | comparison e x r =>
    simpa [readingAfter, readFrom, holds_whole, holds_term, Condition.holds, holds]
      using ⟨hfactors, h⟩
  | membership e vs =>
    rw [readingAfter, readFrom, holds_whole, holds_term, holds_membership]
    simpa [holds] using ⟨hfactors, h⟩
  | both a b iha ihb =>
    rw [holds, Bool.and_eq_true] at h
    have ha := iha factors hfactors h.1
    rw [readingAfter, holds_whole, Bool.or_eq_true] at ha
    rw [holds_readingAfter_both, Bool.or_eq_true]
    exact ha.imp_right fun hterm => ihb _ (by simpa using hterm) h.2
  | either a b iha ihb =>
    rw [holds, Bool.or_eq_true] at h
    rw [holds_readingAfter_either, Bool.or_eq_true]
    exact h.imp (iha factors hfactors) (ihb none rfl)
  | paren a ih =>
    rw [holds_readingAfter_paren, hfactors, Bool.true_and]
    exact ih none rfl h

/-- A tree whose text is one term, true of the rows that meet the tree and the
factors before it. -/
def IsOneTerm (f : Formula) : Prop :=
  ∀ factors, (f.readFrom ⟨none, factors⟩).1.terms = none ∧ ∀ row,
    ((f.readFrom ⟨none, factors⟩).1.term (f.readFrom ⟨none, factors⟩).2).holds row =
      (factors.all (Condition.holds row) && f.holds row)

theorem IsOneTerm.holds_reading {f : Formula} (h : f.IsOneTerm) (row : Row) :
    f.reading.holds row = f.holds row := by
  rw [reading, readingAfter, holds_whole, (h none).1, (h none).2 row]
  simp

/-- A grouped tree is read as it was built; and unless it is a bare `OR` it
stays one term. -/
theorem holds_of_isGrouped (f : Formula) (h : f.isGrouped = true) :
    (∀ row, f.reading.holds row = f.holds row) ∧ (f.isBareOr = false → f.IsOneTerm) := by
  induction f with
  | comparison e x r =>
    have hterm : (comparison e x r).IsOneTerm := by
      intro factors
      exact ⟨rfl, fun row => holds_term _ _⟩
    exact ⟨hterm.holds_reading, fun _ => hterm⟩
  | membership e vs =>
    have hterm : (membership e vs).IsOneTerm := by
      intro factors
      refine ⟨rfl, fun row => ?_⟩
      rw [readFrom, holds_term, holds_membership]
      rfl
    exact ⟨hterm.holds_reading, fun _ => hterm⟩
  | both a b iha ihb =>
    simp only [isGrouped, Bool.and_eq_true, Bool.not_eq_true'] at h
    obtain ⟨⟨⟨ha, hb⟩, hbareA⟩, hbareB⟩ := h
    have hterm : (both a b).IsOneTerm := by
      intro factors
      obtain ⟨htermsA, htermA⟩ := (iha ha).2 hbareA factors
      obtain ⟨htermsB, htermB⟩ := (ihb hb).2 hbareB
        (some ((a.readFrom ⟨none, factors⟩).1.term (a.readFrom ⟨none, factors⟩).2))
      rw [readFrom, htermsA]
      refine ⟨htermsB, fun row => ?_⟩
      rw [htermB row, Option.all_some, htermA row, holds, Bool.and_assoc]
    exact ⟨hterm.holds_reading, fun _ => hterm⟩
  | either a b iha ihb =>
    simp only [isGrouped, Bool.and_eq_true] at h
    refine ⟨fun row => ?_, fun hbare => ?_⟩
    · rw [reading, holds_readingAfter_either, holds, ← (iha h.1).1 row, ← (ihb h.2).1 row]
      rfl
    · cases hbare
  | paren a ih =>
    have hterm : a.paren.IsOneTerm := by
      intro factors
      refine ⟨rfl, fun row => ?_⟩
      rw [readFrom, holds_term, holds, ← (ih h).1 row]
      rfl
    exact ⟨hterm.holds_reading, fun _ => hterm⟩

/-- Trees with one text have one reading. -/
theorem reading_congr {f g : Formula} (h : f.expr.fragments = g.expr.fragments) :
    f.reading = g.reading := by
  obtain ⟨x, hx, hxc⟩ := f.steps_fragments [] ⟨none, none⟩
  obtain ⟨y, hy, hyc⟩ := g.steps_fragments [] ⟨none, none⟩
  rw [h, hy] at hx
  obtain ⟨hlevel, rfl⟩ : (g.readFrom ⟨none, none⟩).1 = (f.readFrom ⟨none, none⟩).1 ∧ y = x := by
    simpa using hx
  rw [hyc] at hxc
  rw [reading, reading, readingAfter, readingAfter, hlevel, Option.some.inj hxc]

/-! ## Values of a dialect -/

@[simp] theorem isBareOr_inDialect (d : Dialect) (f : Formula) :
    (f.inDialect d).isBareOr = f.isBareOr := by
  cases f <;> rfl

@[simp] theorem isGrouped_inDialect (d : Dialect) (f : Formula) :
    (f.inDialect d).isGrouped = f.isGrouped := by
  induction f with
  | comparison | membership => rfl
  | both a b iha ihb => simp [inDialect, isGrouped, iha, ihb]
  | either a b iha ihb => simp [inDialect, isGrouped, iha, ihb]
  | paren a ih => simpa [inDialect, isGrouped] using ih

/-- Fragments that a dialect writes alike. -/
theorem compositional_write (d : Dialect) :
    Compositional Eq fun fs gs => Sql.write d fs = Sql.write d gs where
  nil := rfl
  append hf hg := by rw [write_append, write_append, hf, hg]
  paren h := by simp only [List.cons_append, Expr.write_cons, write_append, h]
  fixed _ := rfl
  string h := by rw [h]

/-- A dialect writes the values of a tree as it has them. -/
theorem write_inDialect (d : Dialect) (f : Formula) :
    (f.inDialect d).expr.write d = f.expr.write d := by
  have hwrite := compositional_write d
  have hoperator : ∀ x : Comparison, x.op.fragment.IsFixed := by
    intro x
    cases x <;> exact ⟨by decide, by decide⟩
  have hand : BinaryOp.and.fragment.IsFixed := trivial
  have hor : BinaryOp.or.fragment.IsFixed := trivial
  induction f with
  | comparison e x r =>
    exact hwrite.binary (hoperator x) (e.write_inDialect d) (r.write_inDialect d)
  | membership e vs =>
    refine hwrite.isIn (e.write_inDialect d) ?_
    rw [List.forall₂_map_left_iff, List.forall₂_map_right_iff, List.forall₂_map_left_iff]
    exact List.forall₂_same.2 fun v _ => v.write_inDialect d
  | both a b iha ihb => exact hwrite.binary hand iha ihb
  | either a b iha ihb => exact hwrite.binary hor iha ihb
  | paren a ih => exact hwrite.exprParen ih

theorem readable_inDialect (d : Dialect) (f : Formula) :
    Readable d (f.inDialect d).expr.fragments := by
  have hword : ∀ k, Fragment.keyword k ∈ conditionWords → Legible d (.keyword k) :=
    fun k hk => legible_word hk fun b hb => by cases hb
  induction f with
  | comparison e x r =>
    exact readable_comparison x (e.readable_inDialect d) (r.readable_inDialect d)
  | membership e vs =>
    rw [inDialect, expr, List.map_map]
    exact readable_membership _ _ (e.readable_inDialect d) fun v _ => v.legible_inDialect d
  | both a b iha ihb =>
    rw [inDialect, expr, Expr.and, Expr.fragments]
    exact iha.around ihb (hword .AND (by decide))
  | either a b iha ihb =>
    rw [inDialect, expr, Expr.or, Expr.fragments]
    exact iha.around ihb (hword .OR (by decide))
  | paren a ih =>
    rw [inDialect, expr, Expr.fragments]
    exact ih.paren

/-- **What is read in the text of a tree.** -/
theorem readCondition_expr (d : Dialect) (f : Formula) :
    readCondition d (f.expr.write d) = some (f.inDialect d).reading := by
  rw [← write_inDialect]
  exact readCondition_write (isWhole _) (f.readable_inDialect d)

/-! ## Conjunctions -/

/-- The tree of conditions that are added one after the other. -/
def conjunction : Formula → List Formula → Formula := List.foldl both

theorem expr_conjunction (f : Formula) (fs : List Formula) :
    (conjunction f fs).expr = (fs.map expr).foldl Expr.and f.expr := by
  induction fs generalizing f with
  | nil => rfl
  | cons g gs ih => exact ih (both f g)

theorem inDialect_conjunction (d : Dialect) (f : Formula) (fs : List Formula) :
    (conjunction f fs).inDialect d = conjunction (f.inDialect d) (fs.map (inDialect d)) := by
  induction fs generalizing f with
  | nil => rfl
  | cons g gs ih => exact ih (both f g)

theorem holds_conjunction (f : Formula) (fs : List Formula) :
    (conjunction f fs).holds row = (f :: fs).all (holds row) := by
  induction fs generalizing f with
  | nil => simp [conjunction]
  | cons g gs ih =>
    have hboth : (conjunction f (g :: gs)).holds row = _ := ih (both f g)
    simpa [holds, Bool.and_assoc] using hboth

theorem isGrouped_conjunction {f : Formula} {fs : List Formula}
    (h : ∀ g ∈ f :: fs, g.isGrouped = true ∧ g.isBareOr = false) :
    (conjunction f fs).isGrouped = true := by
  induction fs generalizing f with
  | nil => exact (h f List.mem_cons_self).1
  | cons g gs ih =>
    have hf := h f (by simp)
    have hg := h g (by simp)
    refine ih (f := both f g) fun k hk => ?_
    rcases List.mem_cons.1 hk with rfl | hk
    · exact ⟨by simp [isGrouped, hf, hg], rfl⟩
    · exact h k (by simp [hk])

theorem fragments_both (a b : Formula) : (both a b).expr.fragments =
    a.expr.fragments ++ [.space, .keyword .AND, .space] ++ b.expr.fragments := by
  rw [expr, Expr.and, Expr.fragments]
  rfl

theorem fragments_either (a b : Formula) : (either a b).expr.fragments =
    a.expr.fragments ++ [.space, .keyword .OR, .space] ++ b.expr.fragments := by
  rw [expr, Expr.or, Expr.fragments]
  rfl

/-- The text of conditions that are added one after the other. -/
theorem fragments_conjunction (f : Formula) (fs : List Formula) :
    (conjunction f fs).expr.fragments = f.expr.fragments ++
      fs.flatMap fun g => [.space, .keyword .AND, .space] ++ g.expr.fragments := by
  induction fs generalizing f with
  | nil => simp [conjunction]
  | cons g gs ih =>
    have hboth : (conjunction f (g :: gs)).expr.fragments = _ := ih (both f g)
    rw [hboth, fragments_both, List.flatMap_cons, List.append_assoc, List.append_assoc,
      List.append_assoc]

/-- A bare `OR` among the conditions parts them. -/
theorem reading_conjunction_either (f a b : Formula) (fs gs : List Formula) :
    (conjunction f (fs ++ either a b :: gs)).reading =
      (either (conjunction f (fs ++ [a])) (conjunction b gs)).reading := by
  apply reading_congr
  simp [fragments_conjunction, fragments_either]

/-- A bare `OR` in the first condition parts it from the others. -/
theorem reading_conjunction_cons_either (a b : Formula) (gs : List Formula) :
    (conjunction (either a b) gs).reading = (either a (conjunction b gs)).reading := by
  apply reading_congr
  simp [fragments_conjunction, fragments_either]

theorem holds_reading_either (a b : Formula) :
    (either a b).reading.holds row = (a.reading.holds row || b.reading.holds row) :=
  holds_readingAfter_either a b none

end Formula

/-! ## Queries -/

namespace Query

/-- A query says a condition of rows when that is what is read in the text
behind its `WHERE`. -/
def Says (d : Dialect) (q : Query) (c : Condition) : Prop :=
  ∃ text, q.write d = { q with condition := none, grouping := [] }.write d ++
      "\nWHERE ".toList ++ text ++ Sql.write d q.groupingFragments ∧
    readCondition d text = some c

/-- A query with conditions added to it, one after the other. -/
def filters (q : Query) (cs : List Formula) : Query := (cs.map Formula.expr).foldl filter q

theorem says_of_condition {q : Query} {f : Formula} (h : q.condition = some f.expr) :
    q.Says d (f.inDialect d).reading := by
  have hparts : q.fragments = { q with condition := none, grouping := [] }.fragments ++
      [.newline, .keyword .WHERE, .space] ++ f.expr.fragments ++ q.groupingFragments := by
    simp [fragments, commentFragments, itemFragments, tableFragments, conditionFragments,
      groupingFragments, h]
  have hwhere : Sql.write d [.newline, .keyword .WHERE, .space] = "\nWHERE ".toList := rfl
  refine ⟨f.expr.write d, ?_, f.readCondition_expr d⟩
  rw [write, hparts, write_append, write_append, write_append, hwhere]
  rfl

theorem says_filters {q : Query} (hq : q.condition = none) (f : Formula) (fs : List Formula) :
    (q.filters (f :: fs)).Says d
      (Formula.conjunction (f.inDialect d) (fs.map (Formula.inDialect d))).reading := by
  rw [← Formula.inDialect_conjunction]
  apply says_of_condition
  rw [filters, Preview.foldl_filter hq, Formula.expr_conjunction]
  rfl

/-- **The rows of a query with added conditions.** -/
theorem filters_says (d : Dialect) (q : Query) (hq : q.condition = none) (cs : List Formula)
    (hcs : cs ≠ []) : ∃ c, (q.filters cs).Says d c ∧
      (∀ row, (∀ f ∈ cs, (f.inDialect d).holds row = true) → c.holds row = true) ∧
      ((∀ f ∈ cs, f.isGrouped = true) → (cs.length = 1 ∨ ∀ f ∈ cs, f.isBareOr = false) →
        ∀ row, c.holds row = true ↔ ∀ f ∈ cs, (f.inDialect d).holds row = true) ∧
      ∀ before a b after, cs = before ++ .either a b :: after → ∃ l r,
        (q.filters (before ++ [a])).Says d l ∧ (q.filters (b :: after)).Says d r ∧
          ∀ row, c.holds row = (l.holds row || r.holds row) := by
  obtain ⟨f, fs, rfl⟩ := List.exists_cons_of_ne_nil hcs
  have hall : ∀ row, (Formula.conjunction (f.inDialect d) (fs.map (Formula.inDialect d))).holds
      row = true ↔ ∀ g ∈ f :: fs, (g.inDialect d).holds row = true := by
    intro row
    rw [Formula.holds_conjunction]
    simp
  refine ⟨_, says_filters hq f fs, fun row hrow => ?_, fun hgrouped hbare row => ?_, ?_⟩
  · exact Formula.holds_readingAfter_of_holds _ none rfl ((hall row).2 hrow)
  · rw [← hall row]
    have hconjunction : (Formula.conjunction (f.inDialect d)
        (fs.map (Formula.inDialect d))).isGrouped = true := by
      rw [← Formula.inDialect_conjunction, Formula.isGrouped_inDialect]
      rcases hbare with hlength | hbare
      · obtain rfl : fs = [] := by simpa using hlength
        exact hgrouped f List.mem_cons_self
      · exact Formula.isGrouped_conjunction fun g hg => ⟨hgrouped g hg, hbare g hg⟩
    rw [(Formula.holds_of_isGrouped _ hconjunction).1 row]
  · intro before a b after h
    cases before with
    | nil =>
      obtain ⟨rfl, rfl⟩ : f = .either a b ∧ fs = after := by simpa using h
      refine ⟨_, _, says_filters hq a [], says_filters hq b fs, fun row => ?_⟩
      rw [Formula.inDialect, Formula.reading_conjunction_cons_either, Formula.holds_reading_either]
      rfl
    | cons e es =>
      obtain ⟨rfl, rfl⟩ : f = e ∧ fs = es ++ .either a b :: after := by simpa using h
      refine ⟨_, _, says_filters hq f (es ++ [a]), says_filters hq b after, fun row => ?_⟩
      rw [List.map_append, List.map_cons, Formula.inDialect, Formula.reading_conjunction_either,
        Formula.holds_reading_either, List.map_append]
      rfl

/-! ## A parted condition -/

/-- A column equals an integer. -/
def columnIs (name : String) (n : Int) : Formula :=
  .comparison (.column (some "deal") name) .eq (.literal (.integer n))

/-- Deals of a country or a currency. -/
def placeOrCurrency : Formula := .either (columnIs "country" 1) (columnIs "currency" 2)

/-- The numbers of deals. -/
def dealNumbers : Query :=
  { empty with items := [⟨.column (some "deal") "dl_nbr", none⟩], table := some "deal" }

/-- Conditions of which one is an `OR` in parentheses are met together. -/
theorem groupedOr_conjoined : ∃ c,
    (dealNumbers.filters [placeOrCurrency.paren, columnIs "cycle" 3]).Says .tsql c ∧
      ∀ row, c.holds row = true ↔
        placeOrCurrency.holds row = true ∧ (columnIs "cycle" 3).holds row = true := by
  obtain ⟨c, hsays, -, hrows, -⟩ := filters_says .tsql dealNumbers rfl
    [placeOrCurrency.paren, columnIs "cycle" 3] (by simp)
  refine ⟨c, hsays, fun row => ?_⟩
  rw [hrows (by decide) (Or.inr (by decide))]
  simp [Formula.inDialect, Operand.inDialect, Literal.inDialect, placeOrCurrency, columnIs,
    Formula.holds]

/-- Without the parentheses a row of the country is taken whatever its cycle is. -/
theorem bareOr_parted : ∃ c row,
    (dealNumbers.filters [placeOrCurrency, columnIs "cycle" 3]).Says .postgres c ∧
      c.holds row = true ∧ (columnIs "cycle" 3).holds row = false := by
  refine ⟨_, fun _ _ => .integer 1, says_filters rfl placeOrCurrency [columnIs "cycle" 3], ?_, ?_⟩
  · decide
  · decide

end Query

end DealSql.Sql
