import DealSql.Proofs.ConditionFragments
import DealSql.Proofs.ReadFragments

/-!
# Grouped conditions

The fragments of a condition say nothing of how they belong together: that
is a matter of precedence.  Parentheses come first, then comparisons and
membership, then `AND`, then `OR`.  The reading below goes through the
fragments once; for each open parenthesis it keeps what stands there before
the last `OR` and what has been joined by `AND` since.

What is read follows the grammar: a factor is a test or a whole in
parentheses, a term is made of factors joined by `AND`, and a whole of terms
joined by `OR`.

* `readCondition_write` — what is read in a written whole.
* `isFactor_comparison`, `isFactor_membership` — tests.
* `IsWhole.paren`, `IsTerm.and`, `IsWhole.or` — what is made of them.
-/

namespace DealSql.Sql

/-! ## Conditions on rows -/

/-- What is compared. -/
inductive Operand where
  /-- A column, possibly of a named table. -/
  | column (table : Option String) (name : String)
  | literal (value : Literal)
  deriving Repr, DecidableEq

/-- A comparison. -/
inductive Comparison where
  | eq
  | ne
  | lt
  | gt
  | le
  | ge
  deriving Repr, DecidableEq

/-- A test that a row passes or fails by itself. -/
inductive Test where
  | comparison (left : Operand) (c : Comparison) (right : Operand)
  | membership (e : Operand) (values : List Literal)
  | constant (b : Bool)
  deriving Repr, DecidableEq

/-- A condition with its tests grouped. -/
inductive Condition where
  | test (t : Test)
  | both (a b : Condition)
  | either (a b : Condition)
  deriving Repr, DecidableEq

/-- The values of the columns in a row. -/
abbrev Row := Option String → String → Literal

/-- The value of an operand in a row. -/
def Operand.value (row : Row) : Operand → Literal
  | .column table name => row table name
  | .literal v => v

/-- How two values compare; values of different kinds do not, nor does a
missing one with any. -/
def Literal.compare? : Literal → Literal → Option Ordering
  | .integer a, .integer b => some (compare a b)
  | .string a, .string b => some (compare a b)
  | .truth a, .truth b => some (compare a b)
  | _, _ => none

/-- Whether a comparison is true of values that compare in a way. -/
def Comparison.accepts : Comparison → Ordering → Bool
  | .eq => Ordering.isEq
  | .ne => Ordering.isNe
  | .lt => Ordering.isLT
  | .gt => Ordering.isGT
  | .le => Ordering.isLE
  | .ge => Ordering.isGE

/-- Whether a test is true of a row. -/
def Test.holds (row : Row) : Test → Bool
  | .comparison l c r => ((l.value row).compare? (r.value row)).any c.accepts
  | .membership e values => values.any fun v => (e.value row).compare? v == some .eq
  | .constant b => b

/-- Whether a condition is true of a row. -/
def Condition.holds (row : Row) : Condition → Bool
  | .test t => t.holds row
  | .both a b => a.holds row && b.holds row
  | .either a b => a.holds row || b.holds row

/-! ## Reading a test -/

/-- The literal that a fragment writes. -/
def Literal.ofFragment? : Fragment → Option Literal
  | .integer n => some (.integer n)
  | .string s => some (.string s)
  | .truth b => some (.truth b)
  | .keyword .NULL => some .null
  | _ => none

/-- The operand at the start of a list of fragments, and what follows it. -/
def readOperand : List Fragment → Option (Operand × List Fragment)
  | .identifier table :: .symbol .dot :: .identifier name :: rest =>
    some (.column (some table) name, rest)
  | .identifier name :: rest => some (.column none name, rest)
  | f :: rest => (Literal.ofFragment? f).map fun v => (.literal v, rest)
  | [] => none

/-- The literals of a list, up to the parenthesis that closes it. -/
def readValues : List Fragment → Option (List Literal)
  | [f, .symbol .closeParen] => (Literal.ofFragment? f).map fun v => [v]
  | f :: .symbol .comma :: rest =>
    (Literal.ofFragment? f).bind fun v => (readValues rest).map (v :: ·)
  | _ => none

/-- The comparison that a symbol writes. -/
def Comparison.ofSymbol? : Symbol → Option Comparison
  | .eq => some .eq
  | .ne => some .ne
  | .lt => some .lt
  | .gt => some .gt
  | .le => some .le
  | .ge => some .ge
  | _ => none

/-- The test of an operand that fragments write after it. -/
def readTestOf (e : Operand) : List Fragment → Option Test
  | .keyword .IN :: .symbol .openParen :: rest => (readValues rest).map (.membership e)
  | .symbol x :: rest =>
    match Comparison.ofSymbol? x, readOperand rest with
    | some c, some (r, []) => some (.comparison e c r)
    | _, _ => none
  | _ => none

/-- The test that fragments write. -/
def readTest : List Fragment → Option Test
  | [.keyword .TRUE] => some (.constant true)
  | [.keyword .FALSE] => some (.constant false)
  | fs => (readOperand fs).bind fun x => readTestOf x.1 x.2

/-! ## Grouping -/

/-- What has been read since a parenthesis was opened: the terms before the
last `OR`, and the factors before the last `AND` since. -/
structure Level where
  terms : Option Condition
  factors : Option Condition
  deriving Repr, DecidableEq

/-- The factor that is being read. -/
inductive Factor where
  | nothing
  /-- The fragments of a test, with parentheses open within it. -/
  | test (fs : List Fragment) (depth : Nat)
  | group (c : Condition)
  deriving Repr, DecidableEq

/-- How far a condition has been read, the innermost parenthesis first. -/
structure Progress where
  outer : List Level
  level : Level
  factor : Factor
  deriving Repr, DecidableEq

/-- A condition joined to one that may stand before it. -/
def joined (f : Condition → Condition → Condition) : Option Condition → Condition → Condition
  | none, c => c
  | some a, c => f a c

/-- The term that a factor completes. -/
def Level.term (l : Level) (c : Condition) : Condition := joined .both l.factors c

/-- The whole that a factor completes. -/
def Level.whole (l : Level) (c : Condition) : Condition := joined .either l.terms (l.term c)

/-- What a factor says once it is complete. -/
def Factor.condition? : Factor → Option Condition
  | .test fs 0 => (readTest fs).map .test
  | .group c => some c
  | _ => none

/-- Where nothing has been read. -/
def Progress.start (outer : List Level) : Progress := ⟨outer, ⟨none, none⟩, .nothing⟩

/-- One fragment further. -/
def Progress.step (p : Progress) (f : Fragment) : Option Progress :=
  match p.factor, f with
  | _, .space => some p
  | .test fs (n + 1), .symbol .closeParen => some { p with factor := .test (fs ++ [f]) n }
  | .test fs n, .symbol .openParen => some { p with factor := .test (fs ++ [f]) (n + 1) }
  | .test fs (n + 1), _ => some { p with factor := .test (fs ++ [f]) (n + 1) }
  | .nothing, .symbol .openParen => some (.start (p.level :: p.outer))
  | _, .keyword .AND =>
    p.factor.condition?.map fun c => ⟨p.outer, ⟨p.level.terms, some (p.level.term c)⟩, .nothing⟩
  | _, .keyword .OR =>
    p.factor.condition?.map fun c => ⟨p.outer, ⟨some (p.level.whole c), none⟩, .nothing⟩
  | _, .symbol .closeParen =>
    match p.outer with
    | l :: ls => p.factor.condition?.map fun c => ⟨ls, l, .group (p.level.whole c)⟩
    | [] => none
  | .nothing, _ => some { p with factor := .test [f] 0 }
  | .test fs 0, _ => some { p with factor := .test (fs ++ [f]) 0 }
  | .group _, _ => none

/-- All fragments of a list further. -/
def Progress.steps (p : Progress) (fs : List Fragment) : Option Progress := fs.foldlM step p

/-- The condition read when nothing is left open. -/
def Progress.condition? (p : Progress) : Option Condition :=
  if p.outer.isEmpty then p.factor.condition?.map p.level.whole else none

/-- The condition that a text says to a dialect. -/
def readCondition (d : Dialect) (s : List Char) : Option Condition :=
  ((readFragments d s).bind (Progress.start []).steps).bind Progress.condition?

variable {d : Dialect} {fs gs : List Fragment} {a b c : Condition} {p q : Progress}

/-! ## Steps -/

@[simp] theorem Progress.steps_nil : p.steps [] = some p := rfl

@[simp] theorem Progress.steps_cons {f : Fragment} :
    p.steps (f :: fs) = (p.step f).bind fun q => q.steps fs := by
  simp [steps, List.foldlM_cons]

@[simp] theorem Progress.steps_append :
    p.steps (fs ++ gs) = (p.steps fs).bind fun q => q.steps gs := by
  simp [steps, List.foldlM_append]

@[simp] theorem Progress.step_space : p.step .space = some p := by
  obtain ⟨outer, level, factor⟩ := p
  cases factor <;> rfl

/-- What follows a complete factor completes a term, a whole, or a whole in parentheses. -/
theorem Progress.step_of_condition (h : p.factor.condition? = some c) :
    p.step (.keyword .AND) =
        some ⟨p.outer, ⟨p.level.terms, some (p.level.term c)⟩, .nothing⟩ ∧
      p.step (.keyword .OR) = some ⟨p.outer, ⟨some (p.level.whole c), none⟩, .nothing⟩ ∧
      ∀ l ls, p.outer = l :: ls →
        p.step (.symbol .closeParen) = some ⟨ls, l, .group (p.level.whole c)⟩ := by
  obtain ⟨outer, level, factor⟩ := p
  cases factor with
  | nothing => cases h
  | test fs depth =>
    cases depth with
    | zero =>
      refine ⟨by simp [step, h], by simp [step, h], ?_⟩
      rintro l ls rfl
      simp [step, h]
    | succ n => cases h
  | group =>
    refine ⟨by simp [step, h], by simp [step, h], ?_⟩
    rintro l ls rfl
    simp [step, h]

/-! ## Factors, terms and wholes -/

/-- Fragments that write a factor. -/
def IsFactor (fs : List Fragment) (c : Condition) : Prop :=
  ∀ outer level, ∃ factor, Progress.steps ⟨outer, level, .nothing⟩ fs = some ⟨outer, level, factor⟩ ∧
    factor.condition? = some c

/-- Fragments that write a term. -/
def IsTerm (fs : List Fragment) (c : Condition) : Prop :=
  ∀ outer terms, ∃ factors factor last,
    Progress.steps ⟨outer, ⟨terms, none⟩, .nothing⟩ fs = some ⟨outer, ⟨terms, factors⟩, factor⟩ ∧
      factor.condition? = some last ∧ Level.term ⟨terms, factors⟩ last = c

/-- Fragments that write a whole. -/
def IsWhole (fs : List Fragment) (c : Condition) : Prop :=
  ∀ outer, ∃ level factor last,
    (Progress.start outer).steps fs = some ⟨outer, level, factor⟩ ∧
      factor.condition? = some last ∧ level.whole last = c

theorem IsFactor.isTerm (h : IsFactor fs c) : IsTerm fs c := by
  intro outer terms
  obtain ⟨factor, hsteps, hfactor⟩ := h outer ⟨terms, none⟩
  exact ⟨none, factor, c, hsteps, hfactor, rfl⟩

theorem IsTerm.isWhole (h : IsTerm fs c) : IsWhole fs c := by
  intro outer
  obtain ⟨factors, factor, last, hsteps, hfactor, hterm⟩ := h outer none
  exact ⟨_, factor, last, hsteps, hfactor, hterm⟩

/-- Factors joined by `AND` make a term. -/
theorem IsTerm.and (hf : IsTerm fs a) (hg : IsFactor gs b) :
    IsTerm (fs ++ [.space, .keyword .AND, .space] ++ gs) (.both a b) := by
  intro outer terms
  obtain ⟨factors, factor, last, hsteps, hfactor, rfl⟩ := hf outer terms
  obtain ⟨factor', hsteps', hfactor'⟩ :=
    hg outer ⟨terms, some (Level.term ⟨terms, factors⟩ last)⟩
  have hand := (Progress.step_of_condition (p := ⟨outer, ⟨terms, factors⟩, factor⟩) hfactor).1
  refine ⟨some (Level.term ⟨terms, factors⟩ last), factor', b, ?_, hfactor', rfl⟩
  simp [hsteps, hand, hsteps']

/-- Terms joined by `OR` make a whole. -/
theorem IsWhole.or (hf : IsWhole fs a) (hg : IsTerm gs b) :
    IsWhole (fs ++ [.space, .keyword .OR, .space] ++ gs) (.either a b) := by
  intro outer
  obtain ⟨level, factor, last, hsteps, hfactor, rfl⟩ := hf outer
  obtain ⟨factors, factor', last', hsteps', hfactor', rfl⟩ := hg outer (some (level.whole last))
  have hor := (Progress.step_of_condition (p := ⟨outer, level, factor⟩) hfactor).2.1
  refine ⟨⟨some (level.whole last), factors⟩, factor', last', ?_, hfactor', rfl⟩
  simp [hsteps, hor, hsteps']

/-- A whole in parentheses is a factor. -/
theorem IsWhole.paren (h : IsWhole fs c) :
    IsFactor (.symbol .openParen :: fs ++ [.symbol .closeParen]) c := by
  intro outer level
  obtain ⟨inner, factor, last, hsteps, hfactor, rfl⟩ := h (level :: outer)
  have hclose := (Progress.step_of_condition (p := ⟨level :: outer, inner, factor⟩) hfactor).2.2
    level outer rfl
  have hopen : Progress.step ⟨outer, level, .nothing⟩ (.symbol .openParen) =
      some (.start (level :: outer)) := rfl
  refine ⟨.group (inner.whole last), ?_, rfl⟩
  simp [hopen, hsteps, hclose]

/-! ## Tests -/

/-- Whether a fragment goes on with a test wherever it stands in it. -/
def Fragment.isPlain : Fragment → Bool
  | .keyword .AND => false
  | .keyword .OR => false
  | .symbol .openParen => false
  | .symbol .closeParen => false
  | _ => true

/-- The fragments of a list that are no spaces. -/
def visible (fs : List Fragment) : List Fragment := fs.filter (· ≠ .space)

variable {outer : List Level} {level : Level} {n : Nat} {f : Fragment}

theorem Progress.step_of_plain (hf : f.isPlain = true) (hspace : f ≠ .space) :
    Progress.step ⟨outer, level, .test fs n⟩ f = some ⟨outer, level, .test (fs ++ [f]) n⟩ := by
  unfold step
  split <;> simp_all [Fragment.isPlain]

theorem Progress.start_of_plain (hf : f.isPlain = true) (hspace : f ≠ .space) :
    Progress.step ⟨outer, level, .nothing⟩ f = some ⟨outer, level, .test [f] 0⟩ := by
  unfold step
  split <;> simp_all [Fragment.isPlain]

/-- Plain fragments go on with a test. -/
theorem Progress.steps_of_plain (h : ∀ f ∈ gs, f.isPlain = true) :
    Progress.steps ⟨outer, level, .test fs n⟩ gs =
      some ⟨outer, level, .test (fs ++ visible gs) n⟩ := by
  induction gs generalizing fs with
  | nil => simp [visible]
  | cons f gs ih =>
    have hrest := fun g hg => h g (List.mem_cons_of_mem f hg)
    by_cases hspace : f = .space
    · subst hspace
      rw [steps_cons, step_space, Option.bind_some, ih hrest]
      simp [visible]
    · rw [steps_cons, step_of_plain (h f List.mem_cons_self) hspace, Option.bind_some, ih hrest]
      simp [visible, hspace]

/-- How an operand is written. -/
def Operand.expr : Operand → Expr
  | .column table name => .column table name
  | .literal v => .literal v

/-- The operator of a comparison. -/
def Comparison.op : Comparison → BinaryOp
  | .eq => .eq
  | .ne => .ne
  | .lt => .lt
  | .gt => .gt
  | .le => .le
  | .ge => .ge

theorem visible_append : visible (fs ++ gs) = visible fs ++ visible gs := List.filter_append fs gs

theorem Literal.ofFragment?_fragment (v : Literal) : ofFragment? v.fragment = some v := by
  cases v <;> rfl

/-- Operands are plain and without spaces. -/
theorem Operand.plain (e : Operand) {f : Fragment} (hf : f ∈ e.expr.fragments) :
    f.isPlain = true ∧ f ≠ .space := by
  rcases e with ⟨_ | table, name⟩ | v
  · obtain rfl : f = .identifier name := by simpa [expr, Expr.fragments, qualifier] using hf
    exact ⟨rfl, by simp⟩
  · rcases (by simpa [expr, Expr.fragments, qualifier] using hf :
      f = .identifier table ∨ f = .symbol .dot ∨ f = .identifier name) with rfl | rfl | rfl
    all_goals exact ⟨rfl, by simp⟩
  · obtain rfl : f = v.fragment := by simpa [expr, Expr.fragments] using hf
    cases v <;> exact ⟨rfl, by simp [Literal.fragment]⟩

theorem Operand.visible (e : Operand) : visible e.expr.fragments = e.expr.fragments := by
  refine List.filter_eq_self.2 fun f hf => ?_
  simpa using (e.plain hf).2

/-- An operand and plain fragments after it begin a test. -/
theorem Operand.starts (e : Operand) (outer : List Level) (level : Level)
    (h : ∀ f ∈ gs, f.isPlain = true) :
    Progress.steps ⟨outer, level, .nothing⟩ (e.expr.fragments ++ gs) =
      some ⟨outer, level, .test (Sql.visible (e.expr.fragments ++ gs)) 0⟩ := by
  obtain ⟨f, fs, hfs⟩ : ∃ f fs, e.expr.fragments = f :: fs := by
    refine List.exists_cons_of_ne_nil fun hnil => ?_
    rcases e with ⟨_ | table, name⟩ | v <;> simp [expr, Expr.fragments, qualifier] at hnil
  obtain ⟨hf, hspace⟩ := e.plain (f := f) (by simp [hfs])
  have hall : ∀ g ∈ fs ++ gs, g.isPlain = true := by
    intro g hg
    rcases List.mem_append.1 hg with hg | hg
    · exact (e.plain (by simp [hfs, hg])).1
    · exact h g hg
  rw [hfs, List.cons_append, Progress.steps_cons, Progress.start_of_plain hf hspace,
    Option.bind_some, Progress.steps_of_plain hall]
  simp [Sql.visible, hspace]

/-- An operand is read back before anything but a point. -/
theorem readOperand_fragments (e : Operand) {rest : List Fragment}
    (h : rest.head? ≠ some (.symbol .dot)) :
    readOperand (e.expr.fragments ++ rest) = some (e, rest) := by
  rcases e with ⟨_ | table, name⟩ | v
  · simp only [Operand.expr, Expr.fragments, qualifier, List.nil_append, List.singleton_append]
    unfold readOperand
    split <;> grind
  · simp [Operand.expr, Expr.fragments, qualifier, readOperand]
  · cases v <;> rfl

/-- What follows an operand says which test it is. -/
theorem readTest_fragments (e : Operand) {rest : List Fragment}
    (h : rest.head? ≠ some (.symbol .dot)) :
    readTest (e.expr.fragments ++ rest) = readTestOf e rest := by
  have hread := readOperand_fragments e h
  unfold readTest
  split
  · next heq =>
    rw [heq] at hread
    cases hread
  · next heq =>
    rw [heq] at hread
    cases hread
  · rw [hread]
    rfl

/-- Fragments that are taken for a test are a factor. -/
theorem isFactor_of_steps {t : Test} (gs : List Fragment) (hread : readTest gs = some t)
    (hsteps : ∀ outer level, Progress.steps ⟨outer, level, .nothing⟩ fs =
      some ⟨outer, level, .test gs 0⟩) : IsFactor fs (.test t) := by
  intro outer level
  refine ⟨.test gs 0, hsteps outer level, ?_⟩
  rw [Factor.condition?, hread]
  rfl

/-- A comparison of two operands is a factor. -/
theorem isFactor_comparison (l : Operand) (x : Comparison) (r : Operand) :
    IsFactor (Expr.binary l.expr x.op r.expr).fragments (.test (.comparison l x r)) := by
  obtain ⟨s, hs, hplain, hread, hdot⟩ : ∃ s, x.op.fragment = .symbol s ∧
      Fragment.isPlain (.symbol s) = true ∧ Comparison.ofSymbol? s = some x ∧ s ≠ .dot := by
    cases x <;> exact ⟨_, rfl, rfl, rfl, by decide⟩
  have hrest : ∀ f ∈ [.space, .symbol s, .space] ++ r.expr.fragments, f.isPlain = true := by
    intro f hf
    rcases List.mem_append.1 hf with hf | hf
    · rcases (by simpa using hf : f = .space ∨ f = .symbol s ∨ f = .space) with rfl | rfl | rfl
      · rfl
      · exact hplain
      · rfl
    · exact (r.plain hf).1
  have hvisible : visible (l.expr.fragments ++ ([.space, .symbol s, .space] ++ r.expr.fragments)) =
      l.expr.fragments ++ .symbol s :: (r.expr.fragments ++ []) := by
    rw [visible_append, visible_append, l.visible, r.visible]
    simp [visible]
  have hr : readOperand (r.expr.fragments ++ []) = some (r, []) :=
    readOperand_fragments r (by simp)
  refine isFactor_of_steps (l.expr.fragments ++ .symbol s :: (r.expr.fragments ++ [])) ?_ ?_
  · rw [readTest_fragments l (by simpa using hdot), readTestOf, hread, hr]
  · intro outer level
    rw [Expr.fragments, hs, List.append_assoc, ← hvisible]
    exact l.starts outer level hrest

/-- What holds of the elements of a list, and of what stands between them,
holds of all its fragments. -/
theorem forall_commaSeparated {P : Fragment → Prop} (hcomma : P (.symbol .comma))
    (hspace : P .space) {ps : List (List Fragment)} (h : ∀ p ∈ ps, ∀ f ∈ p, P f) :
    ∀ f ∈ commaSeparated ps, P f := by
  refine intercalate_induction (by simp) (fun p rest hp hrest => ?_) h
  have hseparator : ∀ f ∈ separator, P f :=
    List.forall_mem_cons.2 ⟨hcomma, List.forall_mem_singleton.2 hspace⟩
  exact List.forall_mem_append.2 ⟨hp, List.forall_mem_append.2 ⟨hseparator, hrest⟩⟩

/-- The literals of a list are read back up to the closing parenthesis. -/
theorem readValues_commaSeparated {values : List Literal} (h : values ≠ []) :
    readValues (visible (commaSeparated (values.map fun v => [v.fragment])) ++
      [.symbol .closeParen]) = some values := by
  have hspace : ∀ v : Literal, v.fragment ≠ .space := by
    intro v
    cases v <;> simp [Literal.fragment]
  induction values with
  | nil => exact absurd rfl h
  | cons v values ih =>
    cases values with
    | nil =>
      simp [commaSeparated, List.intercalate, visible, hspace, readValues, v.ofFragment?_fragment]
    | cons w values =>
      have hvisible : visible (commaSeparated ((v :: w :: values).map fun v => [v.fragment])) =
          v.fragment :: .symbol .comma ::
            visible (commaSeparated ((w :: values).map fun v => [v.fragment])) := by
        simp only [List.map_cons]
        rw [commaSeparated_cons, visible_append, visible_append]
        simp [visible, separator, hspace]
      rw [hvisible, List.cons_append, List.cons_append, readValues, v.ofFragment?_fragment,
        ih (by simp)]
      rfl

/-- Membership in a list is a factor. -/
theorem isFactor_membership {β : Type} (e : Operand) (value : β → Literal) {xs : List β}
    (h : xs ≠ []) : IsFactor (e.expr.isIn (xs.map fun x => .literal (value x))).fragments
      (.test (.membership e (xs.map value))) := by
  generalize hvalues : xs.map value = values
  replace h : values ≠ [] := by simpa [← hvalues] using h
  have hliterals : xs.map (fun x => Expr.literal (value x)) = values.map .literal := by
    rw [← hvalues, List.map_map]
    rfl
  have hlist : (values.map Expr.literal).map Expr.fragments =
      values.map fun v => [v.fragment] := by
    simp [Expr.fragments]
  have hplain : ∀ f ∈ commaSeparated (values.map fun v => [v.fragment]), f.isPlain = true := by
    apply forall_commaSeparated (P := fun f => f.isPlain = true) rfl rfl
    intro p hp f hf
    obtain ⟨v, -, rfl⟩ := List.mem_map.1 hp
    obtain rfl := List.mem_singleton.1 hf
    cases v <;> rfl
  have hin : ∀ f ∈ [Fragment.space, .keyword .IN, .space], f.isPlain = true := by decide
  have hvisible : visible (e.expr.fragments ++ [.space, .keyword .IN, .space]) =
      e.expr.fragments ++ [.keyword .IN] := by
    rw [visible_append, e.visible]
    simp [visible]
  refine isFactor_of_steps (e.expr.fragments ++ (.keyword .IN :: .symbol .openParen ::
    (visible (commaSeparated (values.map fun v => [v.fragment])) ++ [.symbol .closeParen]))) ?_ ?_
  · rw [readTest_fragments e (by simp), readTestOf, readValues_commaSeparated h]
    rfl
  · intro outer level
    have hstart := e.starts outer level hin
    have hopen : ∀ fs, Progress.step ⟨outer, level, .test fs 0⟩ (.symbol .openParen) =
        some ⟨outer, level, .test (fs ++ [.symbol .openParen]) 1⟩ := fun _ => rfl
    have hclose : ∀ fs, Progress.step ⟨outer, level, .test fs 1⟩ (.symbol .closeParen) =
        some ⟨outer, level, .test (fs ++ [.symbol .closeParen]) 0⟩ := fun _ => rfl
    rw [hliterals, isIn_fragments (by simpa using h), hlist, parenthesized, Progress.steps_append,
      hstart, hvisible, Option.bind_some, List.cons_append, Progress.steps_cons, hopen, Option.bind_some,
      Progress.steps_append, Progress.steps_of_plain hplain, Option.bind_some, Progress.steps_cons,
      hclose]
    simp

/-- Membership in no list is a factor. -/
theorem isFactor_isIn_nil (e : Expr) : IsFactor (e.isIn []).fragments (.test (.constant false)) :=
  fun outer level => ⟨.test [.keyword .FALSE] 0, by simp [Expr.isIn, Expr.fragments]; rfl, rfl⟩

/-! ## Written tests -/

/-- A literal is legible, but for the truth values that T-SQL writes as numbers. -/
theorem Literal.legible (v : Literal) (h : ∀ b, v = .truth b → d ≠ .tsql) :
    Legible d v.fragment := by
  cases v with
  | integer n => exact legible_integer n
  | string s => exact legible_string s
  | truth b =>
    refine legible_word (by cases b <;> decide) fun b' hb => h b' ?_
    rw [← Fragment.truth.inj hb]
  | null => exact legible_word (by decide) fun b hb => by cases hb

theorem Operand.readable (e : Operand) (h : ∀ b, e = .literal (.truth b) → d ≠ .tsql) :
    Readable d e.expr.fragments := by
  rcases e with ⟨_ | table, name⟩ | v
  · exact readable_singleton (legible_identifier name)
  · have htable : Readable d [.identifier table] := readable_singleton (legible_identifier table)
    have hname : Readable d [.identifier name] := readable_singleton (legible_identifier name)
    have hdot : Readable d [.symbol .dot] := readable_singleton (legible_symbol (by decide))
    exact (htable.append hdot (Or.inr rfl)).append hname (Or.inl rfl)
  · refine readable_singleton (v.legible fun b hb => h b ?_)
    rw [hb]

theorem readable_comparison {l r : Operand} (x : Comparison) (hl : Readable d l.expr.fragments)
    (hr : Readable d r.expr.fragments) : Readable d (Expr.binary l.expr x.op r.expr).fragments := by
  obtain ⟨s, hs, hmem⟩ : ∃ s, x.op.fragment = .symbol s ∧ s ∈ conditionSymbols := by
    cases x <;> exact ⟨_, rfl, by decide⟩
  rw [Expr.fragments, hs]
  exact hl.around hr (legible_symbol hmem)

theorem readable_membership {β : Type} (e : Operand) (value : β → Literal) {xs : List β}
    (he : Readable d e.expr.fragments) (hvalues : ∀ x ∈ xs, Legible d (value x).fragment) :
    Readable d (e.expr.isIn (xs.map fun x => .literal (value x))).fragments := by
  by_cases hempty : xs = []
  · subst hempty
    refine readable_singleton (legible_word (by decide) fun b hb => by cases hb)
  · have hlist : Readable d
        (commaSeparated ((xs.map fun x => Expr.literal (value x)).map Expr.fragments)) := by
      refine readable_commaSeparated fun p hp => ?_
      obtain ⟨u, hu, rfl⟩ := List.mem_map.1 hp
      obtain ⟨x, hx, rfl⟩ := List.mem_map.1 hu
      exact readable_singleton (hvalues x hx)
    rw [isIn_fragments (by simpa using hempty)]
    exact he.around hlist.paren (legible_word (by decide) fun b hb => by cases hb)

/-! ## The reading -/

/-- **What is read in a written whole.** -/
theorem readCondition_write (h : IsWhole fs c) (hr : Readable d fs) :
    readCondition d (write d fs) = some c := by
  obtain ⟨level, factor, last, hsteps, hfactor, hwhole⟩ := h []
  rw [readCondition, readFragments_write hr, Option.bind_some, hsteps,
    Option.bind_some, Progress.condition?]
  simp [hfactor, hwhole]

/-- `AND` joins before `OR` does, and what is in parentheses before both. -/
example : readCondition .postgres "\"a\" = 1 OR \"b\" = 2 AND (\"c\" = 3 OR \"d\" = 4)".toList =
    let test name n := .test (.comparison (.column none name) .eq (.literal (.integer n)))
    some (.either (test "a" 1) (.both (test "b" 2) (.either (test "c" 3) (test "d" 4)))) := by
  decide +kernel

end DealSql.Sql
