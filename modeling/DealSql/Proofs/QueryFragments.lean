import DealSql.Proofs.ExpressionFragments
import DealSql.Sql.Query

/-!
# The fragments of a query

A query is laid out clause by clause.  Each clause begins on a line of its
own, so it is set apart from what stands before it, and within a clause
blanks and commas stand around names and expressions.  What two lists of
fragments have side by side whenever something sets them apart, a query has
as soon as its names and its expressions have it.

* `PassesOn.body` — from names and expressions to the query.
-/

namespace DealSql.Sql

open Fragment

variable {q : Query} {f : Fragment} {fs gs : List Fragment} {P : List Fragment → Prop}

namespace Query

/-- The fragments of a query without its comment. -/
def body (q : Query) : List Fragment := { q with comment := none }.fragments

/-- The fragments of what follows the first table. -/
def clauses (q : Query) : List Fragment :=
  q.joins.flatMap Join.fragments ++ (q.conditionFragments ++ q.groupingFragments)

theorem body_eq (q : Query) :
    q.body = .keyword .SELECT :: q.itemFragments ++ (q.tableFragments ++ q.clauses) := by
  simp [body, clauses, fragments, commentFragments, itemFragments, tableFragments,
    conditionFragments, groupingFragments]

/-- The expressions of a query, clause by clause. -/
def expressions (q : Query) : List Expr :=
  q.items.map SelectItem.expr ++ q.joins.map Join.condition ++ q.condition.toList ++ q.grouping

/-- The names that a query gives to its results and those of its tables. -/
def names (q : Query) : List String :=
  q.items.filterMap SelectItem.label ++ q.table.toList ++ q.joins.map Join.table

end Query

/-! ## Properties that pass on -/

/-- Whether a fragment can be part of the layout of a query. -/
def Fragment.isLayout : Fragment → Bool
  | .keyword _ => true
  | .symbol s => s == .comma
  | .space => true
  | .newline => true
  | .indent n => n == 1
  | _ => false

/-- A property of lists of fragments that the fragments of a layout have, and
that two lists have side by side where one sets the other apart. -/
structure PassesOn (P : List Fragment → Prop) : Prop where
  nil : P []
  layout : ∀ {f : Fragment}, f.isLayout = true → P [f]
  append : ∀ {fs gs}, P fs → P gs →
    fs.getLast?.all setsApart = true ∨ gs.head?.all setsApart = true → P (fs ++ gs)

/-- Fragments with a property that begin with one that sets them apart. -/
structure IsClause (P : List Fragment → Prop) (fs : List Fragment) : Prop where
  holds : P fs
  begins : fs.head?.all setsApart = true

namespace PassesOn

/-- Fragments of which each sets the next one apart or is set apart by it. -/
theorem of_chain (hP : PassesOn P) (h : ∀ f ∈ fs, P [f])
    (hchain : fs.IsChain fun f g => (f.setsApart || g.setsApart) = true) : P fs := by
  induction fs with
  | nil => exact hP.nil
  | cons f fs ih =>
    have hf : P [f] := h f List.mem_cons_self
    cases fs with
    | nil => exact hf
    | cons g gs =>
      obtain ⟨hapart, hrest⟩ := List.isChain_cons_cons.1 hchain
      have hgs := ih (fun x hx => h x (List.mem_cons_of_mem f hx)) hrest
      have hboth : P ([f] ++ g :: gs) := hP.append hf hgs (Bool.or_eq_true_iff.1 hapart)
      exact hboth

/-- One clause behind another. -/
theorem clause_append (hP : PassesOn P) (hf : IsClause P fs) (hg : IsClause P gs) :
    IsClause P (fs ++ gs) := by
  refine ⟨hP.append hf.holds hg.holds (Or.inr hg.begins), ?_⟩
  cases fs with
  | nil => exact hg.begins
  | cons f fs => exact hf.begins

/-- Clauses one behind the other. -/
theorem clause_flatMap {α : Type} (hP : PassesOn P) {write : α → List Fragment} {xs : List α}
    (h : ∀ x ∈ xs, IsClause P (write x)) : IsClause P (xs.flatMap write) := by
  induction xs with
  | nil => exact ⟨hP.nil, rfl⟩
  | cons x xs ih =>
    rw [List.flatMap_cons]
    exact hP.clause_append (h x List.mem_cons_self) (ih fun y hy => h y (List.mem_cons_of_mem x hy))

/-- Clauses with a comma between them. -/
theorem clause_intercalate (hP : PassesOn P) {ps : List (List Fragment)}
    (h : ∀ p ∈ ps, IsClause P p) : IsClause P ([.symbol .comma].intercalate ps) := by
  have hcomma : IsClause P [.symbol .comma] := ⟨hP.layout rfl, rfl⟩
  exact intercalate_induction ⟨hP.nil, rfl⟩
    (fun p rest hp hrest => hP.clause_append hp (hP.clause_append hcomma hrest)) h

/-- The elements of a list. -/
theorem commaSeparated (hP : PassesOn P) {ps : List (List Fragment)} (h : ∀ p ∈ ps, P p) :
    P (commaSeparated ps) := by
  have hseparator : P ([.symbol .comma] ++ [.space]) :=
    hP.append (hP.layout rfl) (hP.layout rfl) (Or.inl rfl)
  exact intercalate_induction hP.nil
    (fun p rest hp hrest => hP.append hp (hP.append hseparator hrest (Or.inl rfl)) (Or.inr rfl)) h

/-- The words at the beginning of a clause, and what stands behind them. -/
theorem clause_of_words (hP : PassesOn P) {words : List Fragment} (h : ∀ f ∈ words, P [f])
    (hchain : words.IsChain fun f g => (f.setsApart || g.setsApart) = true)
    (hbegins : words.head?.any setsApart = true) (hends : words.getLast?.all setsApart = true)
    (hrest : P gs) : IsClause P (words ++ gs) := by
  refine ⟨hP.append (hP.of_chain h hchain) hrest (Or.inl hends), ?_⟩
  cases words with
  | nil => cases hbegins
  | cons f fs => exact hbegins

/-- A selected item on a line of its own. -/
theorem clause_item (hP : PassesOn P) {i : SelectItem}
    (hname : ∀ t ∈ i.label, P [.identifier t]) (hexpr : P i.expr.fragments) :
    IsClause P ([.newline, .indent 1] ++ i.fragments) := by
  have hline : ∀ f ∈ [Fragment.newline, .indent 1], P [f] := by
    simp [hP.layout (f := .newline) rfl, hP.layout (f := .indent 1) rfl]
  refine hP.clause_of_words hline (by simp [setsApart]) rfl rfl ?_
  rw [SelectItem.fragments]
  cases hlabel : i.label with
  | none => simpa using hexpr
  | some name =>
    have hlabelled : P [.space, .keyword .AS, .space, .identifier name] := by
      refine hP.of_chain ?_ (by simp [setsApart])
      simp [hP.layout (f := .space) rfl, hP.layout (f := .keyword .AS) rfl, hname name hlabel]
    exact hP.append hexpr hlabelled (Or.inr rfl)

/-- A join. -/
theorem clause_join (hP : PassesOn P) {j : Join} (hname : P [.identifier j.table])
    (hcondition : P j.condition.fragments) : IsClause P j.fragments := by
  refine hP.clause_of_words ?_ (by simp [setsApart]) rfl rfl hcondition
  simp [hname, hP.layout (f := .newline) rfl, hP.layout (f := .space) rfl,
    hP.layout (f := .keyword .INNER) rfl, hP.layout (f := .keyword .JOIN) rfl,
    hP.layout (f := .keyword .ON) rfl]

/-- The `FROM` clause. -/
theorem clause_table (hP : PassesOn P) (hname : ∀ t ∈ q.table, P [.identifier t]) :
    IsClause P q.tableFragments := by
  rw [Query.tableFragments]
  cases htable : q.table with
  | none => exact ⟨hP.nil, rfl⟩
  | some t =>
    refine ⟨hP.of_chain ?_ (by simp [setsApart]), rfl⟩
    simp [hname t htable, hP.layout (f := .newline) rfl, hP.layout (f := .space) rfl,
      hP.layout (f := .keyword .FROM) rfl]

/-- The `WHERE` clause. -/
theorem clause_condition (hP : PassesOn P) (h : ∀ e ∈ q.condition, P e.fragments) :
    IsClause P q.conditionFragments := by
  rw [Query.conditionFragments]
  cases hc : q.condition with
  | none => exact ⟨hP.nil, rfl⟩
  | some e =>
    refine hP.clause_of_words ?_ (by simp [setsApart]) rfl rfl (h e hc)
    simp [hP.layout (f := .newline) rfl, hP.layout (f := .space) rfl,
      hP.layout (f := .keyword .WHERE) rfl]

/-- The `GROUP BY` clause. -/
theorem clause_grouping (hP : PassesOn P) (h : ∀ e ∈ q.grouping, P e.fragments) :
    IsClause P q.groupingFragments := by
  rw [Query.groupingFragments]
  split
  · exact ⟨hP.nil, rfl⟩
  · refine hP.clause_of_words ?_ (by simp [setsApart]) rfl rfl (hP.commaSeparated fun p hp => ?_)
    · simp [hP.layout (f := .newline) rfl, hP.layout (f := .space) rfl,
        hP.layout (f := .keyword .GROUP_BY) rfl]
    · obtain ⟨e, he, rfl⟩ := List.mem_map.1 hp
      exact h e he

/-- **From names and expressions to the query.** -/
theorem body (hP : PassesOn P) (hnames : ∀ t ∈ q.names, P [.identifier t])
    (hexpressions : ∀ e ∈ q.expressions, P e.fragments) : P q.body := by
  simp only [Query.names, List.mem_append, List.mem_filterMap, List.mem_map,
    Option.mem_toList] at hnames
  simp only [Query.expressions, List.mem_append, List.mem_map, Option.mem_toList] at hexpressions
  have hitems : IsClause P q.itemFragments := by
    refine hP.clause_intercalate fun p hp => ?_
    obtain ⟨i, hi, rfl⟩ := List.mem_map.1 hp
    exact hP.clause_item (fun t ht => hnames t (Or.inl (Or.inl ⟨i, hi, ht⟩)))
      (hexpressions _ (Or.inl (Or.inl (Or.inl ⟨i, hi, rfl⟩))))
  have htable : IsClause P q.tableFragments :=
    hP.clause_table fun t ht => hnames t (Or.inl (Or.inr ht))
  have hjoins : IsClause P (q.joins.flatMap Join.fragments) :=
    hP.clause_flatMap fun j hj => hP.clause_join (hnames _ (Or.inr ⟨j, hj, rfl⟩))
      (hexpressions _ (Or.inl (Or.inl (Or.inr ⟨j, hj, rfl⟩))))
  have hcondition : IsClause P q.conditionFragments :=
    hP.clause_condition fun e he => hexpressions e (Or.inl (Or.inr he))
  have hgrouping : IsClause P q.groupingFragments :=
    hP.clause_grouping fun e he => hexpressions e (Or.inr he)
  have hclauses := hP.clause_append hjoins (hP.clause_append hcondition hgrouping)
  have hrest := hP.clause_append hitems (hP.clause_append htable hclauses)
  have hselect : P [.keyword .SELECT] := hP.layout rfl
  have hbody : P ([.keyword .SELECT] ++ _) := hP.append hselect hrest.holds (Or.inr hrest.begins)
  rw [Query.body_eq, List.cons_append]
  exact hbody

end PassesOn

end DealSql.Sql
