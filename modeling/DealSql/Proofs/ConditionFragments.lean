import DealSql.Execution
import DealSql.Proofs.WrittenExpressions
import Mathlib.Data.List.Forall2

/-!
# The fragments of conditions

Conditions on deals and tranches are written with keywords, punctuation,
integers, four names and the identifiers of tranches.  A relation between
lists of fragments that holds of these and may be put together, side by side
and between parentheses, therefore holds between the conditions on any two
selections whose identifiers it relates.

* `Compositional.selectionCondition` — the conditions on selected tranches.
-/

namespace DealSql

open DealSql.Statement DealSql.Sql

/-- The names that conditions on deals and tranches use. -/
def conditionNames : List String := ["deal", "dl_nbr", "tranche", "tr_id"]

/-- Whether conditions are written with a fragment whatever the tranches are. -/
def Sql.Fragment.IsFixed : Fragment → Prop
  | .keyword _ => True
  | .symbol s => s ≠ .openParen ∧ s ≠ .closeParen
  | .space => True
  | .integer _ => True
  | .identifier s => s ∈ conditionNames
  | _ => False

/-- A relation between lists of fragments that holds when it does part by
part, where strings are those that another relates. -/
structure Compositional (S : String → String → Prop)
    (R : List Fragment → List Fragment → Prop) : Prop where
  nil : R [] []
  append : ∀ {fs fs' gs gs'}, R fs fs' → R gs gs' → R (fs ++ gs) (fs' ++ gs')
  paren : ∀ {fs fs'}, R fs fs' →
    R (.symbol .openParen :: fs ++ [.symbol .closeParen])
      (.symbol .openParen :: fs' ++ [.symbol .closeParen])
  fixed : ∀ {f : Fragment}, f.IsFixed → R [f] [f]
  string : ∀ {s t}, S s t → R [.string s] [.string t]

/-- Selections of the same deal with related tranches. -/
structure DealSelection.Related (S : String → String → Prop) (s t : DealSelection) : Prop where
  dealNumber : s.dealNumber = t.dealNumber
  tranches : List.Forall₂ S s.tranches t.tranches

/-- How membership in a list is written, unless the list is empty. -/
theorem isIn_fragments {e : Expr} {values : List Expr} (h : values ≠ []) :
    (e.isIn values).fragments = e.fragments ++ [.space, .keyword .IN, .space] ++
      parenthesized (values.map Expr.fragments) := by
  rw [Expr.isIn, Expr.fragments, if_neg (by simpa using h), Expr.fragmentsOfEach_eq]
  simp

namespace Compositional

variable {S : String → String → Prop} {R : List Fragment → List Fragment → Prop}

/-! ## Lists -/

/-- Lists of related elements are related. -/
theorem commaSeparated (h : Compositional S R) {ps qs : List (List Fragment)}
    (hs : List.Forall₂ R ps qs) : R (Sql.commaSeparated ps) (Sql.commaSeparated qs) := by
  have hcomma : Fragment.IsFixed (.symbol .comma) := ⟨by decide, by decide⟩
  have hspace : Fragment.IsFixed .space := trivial
  have hseparator : R separator separator := h.append (h.fixed hcomma) (h.fixed hspace)
  induction hs with
  | nil => exact h.nil
  | cons hpq hrest ih =>
    cases hrest with
    | nil => simpa [Sql.commaSeparated, List.intercalate] using hpq
    | cons _ _ =>
      rw [commaSeparated_cons, commaSeparated_cons]
      exact h.append hpq (h.append hseparator ih)

theorem parenthesized (h : Compositional S R) {ps qs : List (List Fragment)}
    (hs : List.Forall₂ R ps qs) : R (Sql.parenthesized ps) (Sql.parenthesized qs) :=
  h.paren (h.commaSeparated hs)

/-- A fragment between spaces is related to itself. -/
theorem spaced (h : Compositional S R) {f : Fragment} (hf : f.IsFixed) :
    R [.space, f, .space] [.space, f, .space] := by
  have hspace : R [.space] [.space] := h.fixed trivial
  exact h.append hspace (h.append (h.fixed hf) hspace)

/-! ## Expressions -/

variable {e e' l l' r r' : Expr}

theorem exprParen (h : Compositional S R) (he : R e.fragments e'.fragments) :
    R (Expr.paren e).fragments (Expr.paren e').fragments := by
  rw [Expr.fragments, Expr.fragments]
  exact h.paren he

theorem binary (h : Compositional S R) {op : BinaryOp} (hop : op.fragment.IsFixed)
    (hl : R l.fragments l'.fragments) (hr : R r.fragments r'.fragments) :
    R (Expr.binary l op r).fragments (Expr.binary l' op r').fragments := by
  rw [Expr.fragments, Expr.fragments]
  exact h.append (h.append hl (h.spaced hop)) hr

/-- Membership in lists of related elements. -/
theorem isIn (h : Compositional S R) {vs vs' : List Expr} (he : R e.fragments e'.fragments)
    (hvs : List.Forall₂ (fun v v' => R v.fragments v'.fragments) vs vs') :
    R (e.isIn vs).fragments (e'.isIn vs').fragments := by
  cases hvs with
  | nil =>
    simp only [Expr.isIn, Expr.fragments]
    exact h.fixed trivial
  | cons hv hvs =>
    have hin : R [.space, .keyword .IN, .space] [.space, .keyword .IN, .space] := h.spaced trivial
    rw [isIn_fragments (by simp), isIn_fragments (by simp)]
    refine h.append (h.append he hin) (h.parenthesized ?_)
    rw [List.forall₂_map_left_iff, List.forall₂_map_right_iff]
    exact .cons hv hvs

theorem int (h : Compositional S R) (n : Int) :
    R (Expr.int n).fragments (Expr.int n).fragments := by
  rw [Expr.int, Expr.fragments]
  exact h.fixed trivial

/-- A column that conditions use is related to itself. -/
theorem ofTable (h : Compositional S R) {table name : String} (htable : table ∈ conditionNames)
    (hname : name ∈ conditionNames) :
    R (Expr.ofTable table name).fragments (Expr.ofTable table name).fragments := by
  have hidentifier : ∀ s ∈ conditionNames, R [.identifier s] [.identifier s] :=
    fun s hs => h.fixed (f := .identifier s) hs
  have hdot : Fragment.IsFixed (.symbol .dot) := ⟨by decide, by decide⟩
  have hqualifier : R (qualifier (some table)) (qualifier (some table)) :=
    h.append (hidentifier table htable) (h.fixed hdot)
  rw [Expr.ofTable, Expr.fragments]
  exact h.append hqualifier (hidentifier name hname)

theorem dealNumber (h : Compositional S R) :
    R Columns.dealNumber.fragments Columns.dealNumber.fragments :=
  h.ofTable (by decide) (by decide)

theorem trancheId (h : Compositional S R) :
    R Columns.trancheId.fragments Columns.trancheId.fragments :=
  h.ofTable (by decide) (by decide)

/-! ## Conditions -/

/-- Lists of the same integers are related. -/
theorem ints (h : Compositional S R) (ns : List Int) :
    List.Forall₂ (fun v v' => R v.fragments v'.fragments) (ns.map Expr.int) (ns.map Expr.int) := by
  rw [List.forall₂_map_left_iff, List.forall₂_map_right_iff, List.forall₂_same]
  exact fun n _ => h.int n

theorem dealCondition (h : Compositional S R) (ns : List Int) :
    R (dealCondition ns).fragments (dealCondition ns).fragments :=
  h.isIn h.dealNumber (h.ints ns)

/-- Lists of the same integers in parentheses are related. -/
theorem numbers (h : Compositional S R) (ns : List Int) :
    R (Sql.parenthesized ((ns.map Expr.int).map Expr.fragments))
      (Sql.parenthesized ((ns.map Expr.int).map Expr.fragments)) := by
  refine h.parenthesized ?_
  rw [List.forall₂_map_left_iff, List.forall₂_map_right_iff]
  exact h.ints ns

/-- Conditions on related tranches are related. -/
theorem trancheCondition (h : Compositional S R) {ids ids' : List String}
    (hids : List.Forall₂ S ids ids') :
    R (trancheCondition ids).fragments (trancheCondition ids').fragments := by
  refine h.isIn h.trancheId ?_
  rw [List.forall₂_map_left_iff, List.forall₂_map_right_iff]
  refine hids.imp fun s t hst => ?_
  rw [Expr.str, Expr.str, Expr.fragments, Expr.fragments]
  exact h.string hst

/-- Conditions on related selections are related. -/
theorem condition (h : Compositional S R) {s t : DealSelection} (hst : s.Related S t) :
    R s.condition.fragments t.condition.fragments := by
  have hempty : s.tranches.isEmpty = t.tranches.isEmpty := by
    rw [Bool.eq_iff_iff, List.isEmpty_iff_length_eq_zero, List.isEmpty_iff_length_eq_zero,
      hst.tranches.length_eq]
  have heq : BinaryOp.eq.fragment.IsFixed := ⟨by decide, by decide⟩
  have hdeal : R (Columns.dealNumber.equals (.int s.dealNumber)).fragments
      (Columns.dealNumber.equals (.int t.dealNumber)).fragments := by
    rw [hst.dealNumber]
    exact h.binary heq h.dealNumber (h.int _)
  refine h.exprParen ?_
  rw [hempty]
  split
  · exact hdeal
  · exact h.binary trivial hdeal (h.trancheCondition hst.tranches)

/-- Disjunctions of related conditions are related. -/
theorem foldl_or (h : Compositional S R) {t t' : Expr} {ts ts' : List Expr}
    (ht : R t.fragments t'.fragments)
    (hts : List.Forall₂ (fun u u' => R u.fragments u'.fragments) ts ts') :
    R (ts.foldl Expr.or t).fragments (ts'.foldl Expr.or t').fragments := by
  induction hts generalizing t t' with
  | nil => exact ht
  | cons hu _ ih => exact ih (h.binary trivial ht hu)

/-- **Conditions on related selections** are related. -/
theorem selectionCondition (h : Compositional S R) {deals deals' : List DealSelection}
    (hdeals : List.Forall₂ (DealSelection.Related S) deals deals') :
    R (selectionCondition deals).fragments (selectionCondition deals').fragments := by
  refine h.exprParen ?_
  cases hdeals with
  | nil => exact h.dealCondition []
  | cons hfirst hrest =>
    refine h.foldl_or (h.condition hfirst) ?_
    rw [List.forall₂_map_left_iff, List.forall₂_map_right_iff]
    exact hrest.imp fun _ _ => h.condition

end Compositional

end DealSql
