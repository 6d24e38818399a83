import DealSql.Placeholder.Substitution
import DealSql.Proofs.ConditionFragments
import DealSql.Proofs.Templates

/-!
# The values of placeholders

A value is a number, or an expression made of four names, numbers, the
identifiers of tranches and punctuation.  It is whole, and neither of its
ends makes a pair, so it can stand anywhere in the code; and it holds a
brace only if the identifier of a tranche does.

* `value_keeps` — a value in the code.
* `value_braceFree` — a value without braces.
-/

namespace DealSql

open DealSql.Text DealSql.Statement DealSql.Sql

/-! ## The fragments of conditions -/

/-- Whether conditions on deals and the given tranches are written with a fragment. -/
def Sql.Fragment.IsOfCondition (ids : List String) : Fragment → Prop
  | .keyword _ => True
  | .symbol _ => True
  | .space => True
  | .integer _ => True
  | .identifier s => s ∈ conditionNames
  | .string s => s ∈ ids
  | _ => False

/-- Fragments with which conditions on deals and the given tranches are written. -/
def AreOfCondition (ids : List String) (fs : List Fragment) : Prop :=
  ∀ f ∈ fs, f.IsOfCondition ids

variable {ids : List String} {fs gs : List Fragment}

@[simp] theorem areOfCondition_nil : AreOfCondition ids [] := by simp [AreOfCondition]

@[simp] theorem areOfCondition_cons {f : Fragment} :
    AreOfCondition ids (f :: fs) ↔ f.IsOfCondition ids ∧ AreOfCondition ids fs := by
  simp [AreOfCondition]

@[simp] theorem areOfCondition_append :
    AreOfCondition ids (fs ++ gs) ↔ AreOfCondition ids fs ∧ AreOfCondition ids gs := by
  simp [AreOfCondition, or_imp, forall_and]

/-- Fragments of conditions may be put together. -/
theorem compositional_areOfCondition (ids : List String) :
    Compositional (fun s _ => s ∈ ids) fun fs _ => AreOfCondition ids fs where
  nil := areOfCondition_nil
  append hf hg := areOfCondition_append.2 ⟨hf, hg⟩
  paren h := by simp [Fragment.IsOfCondition, h]
  fixed hf := by
    rw [areOfCondition_cons]
    refine ⟨?_, areOfCondition_nil⟩
    unfold Fragment.IsFixed at hf
    split at hf
    · trivial
    · trivial
    · trivial
    · trivial
    · exact hf
    · exact hf.elim
  string hs := areOfCondition_cons.2 ⟨hs, areOfCondition_nil⟩

/-- The identifiers of all selected tranches. -/
def Execution.trancheIds (x : Execution) : List String := x.deals.flatMap DealSelection.tranches

/-- The condition on selections names the selected tranches only. -/
theorem areOfCondition_selectionCondition (x : Execution) :
    AreOfCondition x.trancheIds (selectionCondition x.deals).fragments := by
  have hselections :
      List.Forall₂ (DealSelection.Related fun i _ => i ∈ x.trancheIds) x.deals x.deals := by
    rw [List.forall₂_same]
    intro s hs
    refine ⟨rfl, ?_⟩
    rw [List.forall₂_same]
    exact fun i hi => List.mem_flatMap.2 ⟨s, hs, hi⟩
  exact (compositional_areOfCondition x.trancheIds).selectionCondition hselections

/-! ## Written conditions -/

/-- The fragments of conditions are whole. -/
theorem whole_of_isOfCondition {d : Dialect} {f : Fragment} (h : f.IsOfCondition ids) :
    Whole (f.write d) := by
  refine whole_fragment f (fun s hs => ?_) (fun s hs => ?_) (fun s hs => ?_)
  · subst hs
    cases d with
    | tsql =>
      have hnames : ∀ s ∈ conditionNames, ∀ c ∈ Dialect.tsql.quoteIdentifier s.toList,
          isInert c = true := by decide
      exact Or.inr (whole_of_inert (hnames s h)).1
    | _ => exact Or.inl (by decide)
  · subst hs
    exact h.elim
  · subst hs
    exact h.elim

/-- A condition is read fragment by fragment. -/
theorem AreOfCondition.piecewise {d : Dialect} {e : Expr} (h : AreOfCondition ids e.fragments) :
    Piecewise d e.fragments := piecewise_fragments e fun f hf => whole_of_isOfCondition (h f hf)

/-- Numbers are without braces. -/
theorem braceFree_integer (n : Int) : Placeholder.BraceFree (integer n) := by
  have hnatural : ∀ k : Nat, Placeholder.BraceFree (natural k) := by
    intro k c hc
    have hdigit := isDigit_of_mem_natural hc
    exact ⟨ne_of_test hdigit (by decide), ne_of_test hdigit (by decide)⟩
  unfold integer
  split
  · exact Placeholder.braceFree_cons.2 ⟨by decide, hnatural _⟩
  · exact hnatural _

/-- Quoting a string adds no braces. -/
theorem braceFree_quoteString {d : Dialect} {s : List Char} (h : Placeholder.BraceFree s) :
    Placeholder.BraceFree (d.quoteString s) := by
  have hquoted : Placeholder.BraceFree (quoteWith '\'' '\'' s) := by
    refine Placeholder.braceFree_append.2 ⟨Placeholder.braceFree_cons.2 ⟨by decide, ?_⟩, by decide⟩
    exact fun c hc => h c (mem_double_iff.1 hc)
  unfold Dialect.quoteString
  split
  · exact Placeholder.braceFree_cons.2 ⟨by decide, hquoted⟩
  · exact hquoted

/-- A fragment of a condition holds a brace only if a tranche does. -/
theorem braceFree_of_isOfCondition {d : Dialect} {f : Fragment} (h : f.IsOfCondition ids)
    (hids : ∀ i ∈ ids, Placeholder.BraceFree i.toList) : Placeholder.BraceFree (f.write d) := by
  cases f with
  | keyword k =>
    have hk : Placeholder.BraceFree k.text.toList := by cases k <;> decide
    exact hk
  | symbol s =>
    have hs : Placeholder.BraceFree s.text.toList := by cases s <;> decide
    exact hs
  | space =>
    have hs : Placeholder.BraceFree [' '] := by decide
    exact hs
  | integer n => exact braceFree_integer n
  | identifier s =>
    have hnames : ∀ s ∈ conditionNames, Placeholder.BraceFree (d.quoteIdentifier s.toList) := by
      cases d <;> decide
    exact hnames s h
  | string s => exact braceFree_quoteString (hids s h)
  | _ => exact h.elim

/-- A condition holds a brace only if a tranche does. -/
theorem AreOfCondition.braceFree {d : Dialect} (h : AreOfCondition ids fs)
    (hids : ∀ i ∈ ids, Placeholder.BraceFree i.toList) : Placeholder.BraceFree (write d fs) := by
  intro c hc
  obtain ⟨f, hf, hcf⟩ := List.mem_flatMap.1 hc
  exact braceFree_of_isOfCondition (h f hf) hids c hcf

/-! ## Values -/

namespace Placeholder

variable {d : Dialect} {x : Execution} {p : Placeholder} {v : List Char}

/-- A list of fragments that ends in a closing parenthesis. -/
theorem write_closeParen (d : Dialect) (fs : List Fragment) :
    (write d (fs ++ [.symbol .closeParen])).getLast? = some ')' := by
  have hclose : write d [.symbol .closeParen] = [')'] := rfl
  rw [write_append, hclose, List.getLast?_concat]

/-- The text of a cycle is a natural number. -/
theorem cycleText_natural {months : Nat} (h : cycleText x months = .ok v) :
    ∃ n : Nat, v = natural n := by
  unfold cycleText at h
  split at h
  · next c hc =>
    cases h
    have hcode : c.code = ((c.year * 100 + c.month : Nat) : Int) := rfl
    refine ⟨c.year * 100 + c.month, ?_⟩
    rw [Cycle.text, hcode, integer, if_neg (by omega), Int.natAbs_natCast]
  · cases h

/-- What needs a selection has a value only with one. -/
theorem ifSelected_eq_ok {text : List Char} (h : ifSelected x p text = .ok v) :
    x.deals ≠ [] ∧ v = text := by
  unfold ifSelected at h
  split at h
  · cases h
  · next hdeals =>
    cases h
    exact ⟨by simpa using hdeals, rfl⟩

/-- What the value of a placeholder is: a number or, of the selected deals, the
text of a condition or of a list. -/
theorem value_eq_ok (h : value d x p = .ok v) :
    (∃ n : Nat, v = natural n) ∨ x.deals ≠ [] ∧
      (v = (dealCondition x.dealNumbers).write d ∨
        p = .dealTrancheFilter ∧ v = (selectionCondition x.deals).write d ∨
        v = writeList d (x.dealNumbers.map Expr.int)) := by
  have hcycle : ∀ months, cycleText x months = .ok v → ∃ n : Nat, v = natural n :=
    fun _ => cycleText_natural
  cases p with
  | currentCycle => exact Or.inl (hcycle 0 h)
  | previousCycle => exact Or.inl (hcycle 1 h)
  | earlierCycle k => exact Or.inl (hcycle (k.val + 2) h)
  | dealFilter => exact Or.inr ((ifSelected_eq_ok h).imp_right Or.inl)
  | dealTrancheFilter =>
    exact Or.inr ((ifSelected_eq_ok h).imp_right fun hv => Or.inr (Or.inl ⟨rfl, hv⟩))
  | dealNumbers => exact Or.inr ((ifSelected_eq_ok h).imp_right fun hv => Or.inr (Or.inr hv))

/-- How the value of a placeholder is written: a number, or fragments of a
condition from a name or a parenthesis to a parenthesis. -/
theorem value_cases (h : value d x p = .ok v) :
    (∃ n : Nat, v = natural n) ∨
      ∃ fs, v = write d fs ∧ AreOfCondition x.trancheIds fs ∧ Piecewise d fs ∧
        (write d fs).head?.any isPairing = false ∧ (write d fs).getLast? = some ')' := by
  rcases value_eq_ok h with hnumber | ⟨hdeals, rfl | ⟨-, rfl⟩ | rfl⟩
  · exact Or.inl hnumber
  · have hnumbers : x.dealNumbers.map Expr.int ≠ [] := by simpa [Execution.dealNumbers] using hdeals
    have hcondition : AreOfCondition x.trancheIds (dealCondition x.dealNumbers).fragments :=
      (compositional_areOfCondition x.trancheIds).dealCondition x.dealNumbers
    refine Or.inr ⟨_, rfl, hcondition, hcondition.piecewise, ?_⟩
    rw [dealCondition, isIn_fragments hnumbers, parenthesized, ← List.append_assoc]
    exact ⟨by cases d <;> rfl, write_closeParen d _⟩
  · have hcondition := areOfCondition_selectionCondition x
    refine Or.inr ⟨_, rfl, hcondition, hcondition.piecewise, ?_⟩
    rw [selectionCondition, Expr.fragments]
    exact ⟨rfl, write_closeParen d _⟩
  · refine Or.inr ⟨_, rfl, (compositional_areOfCondition x.trancheIds).numbers x.dealNumbers,
      piecewise_numbers x.dealNumbers, ?_⟩
    exact ⟨rfl, write_closeParen d _⟩

/-- **A value in the code** is whole and can stand anywhere. -/
theorem value_keeps (h : value d x p = .ok v) : Whole v ∧ Region.Keeps .code v := by
  rcases value_cases h with ⟨n, rfl⟩ | ⟨fs, rfl, -, hpieces, hbegins, hends⟩
  · have hwhole := whole_natural n
    exact ⟨hwhole, hwhole.keeps Nat.toDigits_ne_nil (natural_ends n).1 (natural_ends n).2⟩
  · refine ⟨hpieces.whole, hpieces.whole.keeps ?_ hbegins ?_⟩
    · intro hnil
      simp [hnil] at hends
    · rw [hends]
      rfl

/-- **A value without braces**, when no selected tranche has one. -/
theorem value_braceFree (h : value d x p = .ok v)
    (hids : ∀ i ∈ x.trancheIds, BraceFree i.toList) : BraceFree v := by
  rcases value_cases h with ⟨n, rfl⟩ | ⟨fs, rfl, hcondition, -⟩
  · exact braceFree_integer n
  · exact hcondition.braceFree hids

end Placeholder

end DealSql
