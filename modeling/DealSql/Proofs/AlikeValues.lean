import DealSql.Proofs.AlikeTexts
import DealSql.Proofs.PlaceholderValues
import Mathlib.Data.List.Forall2

/-!
# Values with alike texts

Two executions of the same shape select the same deals in the same order,
and as many tranches in each.  Their values differ in nothing but the
literals with the identifiers of tranches: masked, they are alike.

* `alike_selectionCondition` — the conditions on the selected tranches.
-/

namespace DealSql

open DealSql.Text DealSql.Statement DealSql.Sql

/-! ## Masked fragments -/

/-- What is shown of a fragment that is read as code, its literals masked. -/
def Sql.Fragment.shown (d : Dialect) (f : Fragment) : List Char :=
  maskFrom .commentsAndLiterals .code (f.write d)

/-- What is shown of fragments that are read one by one. -/
def shownFragments (d : Dialect) (fs : List Fragment) : List Char := fs.flatMap (Fragment.shown d)

/-- What is shown of fragments is shown of each. -/
theorem Sql.Piecewise.maskFrom_eq {d : Dialect} {fs : List Fragment} (h : Piecewise d fs) :
    maskFrom .commentsAndLiterals .code (write d fs) = shownFragments d fs := by
  rw [maskFrom, h.marks, List.flatMap_assoc]
  rfl

/-- Of a quoted string only the quotes are shown. -/
theorem shown_of_quoted {d : Dialect} {s : String}
    (h : (Fragment.string s).write d = quoteWith '\'' '\'' s.toList) :
    ∃ b, (∀ c ∈ b, isBlank c = true) ∧ Fragment.shown d (.string s) = '\'' :: b ++ ['\''] := by
  refine ⟨(double '\'' s.toList).flatMap blanks, fun c hc => ?_, ?_⟩
  · obtain ⟨e, -, hce⟩ := List.mem_flatMap.1 hc
    exact isBlank_of_mem_blanks hce
  · rw [Fragment.shown, maskFrom, h, marks_quoteLiteral]
    simp [Mask.show, Mask.hides, List.flatMap_map]

/-- Fragments that are alike once their literals are masked, with matching
parentheses. -/
structure AlikeFragments (d : Dialect) (fs gs : List Fragment) : Prop where
  alike : ∀ depth, Alike ⟨depth, none⟩ (shownFragments d fs) (shownFragments d gs)
  balanced : Balanced (shownFragments d fs)

namespace AlikeFragments

variable {d : Dialect} {fs fs' gs gs' : List Fragment}

theorem nil : AlikeFragments d [] [] := ⟨fun _ => .same _ _, balanced_nil⟩

/-- Alike fragments side by side are alike. -/
theorem append (h : AlikeFragments d fs fs') (h' : AlikeFragments d gs gs') :
    AlikeFragments d (fs ++ gs) (fs' ++ gs') := by
  constructor
  · intro depth
    simp only [shownFragments, List.flatMap_append]
    refine (h.alike depth).append ?_
    rw [h.balanced depth]
    exact h'.alike depth
  · simpa [shownFragments] using h.balanced.append h'.balanced

/-- A fragment is like itself. -/
theorem single {f : Fragment} (h : Balanced (f.shown d)) : AlikeFragments d [f] [f] := by
  refine ⟨fun _ => .same _ _, ?_⟩
  simpa [shownFragments] using h

/-- Alike fragments are alike between parentheses. -/
theorem paren (h : AlikeFragments d fs gs) :
    AlikeFragments d (.symbol .openParen :: fs ++ [.symbol .closeParen])
      (.symbol .openParen :: gs ++ [.symbol .closeParen]) := by
  have hshown : ∀ hs, shownFragments d (.symbol .openParen :: hs ++ [.symbol .closeParen]) =
      ['('] ++ (shownFragments d hs ++ [')']) := by
    intro hs
    have hopen : Fragment.shown d (.symbol .openParen) = ['('] := rfl
    have hclose : Fragment.shown d (.symbol .closeParen) = [')'] := rfl
    simp [shownFragments, hopen, hclose]
  constructor
  · intro depth
    rw [hshown, hshown]
    refine Alike.append_same ['('] (Alike.append (h.alike (depth + 1)) (.same _ _))
  · rw [hshown]
    exact h.balanced.paren

/-- Two strings are alike. -/
theorem string (hd : d ≠ .tsql) (s t : String) : AlikeFragments d [.string s] [.string t] := by
  have hshown : ∀ s : String, ∃ b, (∀ c ∈ b, isBlank c = true) ∧
      shownFragments d [.string s] = [] ++ ('\'' :: b ++ '\'' :: []) := by
    intro s
    have hquote : (Fragment.string s).write d = quoteWith '\'' '\'' s.toList := by
      cases d with
      | tsql => exact absurd rfl hd
      | _ => rfl
    obtain ⟨b, hb, hshown⟩ := shown_of_quoted hquote
    exact ⟨b, hb, by rw [shownFragments, List.flatMap_singleton, hshown]; rfl⟩
  obtain ⟨b, hb, hs⟩ := hshown s
  obtain ⟨b', hb', ht⟩ := hshown t
  constructor
  · intro depth
    rw [hs, ht]
    exact .literal [] rfl hb hb' (.same _ _)
  · intro depth
    rw [hs, List.nil_append, Nesting.after_literal rfl hb]
    rfl

end AlikeFragments

/-! ## Conditions -/

variable {d : Dialect}

/-- The fragments with which all conditions are written leave nothing open. -/
theorem balanced_of_isFixed (hd : d ≠ .tsql) {f : Fragment} (h : f.IsFixed) :
    Balanced (f.shown d) := by
  cases f with
  | keyword k =>
    have hplain : ∀ c ∈ maskFrom .commentsAndLiterals .code k.text.toList,
        closing? c = none ∧ c ≠ '(' ∧ c ≠ ')' := by cases k <;> decide
    exact balanced_of_plain hplain
  | symbol s =>
    have hplain : s = .openParen ∨ s = .closeParen ∨
        ∀ c ∈ maskFrom .commentsAndLiterals .code s.text.toList,
          closing? c = none ∧ c ≠ '(' ∧ c ≠ ')' := by cases s <;> decide
    rcases hplain with rfl | rfl | hplain
    · exact absurd rfl h.1
    · exact absurd rfl h.2
    · exact balanced_of_plain hplain
  | space => exact balanced_of_plain (s := [' ']) (by decide)
  | integer n =>
    have hshown : Fragment.shown d (.integer n) = integer n :=
      (whole_integer n).maskLiterals_eq fun _ hc => (isPlain_of_mem_integer hc).1.1
    rw [hshown]
    exact balanced_of_plain fun _ hc => (isPlain_of_mem_integer hc).2
  | identifier s =>
    have hnames : ∀ s ∈ conditionNames, ∀ depth,
        Nesting.after true ⟨depth, none⟩ (Fragment.shown d (.identifier s)) = ⟨depth, none⟩ := by
      cases d with
      | tsql => exact absurd rfl hd
      | _ =>
        simp only [conditionNames, List.forall_mem_cons]
        exact ⟨fun _ => rfl, fun _ => rfl, fun _ => rfl, fun _ => rfl, by simp⟩
    exact hnames s h
  | _ => exact h.elim

/-- Alike fragments may be put together. -/
theorem compositional_alikeFragments (hd : d ≠ .tsql) :
    Compositional (fun _ _ => True) (AlikeFragments d) where
  nil := .nil
  append := .append
  paren := .paren
  fixed hf := .single (balanced_of_isFixed hd hf)
  string _ := .string hd _ _

/-! ## Selections -/

/-- Selections of as many tranches of the same deal. -/
structure DealSelection.SameShape (s t : DealSelection) : Prop where
  dealNumber : s.dealNumber = t.dealNumber
  tranches : s.tranches.length = t.tranches.length

/-- Selections of the same shape are related whatever their tranches are. -/
theorem DealSelection.SameShape.related {s t : DealSelection} (h : s.SameShape t) :
    s.Related (fun _ _ => True) t :=
  ⟨h.dealNumber, List.forall₂_iff_zip.2 ⟨h.tranches, fun _ => trivial⟩⟩

/-- **Conditions on selections of the same shapes** are alike. -/
theorem alike_selectionCondition (hd : d ≠ .tsql) {deals deals' : List DealSelection}
    (h : List.Forall₂ DealSelection.SameShape deals deals') :
    AlikeFragments d (selectionCondition deals).fragments (selectionCondition deals').fragments :=
  (compositional_alikeFragments hd).selectionCondition
    (h.imp fun _ _ => DealSelection.SameShape.related)

end DealSql
