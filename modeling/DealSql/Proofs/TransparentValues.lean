import DealSql.Proofs.PlaceholderValues
import DealSql.Proofs.TransparentTexts

/-!
# Transparent values

All values but the conditions on tranches are transparent where names stand
between double quotes: they hold integers, commas, one pair of parentheses
and names whose quotes come in pairs.  They can be put in a literal or in a
name and change nothing of what follows.

* `transparent_value` — the value of any other placeholder.
-/

namespace DealSql.Placeholder

open DealSql.Text DealSql.Statement DealSql.Sql

variable {d : Dialect}

/-- A list of integers is written with characters that open and close nothing. -/
theorem isPlain_of_mem_numbers (ns : List Int) :
    ∀ c ∈ write d (commaSeparated ((ns.map Expr.int).map Expr.fragments)), IsPlain c := by
  have hseparator : ∀ c ∈ write d separator, IsPlain c := by
    have hwrite : write d separator = [',', ' '] := rfl
    rw [hwrite]
    decide
  have hint : ∀ n : Int, write d (Expr.int n).fragments = integer n := by
    intro n
    simp [Expr.int, Expr.fragments, Literal.fragment, write, Fragment.write]
  induction ns with
  | nil => simp [commaSeparated, write]
  | cons n ns ih =>
    cases ns with
    | nil =>
      have hsingle : commaSeparated (([n].map Expr.int).map Expr.fragments) =
          (Expr.int n).fragments := by simp [commaSeparated, List.intercalate]
      rw [hsingle, hint]
      exact fun _ hc => isPlain_of_mem_integer hc
    | cons m ns =>
      simp only [List.map_cons] at ih ⊢
      rw [commaSeparated_cons, write_append, write_append, hint]
      intro c hc
      rcases List.mem_append.1 hc with hc | hc
      · exact isPlain_of_mem_integer hc
      · rcases List.mem_append.1 hc with hc | hc
        · exact hseparator c hc
        · exact ih c hc

/-- A list of integers in parentheses is transparent. -/
theorem transparent_numbers (ns : List Int) : Transparent (writeList d (ns.map Expr.int)) := by
  have hplain := isPlain_of_mem_numbers (d := d) ns
  have hwrite : writeList d (ns.map Expr.int) =
      '(' :: write d (commaSeparated ((ns.map Expr.int).map Expr.fragments)) ++ [')'] := by
    rw [writeList, parenthesized, write_append]
    rfl
  have hwhole : Whole (writeList d (ns.map Expr.int)) := (piecewise_numbers ns).whole
  rw [hwrite] at hwhole ⊢
  refine transparent_of_whole hwhole (by simp) rfl ?_ ?_
    (balanced_of_plain fun c hc => (hplain c hc).2).paren
  · rw [List.getLast?_concat]
    rfl
  · intro c hc
    rcases List.mem_append.1 hc with hc | hc
    · rcases List.mem_cons.1 hc with rfl | hc
      · decide
      · exact (hplain c hc).1
    · obtain rfl := List.mem_singleton.1 hc
      decide

/-- A natural number is transparent. -/
theorem transparent_natural (n : Nat) : Transparent (natural n) :=
  transparent_of_plain (whole_natural n) Nat.toDigits_ne_nil (natural_ends n).1
    (natural_ends n).2 fun _ hc => isPlain_of_isDigit (isDigit_of_mem_natural hc)

/-- How a condition on deals begins. -/
def membership : List Char := "\"deal\".\"dl_nbr\" IN ".toList

/-- How a condition on deals begins is transparent: its quotes come in pairs. -/
theorem transparent_membership : Transparent membership := by
  refine ⟨?_, ?_⟩
  · intro g hg
    rcases hg with rfl | rfl | rfl
    all_goals exact ⟨by decide, by decide, by decide, by decide⟩
  · intro a ha
    obtain ⟨g, n⟩ := a
    obtain ⟨hg, hn⟩ := ha
    have hdepth : ∀ c ∈ maskFrom .commentsAndLiterals g membership, c ≠ '(' ∧ c ≠ ')' := by
      rcases hg with rfl | rfl | rfl
      all_goals decide
    have hname : ∀ name, name = none ∨ name = some '"' ∨ name = some ']' →
        (Nesting.after true ⟨0, name⟩
          (maskFrom .commentsAndLiterals g membership)).name = name := by
      intro name hname
      rcases hg with rfl | rfl | rfl <;> rcases hname with rfl | rfl | rfl
      all_goals decide
    have hsame := Nesting.after_name_eq (n := n) (m := ⟨0, n.name⟩) rfl
      (maskFrom .commentsAndLiterals g membership)
    exact Nesting.ext (Nesting.after_depth_eq hdepth) (hsame.trans (hname n.name hn))

variable {x : Execution} {p : Placeholder} {v : List Char}

/-- **The value of any other placeholder** is transparent. -/
theorem transparent_value (hd : d ≠ .tsql) (hp : p ≠ .dealTrancheFilter)
    (h : value d x p = .ok v) : Transparent v := by
  rcases value_eq_ok h with ⟨n, rfl⟩ | ⟨hdeals, rfl | ⟨htranches, -⟩ | rfl⟩
  · exact transparent_natural n
  · have hnumbers : x.dealNumbers.map Expr.int ≠ [] := by simpa [Execution.dealNumbers] using hdeals
    have hmembership : write d (Columns.dealNumber.fragments ++ [.space, .keyword .IN, .space]) =
        membership := by
      cases d with
      | tsql => exact absurd rfl hd
      | _ => rfl
    rw [Expr.write, dealCondition, isIn_fragments hnumbers, write_append, hmembership]
    exact transparent_membership.append (transparent_numbers x.dealNumbers)
  · exact absurd htranches hp
  · exact transparent_numbers x.dealNumbers

end DealSql.Placeholder
