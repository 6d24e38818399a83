import DealSql.Text.Integer

/-!
# Placeholders

The names that a statement may hold between braces, and what each stands
for when a calculation runs.  The vocabulary is fixed.

* `parse?_eq_some` — a name is recognised exactly when it is the name of a
  placeholder.
-/

namespace DealSql

open DealSql.Text

/-- A name with a value of its own at each run. -/
inductive Placeholder where
  | currentCycle
  | previousCycle
  /-- The cycle `beyond + 2` months before the current one. -/
  | earlierCycle (beyond : Fin 11)
  | dealFilter
  | dealTrancheFilter
  | dealNumbers
  deriving Repr, DecidableEq

namespace Placeholder

/-- The version of the vocabulary. -/
def vocabularyVersion : Nat := 1

/-- The greatest number of months that a name can ask to go back. -/
def maxCycleOffset : Nat := 12

/-- What kind of text takes the place of a placeholder. -/
inductive Category where
  /-- The code of a cycle. -/
  | period
  /-- A condition on the selected deals. -/
  | filter
  /-- A list of values in parentheses. -/
  | identifierList
  deriving Repr, DecidableEq

/-- The name of a category in data. -/
def Category.name : Category → String
  | .period => "period"
  | .filter => "filter"
  | .identifierList => "identifier_list"

/-- The name of a category in text. -/
def Category.title : Category → String
  | .period => "period"
  | .filter => "filter"
  | .identifierList => "identifier-list"

/-- The placeholders in the order in which they are shown. -/
def all : List Placeholder :=
  [.currentCycle, .previousCycle] ++ (List.finRange 11).map .earlierCycle ++
    [.dealFilter, .dealTrancheFilter, .dealNumbers]

/-- The months to go back from the current cycle, where the value is a cycle. -/
def cycleOffset? : Placeholder → Option Nat
  | .currentCycle => some 0
  | .previousCycle => some 1
  | .earlierCycle k => some (k.val + 2)
  | _ => none

/-- The name of a placeholder, without the braces. -/
def name : Placeholder → List Char
  | .currentCycle => "current_cycle".toList
  | .previousCycle => "previous_cycle".toList
  | .earlierCycle k => "cycle_minus_".toList ++ natural (k.val + 2)
  | .dealFilter => "deal_filter".toList
  | .dealTrancheFilter => "deal_tranche_filter".toList
  | .dealNumbers => "deal_numbers".toList

/-- A placeholder as it stands in a statement. -/
def display (p : Placeholder) : List Char := '\x7b' :: p.name ++ ['\x7d']

/-- What kind of text a placeholder stands for. -/
def category : Placeholder → Category
  | .dealFilter => .filter
  | .dealTrancheFilter => .filter
  | .dealNumbers => .identifierList
  | _ => .period

/-- What a placeholder stands for, in words. -/
def description : Placeholder → String
  | .currentCycle => "Cycle code of the reporting period being run"
  | .previousCycle => "Cycle code one month before the current cycle"
  | .earlierCycle k => s!"Cycle code {k.val + 2} months before the current cycle"
  | .dealFilter => "Predicate restricting deal.dl_nbr to the selected deals"
  | .dealTrancheFilter => "Predicate restricting each selected deal to its selected tranches"
  | .dealNumbers => "Parenthesized list of the selected deal numbers"

/-- The placeholder with a name. -/
def parse? (name : List Char) : Option Placeholder := all.find? fun p => p.name == name

/-- Every placeholder is shown. -/
theorem mem_all (p : Placeholder) : p ∈ all := by
  cases p with
  | earlierCycle k => simp [all, List.mem_finRange]
  | _ => simp [all]

/-- No two placeholders have the same name. -/
theorem name_injective : ∀ p ∈ all, ∀ q ∈ all, p.name = q.name → p = q := by decide

/-- A name is recognised exactly when it is the name of a placeholder. -/
theorem parse?_eq_some {name : List Char} {p : Placeholder} :
    parse? name = some p ↔ p.name = name := by
  constructor
  · intro h
    simpa using List.find?_some h
  · intro h
    unfold parse?
    cases hf : all.find? fun q => q.name == name with
    | none =>
      have := List.find?_eq_none.1 hf p (mem_all p)
      simp [h] at this
    | some q =>
      have hq : q.name = name := by simpa using List.find?_some hf
      rw [name_injective q (mem_all q) p (mem_all p) (hq.trans h.symm)]

end Placeholder

end DealSql
