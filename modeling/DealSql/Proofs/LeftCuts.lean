import Mathlib.Data.List.Basic

/-!
# Cuts from the left

A list may be cut into parts of which each shows where it ends by itself and by
what stands behind it.  Where each list that is not empty begins with one part,
and only one, it has one cut.

* `LeftCut.existsUnique` — a list has one cut.
-/

namespace DealSql

/-- A way to cut lists into parts from the left.  `StandsBefore rest part` says that
the part, in front of the rest, ends where the rest begins. -/
structure LeftCut {α β : Type} (elements : β → List α) (StandsBefore : List α → β → Prop)
    (IsCut : List α → List β → Prop) : Prop where
  nil : IsCut [] []
  cons : ∀ {part rest parts}, StandsBefore rest part → IsCut rest parts →
    IsCut (elements part ++ rest) (part :: parts)
  inv : ∀ {s parts}, IsCut s parts → s = [] ∧ parts = [] ∨
    ∃ part rest parts', StandsBefore rest part ∧ IsCut rest parts' ∧
      s = elements part ++ rest ∧ parts = part :: parts'
  ne_nil : ∀ part, elements part ≠ []
  exists_first : ∀ a s, ∃ part rest, StandsBefore rest part ∧ a :: s = elements part ++ rest
  first_unique : ∀ {part part' rest rest'}, StandsBefore rest part → StandsBefore rest' part' →
    elements part ++ rest = elements part' ++ rest' → part = part' ∧ rest = rest'

namespace LeftCut

variable {α β : Type} {elements : β → List α} {StandsBefore : List α → β → Prop}
  {IsCut : List α → List β → Prop}

/-- **A list has one cut**, since its first part is determined and leaves a shorter
list. -/
theorem existsUnique (h : LeftCut elements StandsBefore IsCut) (s : List α) :
    ∃! parts, IsCut s parts := by
  induction hn : s.length using Nat.strongRecOn generalizing s with
  | _ n ih =>
    cases s with
    | nil =>
      refine ⟨[], h.nil, fun parts hparts => ?_⟩
      rcases h.inv hparts with ⟨-, rfl⟩ | ⟨part, rest, -, -, -, hs, -⟩
      · rfl
      · exact absurd (List.append_eq_nil_iff.1 hs.symm).1 (h.ne_nil part)
    | cons a s =>
      obtain ⟨part, rest, hpart, hs⟩ := h.exists_first a s
      have hlength : rest.length < n := by
        have hpos := List.length_pos_iff.2 (h.ne_nil part)
        rw [← hn, hs, List.length_append]
        omega
      obtain ⟨parts, hparts, hunique⟩ := ih _ hlength rest rfl
      rw [hs]
      refine ⟨part :: parts, h.cons hpart hparts, fun all hall => ?_⟩
      rcases h.inv hall with ⟨hnil, -⟩ | ⟨part', rest', parts', hpart', hparts', hs', rfl⟩
      · exact absurd (List.append_eq_nil_iff.1 hnil).1 (h.ne_nil part)
      · obtain ⟨rfl, rfl⟩ := h.first_unique hpart hpart' hs'
        rw [hunique parts' hparts']

end LeftCut

end DealSql
