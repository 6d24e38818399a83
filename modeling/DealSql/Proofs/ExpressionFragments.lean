import DealSql.Proofs.ExpressionParts
import DealSql.Proofs.FittingFragments

/-!
# The fragments of an expression

The fragments of an expression are those of its components, its own, and a
few that only put them together.  Whatever the components, the fragments
fit: an operator stands between spaces, a list between parentheses, and a
table is joined to its column by a point.

* `mem_fragments` — the fragments of an expression are those of its components.
* `fitting_fragments` — simple fragments of an expression fit.
-/

namespace DealSql.Sql

variable {f a : Fragment} {fs gs cs : List Fragment}

/-! ## Fragments of components -/

namespace Expr

/-- The fragments that put expressions together. -/
def joiningFragments : List Fragment :=
  [.space, .symbol .comma, .symbol .dot, .symbol .openParen, .symbol .closeParen,
   .keyword .DISTINCT, .keyword .NOT, .keyword .IN, .keyword .TRUE, .keyword .FALSE]

/-- The fragments of an expression that are of none of its components. -/
def ownFragments : Expr → List Fragment
  | .column table name => table.toList.map .identifier ++ [.identifier name]
  | .literal v => [v.fragment]
  | .binary _ op _ => [op.fragment]
  | .call function _ _ => [.function function]
  | .star table => table.toList.map .identifier ++ [.symbol .star]
  | _ => []

/-- The fragments of a list are those of its elements. -/
theorem mem_of_mem_commaSeparated {parts : List (List Fragment)}
    (h : f ∈ commaSeparated parts) : f ∈ [Fragment.symbol .comma, .space] ∨ ∃ p ∈ parts, f ∈ p := by
  induction parts with
  | nil => simp [commaSeparated] at h
  | cons p ps ih =>
    cases ps with
    | nil => exact Or.inr ⟨p, by simp, by simpa [commaSeparated] using h⟩
    | cons q qs =>
      rw [commaSeparated_cons] at h
      rcases List.mem_append.1 h with h | h
      · exact Or.inr ⟨p, by simp, h⟩
      · rcases List.mem_append.1 h with h | h
        · exact Or.inl h
        · refine (ih h).imp_right fun hpart => ?_
          obtain ⟨x, hx, hf⟩ := hpart
          exact ⟨x, List.mem_cons_of_mem p hx, hf⟩

/-- A name is written as itself, behind its table if it has one. -/
theorem mem_qualified {table : Option String} (h : f ∈ qualifier table ++ [a]) :
    f ∈ joiningFragments ∨ f ∈ table.toList.map Fragment.identifier ++ [a] := by
  cases table with
  | none => exact Or.inr h
  | some t =>
    simp only [qualifier, List.cons_append, List.nil_append, List.mem_cons, List.not_mem_nil,
      or_false] at h
    rcases h with rfl | rfl | rfl
    · exact Or.inr (by simp)
    · exact Or.inl (by decide)
    · exact Or.inr (by simp)

/-- The fragments of listed expressions are theirs. -/
theorem mem_of_mem_listed {es : List Expr} (h : f ∈ commaSeparated (fragmentsOfEach es)) :
    f ∈ joiningFragments ∨ ∃ c ∈ es, f ∈ c.fragments := by
  have hseparator : ∀ g ∈ [Fragment.symbol .comma, .space], g ∈ joiningFragments := by decide
  rcases mem_of_mem_commaSeparated h with h | ⟨p, hp, hf⟩
  · exact Or.inl (hseparator f h)
  · rw [fragmentsOfEach_eq] at hp
    obtain ⟨c, hc, rfl⟩ := List.mem_map.1 hp
    exact Or.inr ⟨c, hc, hf⟩

/-- **The fragments of an expression** are those of its components, its own,
and those that put them together. -/
theorem mem_fragments {e : Expr} (h : f ∈ e.fragments) :
    f ∈ joiningFragments ∨ f ∈ e.ownFragments ∨ ∃ c ∈ e.components, f ∈ c.fragments := by
  have hjoining : ∀ fs : List Fragment, f ∈ fs → (∀ g ∈ fs, g ∈ joiningFragments) →
      f ∈ joiningFragments := fun _ hmem hall => hall f hmem
  cases e with
  | column table name =>
    rw [fragments] at h
    exact (mem_qualified h).imp_right Or.inl
  | literal v => exact Or.inr (Or.inl h)
  | binary l op r =>
    simp only [fragments, List.mem_append] at h
    rcases h with (h | h) | h
    · exact Or.inr (Or.inr ⟨l, by simp [components], h⟩)
    · simp only [List.mem_cons, List.not_mem_nil, or_false] at h
      rcases h with rfl | rfl | rfl
      · exact Or.inl (by decide)
      · exact Or.inr (Or.inl (by simp [ownFragments]))
      · exact Or.inl (by decide)
    · exact Or.inr (Or.inr ⟨r, by simp [components], h⟩)
  | call function args distinct =>
    simp only [fragments, List.mem_append] at h
    rcases h with ((h | h) | h) | h
    · simp only [List.mem_cons, List.not_mem_nil, or_false] at h
      rcases h with rfl | rfl
      · exact Or.inr (Or.inl (by simp [ownFragments]))
      · exact Or.inl (by decide)
    · cases distinct with
      | true => exact Or.inl (hjoining _ h (by decide))
      | false => cases h
    · exact (mem_of_mem_listed h).imp_right Or.inr
    · exact Or.inl (hjoining _ h (by decide))
  | member e values negated =>
    rw [fragments] at h
    split at h
    · cases negated with
      | true => exact Or.inl (hjoining _ h (by decide))
      | false => exact Or.inl (hjoining _ h (by decide))
    · simp only [parenthesized, List.cons_append, List.mem_append, List.mem_cons] at h
      rcases h with ((h | h) | h) | h | h | h
      · exact Or.inr (Or.inr ⟨e, by simp [components], h⟩)
      · cases negated with
        | true => exact Or.inl (hjoining _ h (by decide))
        | false => cases h
      · exact Or.inl (hjoining [.space, .keyword .IN, .space] (by simpa using h)
          (by decide))
      · subst h
        exact Or.inl (by decide)
      · refine (mem_of_mem_listed h).imp_right fun hcomponent => Or.inr ?_
        obtain ⟨c, hc, hf⟩ := hcomponent
        exact ⟨c, by simp [components, hc], hf⟩
      · exact Or.inl (hjoining [.symbol .closeParen] (by simpa using h) (by decide))
  | star table =>
    rw [fragments] at h
    exact (mem_qualified h).imp_right Or.inl
  | paren e =>
    simp only [fragments, List.cons_append, List.mem_cons, List.mem_append] at h
    rcases h with rfl | h | h
    · exact Or.inl (by decide)
    · exact Or.inr (Or.inr ⟨e, by simp [components], h⟩)
    · exact Or.inl (hjoining [.symbol .closeParen] (by simpa using h) (by decide))

end Expr

/-! ## How fragments fit -/

theorem fits_of_left {g : Fragment} (h : f.setsApart = true) : f.fits g = true := by
  simp [Fragment.fits, h]

theorem fits_of_right {g : Fragment} (h : g.setsApart = true) : f.fits g = true := by
  simp [Fragment.fits, h]

/-- Fragments may follow any that end in one that sets apart. -/
theorem Fitting.append_of_last (hf : Fitting fs) (hg : Fitting gs)
    (h : fs.getLast?.all Fragment.setsApart = true) : Fitting (fs ++ gs) := by
  refine hf.append hg fun f hlast g _ => fits_of_left ?_
  rw [Option.mem_def.1 hlast] at h
  exact h

/-- Fragments may stand before any that begin with one that sets apart. -/
theorem Fitting.append_of_head (hf : Fitting fs) (hg : Fitting gs)
    (h : gs.head?.all Fragment.setsApart = true) : Fitting (fs ++ gs) := by
  refine hf.append hg fun f _ g hhead => fits_of_right ?_
  rw [Option.mem_def.1 hhead] at h
  exact h

/-- Fragments on both sides of some that set apart at their ends. -/
theorem Fitting.around (hf : Fitting fs) (hc : Fitting cs) (hg : Fitting gs)
    (hhead : cs.head?.all Fragment.setsApart = true) (hlast : cs.getLast?.all Fragment.setsApart = true)
    (hne : cs ≠ []) : Fitting (fs ++ cs ++ gs) := by
  refine (hf.append_of_head hc hhead).append_of_last hg ?_
  rw [List.getLast?_append]
  cases hl : cs.getLast? with
  | none => exact absurd (List.getLast?_eq_none_iff.1 hl) hne
  | some a => simpa [hl] using hlast

/-- The fragments between those of two operands. -/
theorem fitting_operator (hf : f.IsSimple) : Fitting [.space, f, .space] :=
  (fitting_singleton (f := .space) trivial).append_of_last
    ((fitting_singleton hf).append_of_head (fitting_singleton (f := .space) trivial) rfl) rfl

/-- Fragments between parentheses. -/
theorem Fitting.paren (h : Fitting fs) :
    Fitting (.symbol .openParen :: fs ++ [.symbol .closeParen]) := by
  have hopen : Fitting [Fragment.symbol .openParen] := fitting_singleton trivial
  have hclose : Fitting [Fragment.symbol .closeParen] := fitting_singleton trivial
  exact (hopen.append_of_last h rfl).append_of_head hclose rfl

/-- The elements of a list. -/
theorem fitting_commaSeparated {parts : List (List Fragment)} (h : ∀ p ∈ parts, Fitting p) :
    Fitting (commaSeparated parts) := by
  have hcomma : Fitting [Fragment.symbol .comma, .space] :=
    (fitting_singleton (f := .symbol .comma) trivial).append_of_last
      (fitting_singleton (f := .space) trivial) rfl
  refine intercalate_induction fitting_nil (fun p rest hp hrest => ?_) h
  rw [← List.append_assoc]
  exact hp.around hcomma hrest rfl rfl (by simp)

/-- A column, possibly of a table. -/
theorem fitting_column {table : Option String} {name : String}
    (h : ∀ f ∈ qualifier table ++ [.identifier name], f.IsSimple) :
    Fitting (qualifier table ++ [.identifier name]) := by
  have hname : Fitting [Fragment.identifier name] := fitting_singleton (h _ (by simp))
  cases table with
  | none => exact hname
  | some t =>
    have htable : Fitting [Fragment.identifier t] := fitting_singleton (h _ (by simp [qualifier]))
    have hdot : Fitting [Fragment.symbol .dot] := fitting_singleton trivial
    refine (htable.append hdot ?_).append hname ?_
    · simp [Fragment.fits, Fragment.isIdentifier]
    · simp [Fragment.fits, Fragment.isIdentifier]

namespace Expr

mutual

/-- **The fragments of an expression fit** when they are simple. -/
theorem fitting_fragments : (e : Expr) → (∀ f ∈ e.fragments, f.IsSimple) → Fitting e.fragments
  | .column table name, h => by
    rw [fragments] at h ⊢
    exact fitting_column h
  | .star table, h => by
    rw [fragments] at h
    exact (h (.symbol .star) (by simp)).elim
  | .literal v, h => by
    rw [fragments] at h ⊢
    exact fitting_singleton (h _ List.mem_cons_self)
  | .binary l op r, h => by
    rw [fragments] at h ⊢
    have hl := fitting_fragments l fun f hf => h f (by simp [hf])
    have hr := fitting_fragments r fun f hf => h f (by simp [hf])
    have hop : op.fragment.IsSimple := h _ (by simp)
    exact hl.around (fitting_operator hop) hr rfl rfl (by simp)
  | .paren e, h => by
    rw [fragments] at h ⊢
    exact (fitting_fragments e fun f hf => h f (by simp [hf])).paren
  | .call function args distinct, h => by
    rw [fragments] at h ⊢
    have hargs := fitting_commaSeparated <| fitting_fragmentsOfEach args fun p hp f hf =>
      h f (by simp [mem_commaSeparated hp hf])
    have hdistinct : Fitting (if distinct then [Fragment.keyword .DISTINCT, .space] else []) := by
      cases distinct with
      | true =>
        exact (fitting_singleton (f := .keyword .DISTINCT) trivial).append_of_head
          (fitting_singleton (f := .space) trivial) rfl
      | false => exact fitting_nil
    have hinside := hdistinct.append_of_last hargs (by cases distinct <;> rfl)
    have hfunction : Fitting [Fragment.function function] := fitting_singleton (h _ (by simp))
    have hcall := hfunction.append_of_head hinside.paren rfl
    simpa using hcall
  | .member e values negated, h => by
    rw [fragments] at h ⊢
    split
    · exact fitting_singleton (by cases negated <;> trivial)
    · next hvalues =>
      rw [if_neg hvalues] at h
      have he := fitting_fragments e fun f hf => h f (by simp [hf])
      have hlist := fitting_commaSeparated <| fitting_fragmentsOfEach values fun p hp f hf =>
        h f (by simp [parenthesized, mem_commaSeparated hp hf])
      have hin : Fitting [.space, Fragment.keyword .IN, .space] := fitting_operator trivial
      cases negated with
      | true =>
        have hnot : Fitting [.space, Fragment.keyword .NOT] :=
          (fitting_singleton (f := .space) trivial).append_of_last
            (fitting_singleton (f := .keyword .NOT) trivial) rfl
        have hoperator := hnot.append_of_head hin rfl
        simpa [parenthesized] using he.around hoperator hlist.paren rfl rfl (by simp)
      | false => simpa [parenthesized] using he.around hin hlist.paren rfl rfl (by simp)

theorem fitting_fragmentsOfEach : (es : List Expr) →
    (∀ p ∈ fragmentsOfEach es, ∀ f ∈ p, f.IsSimple) → ∀ p ∈ fragmentsOfEach es, Fitting p
  | [], _, p, hp => by simp [fragmentsOfEach] at hp
  | e :: es, h, p, hp => by
    rw [fragmentsOfEach] at h hp
    rcases List.mem_cons.1 hp with rfl | hp
    · exact fitting_fragments e (h _ List.mem_cons_self)
    · exact fitting_fragmentsOfEach es (fun q hq => h q (List.mem_cons_of_mem _ hq)) p hp

end

end Expr

end DealSql.Sql
