import DealSql.Proofs.WholeTexts
import DealSql.Sql.Expr

/-!
# Written expressions

An expression is written fragment by fragment, and wherever two fragments
meet at least one of the two characters at the seam is a space, a comma or a
parenthesis.  So no pair arises between fragments, and an expression is
whole as soon as its fragments are, each read by itself.

* `piecewise_fragments` — an expression is read fragment by fragment.
* `whole_fragment` — all fragments are whole but names that the dialect does
  not put between double quotes.
-/

namespace DealSql.Sql

open DealSql.Text DealSql.Statement

/-- Fragments that are read one by one. -/
structure Piecewise (d : Dialect) (fs : List Fragment) : Prop where
  whole : Whole (write d fs)
  marks : marksFrom .code (write d fs) = fs.flatMap fun f => marksFrom .code (f.write d)

variable {d : Dialect} {fs gs : List Fragment}

theorem piecewise_nil : Piecewise d [] := ⟨whole_nil, rfl⟩

theorem piecewise_single {f : Fragment} (h : Whole (f.write d)) : Piecewise d [f] := by
  constructor
  · simpa [write] using h
  · simp [write]

/-- Fragments may be set side by side where no pair arises. -/
theorem Piecewise.append (hf : Piecewise d fs) (hg : Piecewise d gs)
    (h : Seam (write d fs) (write d gs)) : Piecewise d (fs ++ gs) := by
  constructor
  · rw [write_append]
    exact hf.whole.append hg.whole h
  · rw [write_append, hf.whole.marks_append h, hf.marks, hg.marks, List.flatMap_append]

/-! ## Fragments -/

/-- A fragment is whole, the dialect seeing to names between brackets, to
names of functions and to comments. -/
theorem whole_fragment (f : Fragment)
    (hname : ∀ s, f = .identifier s → d ≠ .tsql ∨ Whole (d.quoteIdentifier s.toList))
    (hfunction : ∀ s, f = .function s → Whole (upper s.toList))
    (hcomment : ∀ s, f ≠ .comment s) : Whole (f.write d) := by
  cases f with
  | keyword k =>
    have hk : ∀ c ∈ k.text.toList, isInert c = true := by cases k <;> decide
    exact (whole_of_inert hk).1
  | symbol s =>
    have hs : s = .minus ∨ s = .over ∨ ∀ c ∈ s.text.toList, isInert c = true := by
      cases s <;> decide
    rcases hs with rfl | rfl | hs
    · exact ⟨rfl, by simp [Fragment.write, Symbol.text, marksFrom, Region.read]⟩
    · exact ⟨rfl, by simp [Fragment.write, Symbol.text, marksFrom, Region.read]⟩
    · exact (whole_of_inert hs).1
  | space => exact (whole_of_inert (s := [' ']) (by decide)).1
  | newline => exact (whole_of_inert (s := ['\n']) (by decide)).1
  | indent n =>
    refine (whole_of_inert fun c hc => ?_).1
    rw [List.eq_of_mem_replicate hc]
    decide
  | identifier s =>
    rcases hname s rfl with hd | hs
    · cases d with
      | tsql => exact absurd rfl hd
      | _ => exact whole_quoteName s.toList
    · exact hs
  | integer n => exact whole_integer n
  | string s => exact whole_quoteString d s.toList
  | truth b =>
    have hb : ∀ c ∈ d.truth b, isInert c = true := by cases d <;> cases b <;> decide
    exact (whole_of_inert hb).1
  | function s => exact hfunction s rfl
  | comment s => exact absurd rfl (hcomment s)

theorem piecewise_keyword {k : Keyword} : Piecewise d [.keyword k] :=
  piecewise_single (whole_fragment _ (by simp) (by simp) (by simp))

theorem piecewise_symbol {s : Symbol} : Piecewise d [.symbol s] :=
  piecewise_single (whole_fragment _ (by simp) (by simp) (by simp))

theorem piecewise_space : Piecewise d [.space] :=
  piecewise_single (whole_fragment _ (by simp) (by simp) (by simp))

/-- An integer is read by itself. -/
theorem piecewise_int (n : Int) : Piecewise d (Expr.int n).fragments := by
  rw [Expr.int, Expr.fragments]
  exact piecewise_single (whole_integer n)

/-! ## Lists in parentheses -/

/-- What stands between the elements of a list. -/
def separator : List Fragment := [.symbol .comma, .space]

theorem piecewise_separator : Piecewise d separator :=
  piecewise_symbol.append piecewise_space (Or.inl rfl)

/-- What holds of the elements of a list, and is handed on over what stands
between them, holds of the list. -/
theorem intercalate_induction {P : List Fragment → Prop} {sep : List Fragment}
    {ps : List (List Fragment)} (hnil : P [])
    (hcons : ∀ p rest, P p → P rest → P (p ++ (sep ++ rest))) (h : ∀ p ∈ ps, P p) :
    P (sep.intercalate ps) := by
  induction ps with
  | nil => exact hnil
  | cons p ps ih =>
    have hp : P p := h p List.mem_cons_self
    cases ps with
    | nil => simpa [List.intercalate] using hp
    | cons q ps =>
      rw [List.intercalate_cons_cons, List.append_assoc]
      exact hcons p _ hp (ih fun r hr => h r (List.mem_cons_of_mem p hr))

theorem commaSeparated_cons (p q : List Fragment) (ps : List (List Fragment)) :
    commaSeparated (p :: q :: ps) = p ++ (separator ++ commaSeparated (q :: ps)) := by
  simp [commaSeparated, separator, List.intercalate]

/-- The elements of a list are read one by one. -/
theorem piecewise_commaSeparated {ps : List (List Fragment)} (h : ∀ p ∈ ps, Piecewise d p) :
    Piecewise d (commaSeparated ps) := by
  refine intercalate_induction piecewise_nil (fun p rest hp hrest => ?_) h
  refine hp.append (piecewise_separator.append hrest (Or.inl rfl)) (Or.inr ?_)
  rw [write_append]
  rfl

/-- The fragments of the elements are fragments of the list. -/
theorem mem_commaSeparated {ps : List (List Fragment)} {p : List Fragment} {f : Fragment}
    (hp : p ∈ ps) (hf : f ∈ p) : f ∈ commaSeparated ps := by
  induction ps with
  | nil => simp at hp
  | cons q ps ih =>
    cases ps with
    | nil =>
      obtain rfl : p = q := by simpa using hp
      simpa [commaSeparated, List.intercalate] using hf
    | cons r ps =>
      rw [commaSeparated_cons]
      rcases List.mem_cons.1 hp with rfl | hp
      · exact List.mem_append_left _ hf
      · exact List.mem_append_right _ (List.mem_append_right _ (ih hp))

/-- What stands between parentheses is read by itself. -/
theorem Piecewise.paren (h : Piecewise d fs) :
    Piecewise d (.symbol .openParen :: fs ++ [.symbol .closeParen]) := by
  have hstart : Piecewise d ([.symbol .openParen] ++ fs) := piecewise_symbol.append h (Or.inl rfl)
  exact hstart.append piecewise_symbol (Or.inr rfl)

theorem piecewise_parenthesized {ps : List (List Fragment)} (h : ∀ p ∈ ps, Piecewise d p) :
    Piecewise d (parenthesized ps) := (piecewise_commaSeparated h).paren

/-- A list of integers is read one by one. -/
theorem piecewise_numbers (ns : List Int) :
    Piecewise d (parenthesized ((ns.map Expr.int).map Expr.fragments)) := by
  refine piecewise_parenthesized fun p hp => ?_
  obtain ⟨e, he, rfl⟩ := List.mem_map.1 hp
  obtain ⟨n, -, rfl⟩ := List.mem_map.1 he
  exact piecewise_int n

/-! ## Expressions -/

/-- Fragments between spaces are read by themselves. -/
theorem Piecewise.spaced (h : Piecewise d fs) : Piecewise d (.space :: fs ++ [.space]) :=
  (piecewise_space.append h (Or.inl rfl)).append piecewise_space (Or.inr rfl)

/-- Fragments around others between spaces are read by themselves. -/
theorem Piecewise.around {cs : List Fragment} (hf : Piecewise d fs) (hg : Piecewise d gs)
    (hc : Piecewise d cs) : Piecewise d (fs ++ (.space :: cs ++ [.space]) ++ gs) := by
  have hleft : Piecewise d (fs ++ (.space :: cs ++ [.space])) := hf.append hc.spaced (Or.inr rfl)
  refine hleft.append hg (Or.inl ?_)
  have hwrite : write d (fs ++ (.space :: cs ++ [.space])) =
      write d (fs ++ .space :: cs) ++ [' '] := by
    simp [write, Fragment.write]
  rw [hwrite, List.getLast?_concat]
  rfl

/-- A qualified name is read fragment by fragment. -/
theorem piecewise_qualified {table : Option String} {f : Fragment}
    (h : ∀ g ∈ qualifier table ++ [f], Whole (g.write d)) :
    Piecewise d (qualifier table ++ [f]) := by
  have hf : Piecewise d [f] := piecewise_single (h f (by simp))
  cases table with
  | none => exact hf
  | some t =>
    have ht : Piecewise d [.identifier t] := piecewise_single (h _ (by simp [qualifier]))
    exact ht.append (piecewise_symbol.append hf (Or.inl rfl)) (Or.inr rfl)

mutual

/-- **An expression is read fragment by fragment** when its fragments are whole. -/
theorem piecewise_fragments : (e : Expr) → (∀ f ∈ e.fragments, Whole (f.write d)) →
    Piecewise d e.fragments
  | .column table name, h => by
    rw [Expr.fragments] at h ⊢
    exact piecewise_qualified h
  | .star table, h => by
    rw [Expr.fragments] at h ⊢
    exact piecewise_qualified h
  | .literal v, h => by
    rw [Expr.fragments] at h ⊢
    exact piecewise_single (h _ List.mem_cons_self)
  | .binary l op r, h => by
    rw [Expr.fragments] at h ⊢
    have hl := piecewise_fragments l fun f hf => h f (by simp [hf])
    have hr := piecewise_fragments r fun f hf => h f (by simp [hf])
    exact hl.around hr (piecewise_single (h op.fragment (by simp)))
  | .paren e, h => by
    rw [Expr.fragments] at h ⊢
    exact (piecewise_fragments e fun f hf => h f (by simp [hf])).paren
  | .call function args distinct, h => by
    rw [Expr.fragments] at h ⊢
    have hargs := piecewise_commaSeparated <| piecewise_fragmentsOfEach args fun p hp f hf =>
      h f (by simp [mem_commaSeparated hp hf])
    have hdistinct : Piecewise d [.keyword .DISTINCT, .space] :=
      piecewise_keyword.append piecewise_space (Or.inr rfl)
    have hinside : Piecewise d ((if distinct then [.keyword .DISTINCT, .space] else []) ++
        commaSeparated (Expr.fragmentsOfEach args)) := by
      cases distinct
      · exact hargs
      · exact hdistinct.append hargs (Or.inl rfl)
    have hfunction : Piecewise d [.function function] := piecewise_single (h _ (by simp))
    have hcall := hfunction.append hinside.paren (Or.inr rfl)
    simpa using hcall
  | .member e values negated, h => by
    rw [Expr.fragments] at h ⊢
    split
    · exact piecewise_keyword
    · next hvalues =>
      rw [if_neg hvalues] at h
      have he := piecewise_fragments e fun f hf => h f (by simp [hf])
      have hlist := piecewise_parenthesized <| piecewise_fragmentsOfEach values fun p hp f hf =>
        h f (by simp [parenthesized, mem_commaSeparated hp hf])
      cases negated
      · have hin : Piecewise d [.keyword .IN] := piecewise_keyword
        simpa using he.around hlist hin
      · have hnot : Piecewise d [.keyword .NOT, .space, .keyword .IN] :=
          piecewise_keyword.append (piecewise_space.append piecewise_keyword (Or.inl rfl))
            (Or.inr rfl)
        simpa using he.around hlist hnot

theorem piecewise_fragmentsOfEach : (es : List Expr) →
    (∀ p ∈ Expr.fragmentsOfEach es, ∀ f ∈ p, Whole (f.write d)) →
    ∀ p ∈ Expr.fragmentsOfEach es, Piecewise d p
  | [], _, p, hp => by simp [Expr.fragmentsOfEach] at hp
  | e :: es, h, p, hp => by
    rw [Expr.fragmentsOfEach] at h hp
    rcases List.mem_cons.1 hp with rfl | hp
    · exact piecewise_fragments e (h _ List.mem_cons_self)
    · exact piecewise_fragmentsOfEach es (fun q hq => h q (List.mem_cons_of_mem _ hq)) p hp

end

end DealSql.Sql
