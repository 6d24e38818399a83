import DealSql.Proofs.VerbatimTexts
import DealSql.Proofs.WrittenExpressions
import Mathlib.Data.List.Chain

/-!
# Fitting fragments

Statements are written from simple fragments, between any two of which one
sets the other apart: a blank, a comma or a parenthesis, or a point that
joins two names.  Whatever dialect reads them, such fragments keep to
themselves: they are verbatim to its tokens, no pair of characters arises
between them, and no word runs into another.

* `Fitting.append` — fitting fragments side by side.
* `Fitting.verbatim` — they are read as they were written.
* `neutral_of_fits` — nothing arises where two of them meet.
-/

namespace DealSql.Sql

open DealSql.Text DealSql.Statement

/-! ## Fragments that fit -/

namespace Fragment

/-- A fragment with names and strings of letters, digits and underscores only. -/
def IsSimple : Fragment → Prop
  | .identifier name => IsName name.toList
  | .function name => IsName (upper name.toList)
  | .string s => ∀ c ∈ s.toList, c.isAlphanum = true
  | .indent n => n ≠ 0
  | .symbol .star => False
  | .comment _ => False
  | _ => True

instance (f : Fragment) : Decidable f.IsSimple :=
  match f with
  | .identifier name => inferInstanceAs (Decidable (IsName name.toList))
  | .function name => inferInstanceAs (Decidable (IsName (upper name.toList)))
  | .string s => inferInstanceAs (Decidable (∀ c ∈ s.toList, c.isAlphanum = true))
  | .indent n => inferInstanceAs (Decidable (n ≠ 0))
  | .comment _ => isFalse id
  | .symbol s => decidable_of_iff (s ≠ .star) (by cases s <;> simp [IsSimple])
  | .keyword _ | .space | .newline | .integer _ | .truth _ => isTrue trivial

/-- Whether a fragment sets apart those next to it. -/
def setsApart : Fragment → Bool
  | .space => true
  | .newline => true
  | .indent n => n != 0
  | .symbol .comma => true
  | .symbol .openParen => true
  | .symbol .closeParen => true
  | _ => false

/-- Whether a fragment is a name. -/
def isIdentifier : Fragment → Bool
  | .identifier _ => true
  | _ => false

/-- Whether a fragment may stand before another. -/
def fits (f g : Fragment) : Bool :=
  f.setsApart || g.setsApart || (f == .symbol .dot && g.isIdentifier) ||
    (f.isIdentifier && g == .symbol .dot)

/-- Whether a fragment may stand before a text. -/
def Before (f : Fragment) (rest : List Char) : Prop :=
  f.setsApart = true ∨ rest.head?.all isBreak = true ∨
    (f.isIdentifier = true ∧ rest.head? = some '.') ∨
    (f = .symbol .dot ∧ (rest.head? = some '"' ∨ rest.head? = some '['))

end Fragment

open Fragment

variable {d r : Dialect} {f g : Fragment} {fs gs : List Fragment} {rest : List Char}

/-- What sets apart is made of breaks. -/
theorem isBreak_of_setsApart (h : f.setsApart = true) :
    f.write d ≠ [] ∧ ∀ c ∈ f.write d, isBreak c = true := by
  cases f with
  | space => simp [Fragment.write, isBreak]
  | newline => simp [Fragment.write, isBreak]
  | indent n =>
    have hn : n ≠ 0 := by simpa [setsApart] using h
    have hne : 2 * n ≠ 0 := by omega
    refine ⟨by simp [Fragment.write, hne], fun c hc => ?_⟩
    obtain rfl : c = ' ' := List.eq_of_mem_replicate hc
    rfl
  | symbol s => cases s <;> simp_all [Fragment.write, Symbol.text, isBreak, setsApart]
  | _ => cases h

/-- A simple name is quoted as it is. -/
theorem write_identifier {name : String} (h : IsName name.toList) :
    (Fragment.identifier name).write d =
      d.identifierMarks.1 :: name.toList ++ [d.identifierMarks.2] := by
  have hdouble : ∀ x, Placeholder.isNameChar x = false →
      double x name.toList = name.toList := fun x hx => double_of_forall_ne (h.ne hx)
  cases d <;> simp [Fragment.write, Dialect.quoteIdentifier, Dialect.identifierMarks, quoteWith,
    hdouble '"' rfl, hdouble ']' rfl]

/-- What sets apart is read break by break. -/
theorem verbatim_of_breaks {s : List Char} (hs : ∀ c ∈ s, isBreak c = true) :
    Verbatim r s rest := by
  induction s with
  | nil => exact verbatim_nil
  | cons c s ih =>
    have hc : Verbatim r [c] (s ++ rest) := verbatim_break (hs c List.mem_cons_self)
    exact hc.append (ih fun x hx => hs x (List.mem_cons_of_mem c hx))

/-- A character is none that a name holds, nor one that ends a name. -/
theorem Fragment.Before.head?_ne (h : f.Before rest) (hf : f.setsApart = false)
    (hdot : f ≠ .symbol .dot) {x : Char} (hx : isBreak x = false) (hpoint : x ≠ '.') :
    rest.head? ≠ some x := by
  rcases h with h | h | ⟨-, h⟩ | ⟨h, -⟩
  · simp [hf] at h
  · intro hhead
    simp [hhead, hx] at h
  · intro hhead
    rw [h] at hhead
    exact hpoint (Option.some.inj hhead).symm
  · exact absurd h hdot

/-- A fragment that neither sets apart nor is a name stands before a break. -/
theorem Fragment.Before.break (h : f.Before rest) (hf : f.setsApart = false)
    (hname : f.isIdentifier = false) (hdot : f ≠ .symbol .dot) :
    rest.head?.all isBreak = true := by
  rcases h with h | h | ⟨h, -⟩ | ⟨h, -⟩
  · simp [hf] at h
  · exact h
  · simp [hname] at h
  · exact absurd h hdot

theorem endsWord_of_isBreak {o : Option Char} (h : o.all isBreak = true) :
    o.all endsWord = true := by
  cases o with
  | none => rfl
  | some c =>
    have hall : ∀ x ∈ " \n,()".toList, endsWord x = true := by decide
    exact hall c (by simpa [isBreak] using h)

theorem endsNumber_of_isBreak {o : Option Char} (h : o.all isBreak = true) :
    o.all endsNumber = true := by
  cases o with
  | none => rfl
  | some c => exact Statement.endsNumber_of_endsWord (c := c) (by simpa using endsWord_of_isBreak h)

/-- A keyword is one word or two. -/
theorem verbatim_keyword (k : Keyword) (hrest : rest.head?.all isBreak = true) :
    Verbatim r k.text.toList rest := by
  by_cases hk : k = .GROUP_BY
  · subst hk
    have hgroup : Verbatim r "GROUP".toList (" BY".toList ++ rest) := verbatim_word (by decide) rfl
    have hspace : Verbatim r [' '] ("BY".toList ++ rest) := verbatim_break rfl
    have hby : Verbatim r "BY".toList rest :=
      verbatim_word (by decide) (endsWord_of_isBreak hrest)
    exact hgroup.append (hspace.append hby)
  · have hname : IsName k.text.toList := by
      revert hk
      cases k <;> decide
    exact verbatim_word hname (endsWord_of_isBreak hrest)

theorem verbatim_symbol (s : Symbol) (hs : (Fragment.symbol s).setsApart = false)
    (h : (Fragment.symbol s).Before rest) : Verbatim r s.text.toList rest := by
  by_cases hdot : s = .dot
  · subst hdot
    rcases h with h | h | ⟨h, -⟩ | ⟨-, h⟩
    · cases h
    · exact verbatim_point (Or.inl h)
    · cases h
    · exact verbatim_point (Or.inr h)
  · have hoperator : s.text.toList ∈ operatorTexts := by
      revert hs hdot
      cases s <;> decide
    exact verbatim_operator hoperator (h.break hs rfl (by simpa using hdot))

/-- A truth value is a word or a digit. -/
theorem verbatim_truth (b : Bool) (hrest : rest.head?.all isBreak = true) :
    Verbatim r (d.truth b) rest := by
  by_cases hd : d = .tsql
  · have hdigit : d.truth b = natural b.toNat := by
      subst hd
      cases b <;> decide
    rw [hdigit]
    exact verbatim_natural _ (endsNumber_of_isBreak hrest)
  · have hname : IsName (d.truth b) := by
      revert hd
      cases d <;> cases b <;> decide
    exact verbatim_word hname (endsWord_of_isBreak hrest)

/-- A string of ASCII is quoted as it is. -/
theorem write_string {s : String} (h : ∀ c ∈ s.toList, c.isAlphanum = true) :
    (Fragment.string s).write d = '\'' :: s.toList ++ ['\''] := by
  have hascii : d.marksNational s.toList = false := by
    have hany : s.toList.any (fun c => decide (0x80 ≤ c.toNat)) = false := by
      rw [List.any_eq_false]
      intro c hc
      have hlt := toNat_lt_of_isAlphanum (h c hc)
      simpa using hlt
    simp [Dialect.marksNational, hany]
  have hdouble : double '\'' s.toList = s.toList :=
    double_of_forall_ne fun c hc => ne_of_test (h c hc) (by decide)
  simp [Fragment.write, Dialect.quoteString, hascii, quoteWith, hdouble]

/-- A simple fragment is verbatim before what it may stand before. -/
theorem verbatim_fragment (hf : f.IsSimple) (h : f.Before rest) :
    Verbatim r (f.write d) rest := by
  by_cases hapart : f.setsApart = true
  · exact verbatim_of_breaks (isBreak_of_setsApart hapart).2
  · have hapart : f.setsApart = false := by simpa using hapart
    cases f with
    | keyword k => exact verbatim_keyword k (h.break hapart rfl (by simp))
    | symbol s => exact verbatim_symbol s hapart h
    | space => cases hapart
    | newline => cases hapart
    | indent n => exact absurd (by simpa [setsApart] using hapart) hf
    | identifier name =>
      have hne : ∀ x, isBreak x = false → x ≠ '.' → rest.head? ≠ some x :=
        fun x hx hpoint => h.head?_ne hapart (by simp) hx hpoint
      rw [write_identifier hf]
      cases d with
      | tsql => exact verbatim_bracketed hf (hne ']' rfl (by decide))
      | _ => exact verbatim_doubleQuoted hf (hne '"' rfl (by decide))
    | integer n =>
      exact verbatim_integer n (endsNumber_of_isBreak (h.break hapart rfl (by simp)))
    | string s =>
      have hquote : ∀ c ∈ s.toList, c ≠ '\'' := fun c hc => ne_of_test (hf c hc) (by decide)
      rw [write_string hf]
      exact verbatim_literal hquote (h.head?_ne hapart (by simp) rfl (by decide))
    | truth b => exact verbatim_truth b (h.break hapart rfl (by simp))
    | function name =>
      exact verbatim_word hf (endsWord_of_isBreak (h.break hapart rfl (by simp)))
    | comment text => exact hf.elim

/-! ## The characters of fragments -/

theorem isNameChar_of_isDigit {c : Char} (h : c.isDigit = true) :
    Placeholder.isNameChar c = true := by simp [Placeholder.isNameChar, Char.isAlphanum, h]

/-- The marks of which fragments are made, strings apart. -/
def fragmentMarks : List Char := " \n,.()=<>+-*/\"[]".toList

/-- The characters of simple fragments: those of names, and some marks. -/
theorem mem_write (hf : f.IsSimple) {c : Char} (hc : c ∈ f.write d) :
    Placeholder.isNameChar c = true ∨ c ∈ fragmentMarks ∨ c = '\'' ∧ ∃ s, f = .string s := by
  cases f with
  | keyword k =>
    have hall : ∀ x ∈ k.text.toList, Placeholder.isNameChar x = true ∨ x ∈ fragmentMarks := by
      cases k <;> decide
    exact (hall c hc).imp_right Or.inl
  | symbol s =>
    have hall : ∀ x ∈ s.text.toList, x ∈ fragmentMarks := by cases s <;> decide
    exact Or.inr (Or.inl (hall c hc))
  | space =>
    obtain rfl : c = ' ' := by simpa [Fragment.write] using hc
    exact Or.inr (Or.inl (by decide))
  | newline =>
    obtain rfl : c = '\n' := by simpa [Fragment.write] using hc
    exact Or.inr (Or.inl (by decide))
  | indent n =>
    obtain rfl : c = ' ' := List.eq_of_mem_replicate hc
    exact Or.inr (Or.inl (by decide))
  | identifier name =>
    rw [write_identifier hf] at hc
    simp only [List.cons_append, List.mem_cons, List.mem_append, List.not_mem_nil, or_false] at hc
    rcases hc with rfl | hc | rfl
    · exact Or.inr (Or.inl (by cases d <;> decide))
    · exact Or.inl (hf.2 c hc)
    · exact Or.inr (Or.inl (by cases d <;> decide))
  | integer n =>
    have hdigits : ∀ x ∈ natural n.natAbs, Placeholder.isNameChar x = true :=
      fun x hx => isNameChar_of_isDigit (isDigit_of_mem_natural hx)
    have hinteger : c ∈ Text.integer n := hc
    unfold Text.integer at hinteger
    split at hinteger
    · rcases List.mem_cons.1 hinteger with rfl | hmem
      · exact Or.inr (Or.inl (by decide))
      · exact Or.inl (hdigits c hmem)
    · exact Or.inl (hdigits c hinteger)
  | string s =>
    rw [write_string hf] at hc
    simp only [List.cons_append, List.mem_cons, List.mem_append, List.not_mem_nil, or_false] at hc
    rcases hc with rfl | hc | rfl
    · exact Or.inr (Or.inr ⟨rfl, s, rfl⟩)
    · exact Or.inl (by simp [Placeholder.isNameChar, hf c hc])
    · exact Or.inr (Or.inr ⟨rfl, s, rfl⟩)
  | truth b =>
    have hall : ∀ x ∈ d.truth b, Placeholder.isNameChar x = true := by
      cases d <;> cases b <;> decide
    exact Or.inl (hall c hc)
  | function name => exact Or.inl (hf.2 c hc)
  | comment text => exact hf.elim

/-! ## Where fragments meet -/

/-- Whether a character neither belongs to a word nor can be part of a pair. -/
def isNeutral (c : Char) : Bool := !isWordChar c && !isPairing c

theorem isNeutral_of_isBreak {c : Char} (h : isBreak c = true) : isNeutral c = true := by
  have hall : ∀ x ∈ " \n,()".toList, isNeutral x = true := by decide
  exact hall c (by simpa [isBreak] using h)

/-- The ends of a simple fragment that sets apart, of a name and of a point
are neutral. -/
theorem neutral_ends (hf : f.IsSimple)
    (h : f.setsApart = true ∨ f.isIdentifier = true ∨ f = .symbol .dot) :
    ∃ a b, (f.write d).head? = some a ∧ (f.write d).getLast? = some b ∧
      isNeutral a = true ∧ isNeutral b = true := by
  rcases h with h | h | rfl
  · obtain ⟨hne, hbreaks⟩ := isBreak_of_setsApart (d := d) h
    obtain ⟨a, ha⟩ := Option.ne_none_iff_exists'.1 (mt List.head?_eq_none_iff.1 hne)
    obtain ⟨b, hb⟩ := Option.ne_none_iff_exists'.1 (mt List.getLast?_eq_none_iff.1 hne)
    exact ⟨a, b, ha, hb, isNeutral_of_isBreak (hbreaks a (List.mem_of_head? ha)),
      isNeutral_of_isBreak (hbreaks b (List.mem_of_getLast? hb))⟩
  · cases f with
    | identifier name =>
      rw [write_identifier hf]
      refine ⟨d.identifierMarks.1, d.identifierMarks.2, by simp, List.getLast?_concat .., ?_⟩
      cases d <;> decide
    | _ => cases h
  · exact ⟨'.', '.', rfl, rfl, by decide, by decide⟩

/-- Where two fitting fragments meet one of the two characters is neutral. -/
theorem neutral_of_fits (hf : f.IsSimple) (hg : g.IsSimple) (h : f.fits g = true) :
    (∃ b, (f.write d).getLast? = some b ∧ isNeutral b = true) ∨
      ∃ a, (g.write d).head? = some a ∧ isNeutral a = true := by
  simp only [fits, Bool.or_eq_true, Bool.and_eq_true, beq_iff_eq] at h
  rcases h with ((h | h) | ⟨h, -⟩) | ⟨h, -⟩
  · obtain ⟨-, b, -, hb, -, hneutral⟩ := neutral_ends (d := d) hf (Or.inl h)
    exact Or.inl ⟨b, hb, hneutral⟩
  · obtain ⟨a, -, ha, -, hneutral, -⟩ := neutral_ends (d := d) hg (Or.inl h)
    exact Or.inr ⟨a, ha, hneutral⟩
  · obtain ⟨-, b, -, hb, -, hneutral⟩ := neutral_ends (d := d) hf (Or.inr (Or.inr h))
    exact Or.inl ⟨b, hb, hneutral⟩
  · obtain ⟨-, b, -, hb, -, hneutral⟩ := neutral_ends (d := d) hf (Or.inr (Or.inl h))
    exact Or.inl ⟨b, hb, hneutral⟩

/-- A fragment may stand before one that fits. -/
theorem before_of_fits (hg : g.IsSimple) (h : f.fits g = true) :
    f.Before (g.write d ++ rest) := by
  simp only [fits, Bool.or_eq_true, Bool.and_eq_true, beq_iff_eq] at h
  rcases h with ((h | h) | ⟨h, hname⟩) | ⟨hname, h⟩
  · exact Or.inl h
  · obtain ⟨hne, hbreaks⟩ := isBreak_of_setsApart (d := d) h
    obtain ⟨c, s, hc⟩ := List.exists_cons_of_ne_nil hne
    refine Or.inr (Or.inl ?_)
    rw [hc] at hbreaks ⊢
    exact hbreaks c List.mem_cons_self
  · refine Or.inr (Or.inr (Or.inr ⟨h, ?_⟩))
    cases g with
    | identifier name =>
      rw [write_identifier hg]
      cases d <;> simp [Dialect.identifierMarks]
    | _ => cases hname
  · subst h
    exact Or.inr (Or.inr (Or.inl ⟨hname, rfl⟩))

/-! ## Fitting lists -/

/-- Simple fragments that fit one after another. -/
structure Fitting (fs : List Fragment) : Prop where
  simple : ∀ f ∈ fs, f.IsSimple
  chain : fs.IsChain fun f g => f.fits g = true

theorem fitting_nil : Fitting [] := ⟨by simp, List.isChain_nil⟩

theorem fitting_singleton (hf : f.IsSimple) : Fitting [f] :=
  ⟨by simpa using hf, List.isChain_singleton f⟩

/-- Fitting fragments may be set side by side where they fit. -/
theorem Fitting.append (hf : Fitting fs) (hg : Fitting gs)
    (h : ∀ f ∈ fs.getLast?, ∀ g ∈ gs.head?, f.fits g = true) : Fitting (fs ++ gs) := by
  constructor
  · intro f hmem
    rcases List.mem_append.1 hmem with hmem | hmem
    · exact hf.simple f hmem
    · exact hg.simple f hmem
  · exact List.isChain_append.2 ⟨hf.chain, hg.chain, h⟩

theorem Fitting.tail (h : Fitting (f :: fs)) : Fitting fs :=
  ⟨fun g hg => h.simple g (List.mem_cons_of_mem f hg), h.chain.tail⟩

/-- Fitting fragments are read as they were written. -/
theorem Fitting.verbatim (h : Fitting fs) (hlast : ∀ f ∈ fs.getLast?, f.Before rest) :
    Verbatim r (write d fs) rest := by
  induction fs with
  | nil => exact verbatim_nil
  | cons f fs ih =>
    have hf : f.IsSimple := h.simple f List.mem_cons_self
    cases fs with
    | nil =>
      have hbefore : f.Before rest := hlast f rfl
      simpa [write] using verbatim_fragment (d := d) (r := r) hf hbefore
    | cons g gs =>
      have hfits : f.fits g = true := h.chain.rel
      have hg : g.IsSimple := h.simple g (by simp)
      have hrest : Verbatim r (write d (g :: gs)) rest := ih h.tail (by simpa using hlast)
      have hbefore : f.Before (write d (g :: gs) ++ rest) := by
        have hwrite : write d (g :: gs) = g.write d ++ write d gs := by simp [write]
        rw [hwrite, List.append_assoc]
        exact before_of_fits hg hfits
      have happend := (verbatim_fragment (r := r) (d := d) hf hbefore).append hrest
      simpa [write] using happend

end DealSql.Sql
