import DealSql.Proofs.ExpressionFragments
import DealSql.Proofs.FragmentLexemes
import DealSql.Proofs.PlainStatements
import DealSql.Proofs.QuietTexts

/-!
# Safe fragments

What a query is written from can only do harm through its names: a name that
is a blocked keyword is reported by the gate, and one that is `FROM` or
`JOIN` is taken for the keyword, quoted or not.  Fragments are safe when
their names are none of these words and they are none of the keywords that
begin a query or name a table.

* `quiet_write` — no blocked keyword stands in what is written.
* `Fragment.IsSafe.isKeyword` — the lexemes of safe fragments.
-/

namespace DealSql.Sql

open DealSql.Text DealSql.Statement DealSql.Review

variable {d : Dialect} {f : Fragment} {fs gs : List Fragment} {depth : Nat} {l : Lexeme}

/-- The words that no name in a query may be: the blocked keywords and those
by which the parts of a statement are found. -/
def reservedWords : List String :=
  blockedKeywords ++ ["SELECT", "FROM", "JOIN", "DISTINCT", "LATERAL"]

namespace Fragment

/-- The texts that a fragment takes from elsewhere. -/
def names : Fragment → List (List Char)
  | .identifier name => [name.toList]
  | .string s => [s.toList]
  | .function name => [upper name.toList]
  | _ => []

/-- A fragment that can be taken neither for a blocked keyword nor for one
that begins a query or names a table. -/
structure IsSafe (f : Fragment) : Prop where
  simple : f.IsSimple
  names : ∀ w ∈ f.names, isOneOf w reservedWords = false
  keyword : ∀ k ∈ [Keyword.SELECT, .FROM, .JOIN], f ≠ .keyword k

instance (f : Fragment) : Decidable f.IsSafe :=
  decidable_of_iff (f.IsSimple ∧ (∀ w ∈ f.names, isOneOf w reservedWords = false) ∧
      ∀ k ∈ [Keyword.SELECT, .FROM, .JOIN], f ≠ .keyword k)
    ⟨fun h => ⟨h.1, h.2.1, h.2.2⟩, fun h => ⟨h.simple, h.names, h.keyword⟩⟩

end Fragment

/-! ## Safe expressions -/

/-- An expression with safe fragments only. -/
def Expr.IsSafe (e : Expr) : Prop := ∀ f ∈ e.fragments, f.IsSafe

namespace Expr

/-- An expression is safe when its components are and its own fragments. -/
theorem isSafe_of_components {e : Expr} (hown : ∀ f ∈ e.ownFragments, f.IsSafe)
    (h : ∀ c ∈ e.components, c.IsSafe) : e.IsSafe := by
  have hjoining : ∀ f ∈ joiningFragments, f.IsSafe := by decide
  intro f hf
  rcases mem_fragments hf with hf | hf | ⟨c, hc, hf⟩
  · exact hjoining f hf
  · exact hown f hf
  · exact h c hc f hf

theorem isSafe_binary {l r : Expr} {op : BinaryOp} (hl : l.IsSafe) (hr : r.IsSafe) :
    (binary l op r).IsSafe := by
  refine isSafe_of_components ?_ ?_
  · intro f hf
    obtain rfl := List.mem_singleton.1 hf
    cases op <;> decide
  · simp [components, hl, hr]

theorem isSafe_call {function : String} {args : List Expr} {distinct : Bool}
    (hfunction : (Fragment.function function).IsSafe) (hargs : ∀ a ∈ args, a.IsSafe) :
    (call function args distinct).IsSafe :=
  isSafe_of_components (by simpa [ownFragments] using hfunction) hargs

theorem isSafe_member {e : Expr} {values : List Expr} {negated : Bool} (he : e.IsSafe)
    (hvalues : ∀ v ∈ values, v.IsSafe) : (member e values negated).IsSafe :=
  isSafe_of_components (by simp [ownFragments]) (List.forall_mem_cons.2 ⟨he, hvalues⟩)

theorem isSafe_literal {v : Literal} (h : v.fragment.IsSafe) : (literal v).IsSafe :=
  isSafe_of_components (by simpa [ownFragments] using h) (by simp [components])

/-- An integer has no name. -/
theorem isSafe_int (n : Int) : (int n).IsSafe :=
  isSafe_literal ⟨trivial, by simp [Literal.fragment, Fragment.names], by simp [Literal.fragment]⟩

end Expr

/-! ## Words -/

/-- Digits are the same as no word of letters. -/
theorem not_sameWord_of_digits {w k : List Char} (hk : ∀ c ∈ foldCase k, c.isAlpha = true)
    (hne : w ≠ []) (hw : ∀ c ∈ w, c.isDigit = true) : sameWord w k = false := by
  cases hsame : sameWord w k with
  | false => rfl
  | true =>
    obtain ⟨c, r, rfl⟩ := List.exists_cons_of_ne_nil hne
    have hlower : c.toLower ∈ foldCase k := by
      rw [← sameWord_iff.1 hsame]
      simp [foldCase]
    have hstart : isNameStart c = true := by
      simp [isNameStart, isAlpha_of_isAlpha_toLower (hk _ hlower)]
    have hdigit := hw c List.mem_cons_self
    rw [isDigit_of_isNameStart hstart] at hdigit
    cases hdigit

/-- A numeral is no blocked keyword. -/
theorem blockedKeyword?_natural (n : Nat) : blockedKeyword? (natural n) = none := by
  refine List.find?_eq_none.2 fun k hk => ?_
  have hsame : sameWord (natural n) k.toList = false :=
    not_sameWord_of_digits (blockedKeywords_letters k hk).2 Nat.toDigits_ne_nil
      fun c hc => isDigit_of_mem_natural hc
  simp [hsame]

/-- A word between two marks is quiet when it is by itself. -/
theorem quiet_marked {a b : Char} {w : List Char} (ha : isWordChar a = false)
    (hb : isWordChar b = false) (hw : Quiet w) : Quiet (a :: w ++ [b]) := by
  have hopen : Quiet [a] := quiet_of_forall (by simpa using ha)
  have hclose : Quiet [b] := quiet_of_forall (by simpa using hb)
  have hstart : Quiet ([a] ++ w) :=
    (quiet_append_iff (Or.inl (by simp [endsInWord, ha]))).2 ⟨hopen, hw⟩
  exact (quiet_append_iff (Or.inr (by simp [hb]))).2 ⟨hstart, hclose⟩

/-- **No blocked keyword stands in a simple fragment** whose names are none. -/
theorem quiet_write (hf : f.IsSimple) (hnames : ∀ w ∈ f.names, blockedKeyword? w = none) :
    Quiet (f.write d) := by
  cases f with
  | keyword k =>
    by_cases hk : k = .GROUP_BY
    · subst hk
      have hgroup : Quiet "GROUP".toList :=
        (quiet_word_iff (isWord_of_isName (by decide))).2 (by decide)
      have hby : Quiet "BY".toList := (quiet_word_iff (isWord_of_isName (by decide))).2 (by decide)
      have hspace : Quiet [' '] := quiet_of_forall (by decide)
      have hend : Quiet (" ".toList ++ "BY".toList) :=
        (quiet_append_iff (Or.inl (by decide))).2 ⟨hspace, hby⟩
      exact (quiet_append_iff (a := "GROUP".toList) (Or.inr (by decide))).2 ⟨hgroup, hend⟩
    · have hname : IsName k.text.toList := by
        revert hk
        cases k <;> decide
      exact (quiet_word_iff (isWord_of_isName hname)).2 (by cases k <;> decide)
  | symbol s =>
    have hmarks : ∀ c ∈ s.text.toList, isWordChar c = false := by cases s <;> decide
    exact quiet_of_forall hmarks
  | space => exact quiet_of_forall (s := [' ']) (by decide)
  | newline => exact quiet_of_forall (s := ['\n']) (by decide)
  | indent n =>
    refine quiet_of_forall fun c hc => ?_
    obtain rfl : c = ' ' := List.eq_of_mem_replicate hc
    decide
  | identifier name =>
    have hname : Quiet name.toList :=
      (quiet_word_iff (isWord_of_isName hf)).2 (hnames _ (by simp [Fragment.names]))
    rw [write_identifier hf]
    exact quiet_marked (by cases d <;> decide) (by cases d <;> decide) hname
  | integer n =>
    have hnatural : Quiet (natural n.natAbs) :=
      (quiet_word_iff (isWord_natural _)).2 (blockedKeyword?_natural _)
    show Quiet (integer n)
    unfold integer
    split
    · have hsign : Quiet ['-'] := quiet_of_forall (by decide)
      exact (quiet_append_iff (a := ['-']) (Or.inl (by decide))).2 ⟨hsign, hnatural⟩
    · exact hnatural
  | string s =>
    rw [write_string hf]
    refine quiet_marked (by decide) (by decide) ?_
    by_cases hs : s.toList = []
    · rw [hs]
      exact quiet_of_forall (by simp)
    · have hword : IsWord s.toList := by
        refine ⟨hs, fun c hc => isWordChar_of_isNameChar ?_⟩
        simp [Placeholder.isNameChar, hf c hc]
      exact (quiet_word_iff hword).2 (hnames _ (by simp [Fragment.names]))
  | truth b =>
    have hword : IsWord (d.truth b) := by
      refine ⟨?_, ?_⟩
      · cases d <;> cases b <;> decide
      · cases d <;> cases b <;> decide
    exact (quiet_word_iff hword).2 (by cases d <;> cases b <;> decide)
  | function name =>
    exact (quiet_word_iff (isWord_of_isName hf)).2 (hnames _ (by simp [Fragment.names]))
  | comment text => exact hf.elim

/-- A name that is not reserved is none of the reserved words. -/
theorem not_sameWord_of_not_reserved {w : List Char} (h : isOneOf w reservedWords = false)
    {k : String} (hk : k ∈ reservedWords) : sameWord w k.toList = false := by
  cases hsame : sameWord w k.toList with
  | false => rfl
  | true =>
    have hone : isOneOf w reservedWords = true := List.any_eq_true.2 ⟨k, hk, hsame⟩
    simp [h] at hone

/-- A name that is not reserved is no blocked keyword. -/
theorem blockedKeyword?_of_not_reserved {w : List Char} (h : isOneOf w reservedWords = false) :
    blockedKeyword? w = none := by
  refine List.find?_eq_none.2 fun k hk => ?_
  simp [not_sameWord_of_not_reserved h (List.mem_append_left _ hk)]

/-! ## Lexemes -/

/-- The keywords that begin a query or name a table. -/
def leadingWords : List String := ["SELECT", "FROM", "JOIN"]

/-- **The lexemes of safe fragments** are none of the keywords that begin a
query or name a table. -/
theorem Fragment.IsSafe.isKeyword (hf : f.IsSafe) (hl : l ∈ f.lexemes d depth) {k : String}
    (hk : k ∈ leadingWords) : l.isKeyword k = false := by
  have hname : ∀ w ∈ f.names, sameWord w k.toList = false := by
    intro w hw
    have hall : ∀ x ∈ leadingWords, x ∈ reservedWords := by decide
    exact not_sameWord_of_not_reserved (hf.names w hw) (hall k hk)
  cases f with
  | keyword j =>
    have hall : ∀ x ∈ leadingWords, j ∉ [Keyword.SELECT, .FROM, .JOIN] →
        ∀ y ∈ Fragment.lexemes d depth (.keyword j), y.isKeyword x = false := by
      cases j <;> simp [leadingWords, Fragment.lexemes, Lexeme.isKeyword] <;> decide
    exact hall k hk (fun hj => hf.keyword j hj rfl) l hl
  | symbol s =>
    have hpunct : ∃ c, l.kind = .punct c := by
      cases s <;> simp [Fragment.lexemes, Symbol.text] at hl <;> grind
    obtain ⟨c, hc⟩ := hpunct
    simp [Lexeme.isKeyword, hc]
  | identifier name =>
    obtain rfl := List.mem_singleton.1 hl
    exact hname _ (by simp [Fragment.names])
  | integer n =>
    have hletters : ∀ x ∈ leadingWords, ∀ c ∈ foldCase x.toList, c.isAlpha = true := by decide
    have hdigits := not_sameWord_of_digits (hletters k hk) Nat.toDigits_ne_nil
      fun c hc => isDigit_of_mem_natural (n := n.natAbs) hc
    rcases List.mem_append.1 hl with hl | hl
    · split at hl
      · obtain rfl := List.mem_singleton.1 hl
        rfl
      · cases hl
    · obtain rfl := List.mem_singleton.1 hl
      exact hdigits
  | string s =>
    simp only [Fragment.lexemes, List.mem_cons, List.not_mem_nil, or_false, or_self] at hl
    subst hl
    rfl
  | truth b =>
    obtain rfl := List.mem_singleton.1 hl
    have hall : ∀ x ∈ leadingWords, sameWord (d.truth b) x.toList = false := by
      cases d <;> cases b <;> decide
    exact hall k hk
  | function name =>
    obtain rfl := List.mem_singleton.1 hl
    exact hname _ (by simp [Fragment.names])
  | _ => cases hl

/-- No fragment has a semicolon. -/
theorem isPunct_semicolon (hl : l ∈ f.lexemes d depth) : l.isPunct ';' = false := by
  cases f with
  | keyword k => cases k <;> simp [Fragment.lexemes] at hl <;> grind [Lexeme.isPunct]
  | symbol s => cases s <;> simp [Fragment.lexemes, Symbol.text] at hl <;> grind [Lexeme.isPunct]
  | integer n =>
    rcases List.mem_append.1 hl with hl | hl
    · split at hl
      · obtain rfl := List.mem_singleton.1 hl
        rfl
      · cases hl
    · obtain rfl := List.mem_singleton.1 hl
      rfl
  | string s =>
    simp only [Fragment.lexemes, List.mem_cons, List.not_mem_nil, or_false, or_self] at hl
    subst hl
    rfl
  | space => cases hl
  | newline => cases hl
  | indent n => cases hl
  | comment text => cases hl
  | _ =>
    obtain rfl := List.mem_singleton.1 hl
    rfl

/-- The lexemes of a list of fragments are those of the fragments. -/
theorem mem_lexemesOf (h : l ∈ lexemesOf d depth fs) : ∃ f ∈ fs, ∃ n, l ∈ f.lexemes d n := by
  induction fs generalizing depth with
  | nil => cases h
  | cons f fs ih =>
    rcases List.mem_append.1 h with h | h
    · exact ⟨f, List.mem_cons_self, depth, h⟩
    · obtain ⟨g, hg, n, hl⟩ := ih h
      exact ⟨g, List.mem_cons_of_mem f hg, n, hl⟩

/-- Among the lexemes of safe fragments none begins a query or names a table. -/
theorem isKeyword_of_mem_lexemesOf (h : ∀ f ∈ fs, f.IsSafe) (hl : l ∈ lexemesOf d depth fs)
    {k : String} (hk : k ∈ leadingWords) : l.isKeyword k = false := by
  obtain ⟨f, hf, n, hl⟩ := mem_lexemesOf hl
  exact (h f hf).isKeyword hl hk

/-- Fitting fragments are quiet when each is. -/
theorem Fitting.quiet (h : Fitting fs) (hquiet : ∀ f ∈ fs, Quiet (f.write d)) :
    Quiet (write d fs) := by
  induction fs with
  | nil => exact quiet_of_forall (by simp [write])
  | cons f fs ih =>
    have hf : f.IsSimple := h.simple f List.mem_cons_self
    have hrest := ih h.tail fun g hg => hquiet g (List.mem_cons_of_mem f hg)
    have hwrite : write d (f :: fs) = f.write d ++ write d fs := by simp [write]
    have hparted : Parted (f.write d) (write d fs) := by
      cases fs with
      | nil => exact Or.inr rfl
      | cons g gs => exact (parted_of_fits hf (h.simple g (by simp)) h.chain.rel).1
    rw [hwrite]
    exact (quiet_append_iff hparted).2 ⟨hquiet f List.mem_cons_self, hrest⟩

end DealSql.Sql
