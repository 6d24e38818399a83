import DealSql.Proofs.AlikeValues
import DealSql.Proofs.FittingFragments
import DealSql.Proofs.UnplacedLexemes

/-!
# The lexemes of fitting fragments

Fitting fragments keep to themselves in the mask of a statement as well, so
its lexemes are those of its fragments one after another, at the depth that
the fragments before have left.  A name is one word, whatever marks the
dialect puts around it, and a string is two quotes.

* `Fitting.piecewise` — fitting fragments are read one by one.
* `Fitting.reads_shown` — the lexemes of a list of fragments.
-/

namespace DealSql.Sql

open DealSql.Text DealSql.Statement

variable {d : Dialect} {f g : Fragment} {fs gs : List Fragment} {depth : Nat}

/-! ## Masks -/

/-- The characters of a name begin nothing. -/
theorem isInert_of_isNameChar {c : Char} (h : Placeholder.isNameChar c = true) :
    isInert c = true := by
  have hne : ∀ x, Placeholder.isNameChar x = false → c ≠ x := fun x hx => ne_of_test h hx
  simp [isInert, hne '-' rfl, hne '/' rfl, hne '\'' rfl, hne '"' rfl]

/-- A simple fragment is whole. -/
theorem whole_of_isSimple (hf : f.IsSimple) : Whole (f.write d) := by
  refine whole_fragment f ?_ ?_ ?_
  · rintro name rfl
    by_cases hd : d = .tsql
    · refine Or.inr (whole_of_inert ?_).1
      have hwrite : d.quoteIdentifier name.toList = _ := write_identifier (d := d) hf
      rw [hwrite, hd]
      intro c hc
      simp only [Dialect.identifierMarks, List.cons_append, List.mem_cons, List.mem_append,
        List.not_mem_nil, or_false] at hc
      rcases hc with rfl | hc | rfl
      · rfl
      · exact isInert_of_isNameChar (hf.2 c hc)
      · rfl
    · exact Or.inl hd
  · rintro name rfl
    exact (whole_of_inert fun c hc => isInert_of_isNameChar (hf.2 c hc)).1
  · rintro text rfl
    exact hf.elim

/-- No pair arises where fitting fragments meet. -/
theorem seam_of_fits (gs : List Fragment) (hf : f.IsSimple) (hg : g.IsSimple) (h : f.fits g = true) :
    Seam (f.write d) (write d (g :: gs)) := by
  have hpairing : ∀ c, isNeutral c = true → isPairing c = false := by
    intro c hc
    simpa using (Bool.and_eq_true_iff.1 hc).2
  rcases neutral_of_fits (d := d) hf hg h with ⟨b, hb, hneutral⟩ | ⟨a, ha, hneutral⟩
  · exact Or.inl (by simp [hb, hpairing b hneutral])
  · have hhead : (write d (g :: gs)).head? = some a := by simp [write, List.head?_append, ha]
    exact Or.inr (by simp [hhead, hpairing a hneutral])

/-- Fitting fragments are read one by one. -/
theorem Fitting.piecewise (h : Fitting fs) : Piecewise d fs := by
  induction fs with
  | nil => exact piecewise_nil
  | cons f fs ih =>
    have hf : f.IsSimple := h.simple f List.mem_cons_self
    have hsingle : Piecewise d [f] := piecewise_single (whole_of_isSimple hf)
    cases fs with
    | nil => exact hsingle
    | cons g gs =>
      have hg : g.IsSimple := h.simple g (by simp)
      have hseam : Seam (write d [f]) (write d (g :: gs)) := by
        simpa [write] using seam_of_fits (d := d) gs hf hg h.chain.rel
      exact hsingle.append (ih h.tail) hseam

/-- All but a string is shown as it was written. -/
theorem shown_eq_write (hf : f.IsSimple) (hstring : ∀ s, f ≠ .string s) :
    f.shown d = f.write d := by
  refine (whole_of_isSimple hf).maskLiterals_eq fun c hc => ?_
  rcases mem_write hf hc with hname | hmark | ⟨-, s, rfl⟩
  · exact ne_of_test hname rfl
  · rintro rfl
    exact absurd hmark (by decide)
  · exact absurd rfl (hstring s)

/-- Of a string only the quotes are shown. -/
theorem shown_string {s : String} (hf : (Fragment.string s).IsSimple) :
    ∃ b, (∀ c ∈ b, isBlank c = true) ∧ Fragment.shown d (.string s) = '\'' :: b ++ ['\''] := by
  have hdouble : double '\'' s.toList = s.toList :=
    double_of_forall_ne fun c hc => ne_of_test (hf c hc) (by decide)
  have hquote : (Fragment.string s).write d = quoteWith '\'' '\'' s.toList := by
    rw [write_string hf, quoteWith, hdouble]
  exact shown_of_quoted hquote

/-! ## Lexemes -/

/-- The lexemes of a fragment at a depth, wherever it stands. -/
def Fragment.lexemes (d : Dialect) (depth : Nat) : Fragment → List Lexeme
  | .keyword .GROUP_BY => [⟨.word "GROUP".toList, 0, depth⟩, ⟨.word "BY".toList, 0, depth⟩]
  | .keyword k => [⟨.word k.text.toList, 0, depth⟩]
  | .symbol .closeParen => [⟨.punct ')', 0, depth - 1⟩]
  | .symbol s => s.text.toList.map fun c => ⟨.punct c, 0, depth⟩
  | .identifier name => [⟨.word name.toList, 0, depth⟩]
  | .integer n =>
    (if n < 0 then [⟨.punct '-', 0, depth⟩] else []) ++ [⟨.word (natural n.natAbs), 0, depth⟩]
  | .string _ => [⟨.punct '\'', 0, depth⟩, ⟨.punct '\'', 0, depth⟩]
  | .truth b => [⟨.word (d.truth b), 0, depth⟩]
  | .function name => [⟨.word (upper name.toList), 0, depth⟩]
  | _ => []

/-- The depth after a fragment. -/
def Fragment.depthAfter (depth : Nat) : Fragment → Nat
  | .symbol .openParen => depth + 1
  | .symbol .closeParen => depth - 1
  | _ => depth

/-- The depth after some fragments. -/
def depthAfter (depth : Nat) (fs : List Fragment) : Nat := fs.foldl Fragment.depthAfter depth

/-- The lexemes of fragments from a depth. -/
def lexemesOf (d : Dialect) (depth : Nat) : List Fragment → List Lexeme
  | [] => []
  | f :: fs => f.lexemes d depth ++ lexemesOf d (f.depthAfter depth) fs

@[simp] theorem depthAfter_append : depthAfter depth (fs ++ gs) =
    depthAfter (depthAfter depth fs) gs := List.foldl_append

@[simp] theorem lexemesOf_append : lexemesOf d depth (fs ++ gs) =
    lexemesOf d depth fs ++ lexemesOf d (depthAfter depth fs) gs := by
  induction fs generalizing depth with
  | nil => rfl
  | cons f fs ih =>
    rw [List.cons_append, lexemesOf, lexemesOf, ih, List.append_assoc]
    rfl

/-- A text has some lexemes at a depth, and leaves a depth. -/
def Reads (s : List Char) (depth : Nat) (ls : List Lexeme) (after : Nat) : Prop :=
  (∀ offset, unplaced (lexFrom true offset depth s) = ls) ∧
    Nesting.after true ⟨depth, none⟩ s = ⟨after, none⟩

/-- Words and blanks leave the depth as it is. -/
theorem reads_word {w : List Char} (hw : IsWord w) :
    Reads w depth [⟨.word w, 0, depth⟩] depth := by
  refine ⟨fun offset => ?_, Nesting.after_of_isWordChar rfl hw.2⟩
  rw [lexFrom_word hw]
  rfl

theorem reads_blanks {b : List Char} (hb : ∀ c ∈ b, isBlank c = true) :
    Reads b depth [] depth := by
  refine ⟨fun offset => ?_, Nesting.after_of_isBlank (Or.inl rfl) hb⟩
  have hlex : lexFrom true offset depth (b ++ []) = _ := lexFrom_blanks hb []
  rw [List.append_nil] at hlex
  rw [hlex]
  simp [lexFrom]

/-- A text with what its ends leave to the next. -/
theorem Reads.append {a b : List Char} {ls ms : List Lexeme} {m n : Nat}
    (ha : Reads a depth ls m) (hb : Reads b m ms n) (h : Parted a b) :
    Reads (a ++ b) depth (ls ++ ms) n := by
  refine ⟨fun offset => ?_, ?_⟩
  · have hname : (Nesting.after true ⟨depth, none⟩ a).name = none := by rw [ha.2]
    rw [lexFrom_append hname h, unplaced_append, ha.1, ha.2, hb.1]
  · rw [Nesting.after_append, ha.2, hb.2]

theorem reads_nil : Reads [] depth [] depth := ⟨fun _ => by simp [lexFrom], rfl⟩

/-- A blank behind a text adds no lexeme. -/
theorem Reads.blank {s : List Char} {ls : List Lexeme} {n : Nat} (h : Reads s depth ls n) :
    Reads (s ++ [' ']) depth ls n := by
  have hblank : Reads [' '] n [] n := reads_blanks (by decide)
  have hparted : Parted s [' '] := Or.inr (by decide)
  simpa using h.append hblank hparted

/-- Whether a character is a lexeme that opens and closes nothing. -/
def isMark (c : Char) : Bool :=
  !isBlank c && !isWordChar c && (closing? c).isNone && c != '(' && c != ')'

/-- Marks are lexemes one by one. -/
theorem reads_marks {s : List Char} (hs : ∀ c ∈ s, isMark c = true) :
    Reads s depth (s.map fun c => ⟨.punct c, 0, depth⟩) depth := by
  induction s with
  | nil => exact reads_nil
  | cons c s ih =>
    have hc := hs c List.mem_cons_self
    simp only [isMark, Bool.and_eq_true, Bool.not_eq_true', Option.isNone_iff_eq_none,
      bne_iff_ne] at hc
    obtain ⟨⟨⟨⟨hblank, hword⟩, hclosing⟩, hopen⟩, hclose⟩ := hc
    have hmark : Reads [c] depth [⟨.punct c, 0, depth⟩] depth := by
      refine ⟨fun offset => ?_, ?_⟩
      · rw [lexFrom]
        simp [hblank, hword, hclosing, hopen, hclose, lexFrom, Lexeme.unplaced]
      · rw [Nesting.after_cons, Nesting.step_of_plain rfl hclosing hopen hclose]
        rfl
    exact hmark.append (ih fun x hx => hs x (List.mem_cons_of_mem c hx))
      (Or.inl (by simp [endsInWord, hword]))

theorem reads_openParen : Reads ['('] depth [⟨.punct '(', 0, depth⟩] (depth + 1) := by
  have hblank : ¬ isBlank '(' = true := by decide
  have hword : ¬ isWordChar '(' = true := by decide
  refine ⟨fun offset => ?_, rfl⟩
  rw [lexFrom, if_neg hblank, if_neg hword]
  simp [closing?, lexFrom, Lexeme.unplaced]

theorem reads_closeParen : Reads [')'] depth [⟨.punct ')', 0, depth - 1⟩] (depth - 1) := by
  have hblank : ¬ isBlank ')' = true := by decide
  have hword : ¬ isWordChar ')' = true := by decide
  refine ⟨fun offset => ?_, rfl⟩
  rw [lexFrom, if_neg hblank, if_neg hword]
  simp [closing?, lexFrom, Lexeme.unplaced]

/-- Between its marks a name is a word. -/
theorem reads_name {c stop : Char} {s : List Char} (hc : closing? c = some stop)
    (hs : ∀ x ∈ s, x ≠ stop) : Reads (c :: s ++ [stop]) depth [⟨.word s, 0, depth⟩] depth := by
  have hopening : (if true = true then closing? c else none) = some stop := by simp [hc]
  have hblank : ¬ isBlank c = true := by
    intro hblank
    simp [closing?_of_isBlank hblank] at hc
  have hword : ¬ isWordChar c = true := by
    intro hword
    simp [closing?_of_isWordChar hword] at hc
  obtain ⟨htake, hfirst⟩ := split_at_stop [] hs
  refine ⟨fun offset => ?_, ?_⟩
  · rw [List.cons_append, lexFrom, if_neg hblank, if_neg hword, if_pos rfl, hc]
    simp only [htake, hfirst, lexFrom]
    rfl
  · exact Nesting.after_quoted hopening hs

theorem isWordChar_of_isNameChar {c : Char} (h : Placeholder.isNameChar c = true) :
    isWordChar c = true := by
  simp only [Placeholder.isNameChar, Char.isAlphanum, Bool.or_eq_true] at h
  rcases h with (hc | hc) | hc
  · exact isWordChar_of_isAlphabetic (isAlphabetic_of_isAlpha hc)
  · exact isWordChar_of_isNumeric (isNumeric_of_isDigit hc)
  · simp [isWordChar, hc]

/-- A name is a word. -/
theorem isWord_of_isName {s : List Char} (h : IsName s) : IsWord s := by
  refine ⟨?_, fun c hc => isWordChar_of_isNameChar (h.2 c hc)⟩
  rintro rfl
  obtain ⟨⟨c, hc, -⟩, -⟩ := h
  cases hc

theorem isWord_natural (n : Nat) : IsWord (natural n) :=
  ⟨Nat.toDigits_ne_nil, fun _ hc =>
    isWordChar_of_isNumeric (isNumeric_of_isDigit (isDigit_of_mem_natural hc))⟩

/-- **The lexemes of a fragment.** -/
theorem reads_shown (hf : f.IsSimple) :
    Reads (f.shown d) depth (f.lexemes d depth) (f.depthAfter depth) := by
  by_cases hstring : ∃ s, f = .string s
  · obtain ⟨s, rfl⟩ := hstring
    obtain ⟨b, hb, hshown⟩ := shown_string (d := d) hf
    have hquote : Reads ['\''] depth [⟨.punct '\'', 0, depth⟩] depth := reads_marks (by decide)
    have hopen := hquote.append (reads_blanks hb) (Or.inl (by decide))
    rw [hshown]
    exact hopen.append hquote (Or.inr (by decide))
  · rw [shown_eq_write hf fun s hs => hstring ⟨s, hs⟩]
    cases f with
    | keyword k =>
      by_cases hk : k = .GROUP_BY
      · subst hk
        have hgroup : Reads "GROUP".toList depth _ depth :=
          reads_word (isWord_of_isName (by decide))
        have hby : Reads "BY".toList depth _ depth := reads_word (isWord_of_isName (by decide))
        have hspace : Reads [' '] depth [] depth := reads_blanks (by decide)
        exact (hgroup.append hspace (Or.inr (by decide))).append hby (Or.inl (by decide))
      · have hlexemes : Fragment.lexemes d depth (.keyword k) =
            [⟨.word k.text.toList, 0, depth⟩] := by
          cases k <;> first | rfl | exact absurd rfl hk
        have hname : IsName k.text.toList := by
          revert hk
          cases k <;> decide
        rw [hlexemes]
        exact reads_word (isWord_of_isName hname)
    | symbol s =>
      have hmarks : s ≠ .openParen → s ≠ .closeParen → ∀ c ∈ s.text.toList, isMark c = true := by
        cases s <;> decide
      cases s with
      | openParen => exact reads_openParen
      | closeParen => exact reads_closeParen
      | _ => exact reads_marks (hmarks (by decide) (by decide))
    | space => exact reads_blanks (b := [' ']) (by decide)
    | newline => exact reads_blanks (b := ['\n']) (by decide)
    | indent n =>
      refine reads_blanks fun c hc => ?_
      obtain rfl : c = ' ' := List.eq_of_mem_replicate hc
      decide
    | identifier name =>
      rw [write_identifier hf]
      cases d with
      | tsql => exact reads_name rfl (hf.ne rfl)
      | _ => exact reads_name rfl (hf.ne rfl)
    | integer n =>
      have hnatural : Reads (natural n.natAbs) depth _ depth := reads_word (isWord_natural _)
      have hsign : Reads ['-'] depth [⟨.punct '-', 0, depth⟩] depth := reads_marks (by decide)
      by_cases hn : n < 0
      · simpa [Fragment.write, Fragment.lexemes, Fragment.depthAfter, integer, hn] using
          hsign.append hnatural (Or.inl (by decide))
      · simpa [Fragment.write, Fragment.lexemes, Fragment.depthAfter, integer, hn] using hnatural
    | string s => exact absurd ⟨s, rfl⟩ hstring
    | truth b =>
      refine reads_word ⟨?_, ?_⟩
      · cases d <;> cases b <;> decide
      · cases d <;> cases b <;> decide
    | function name => exact reads_word (isWord_of_isName hf)
    | comment text => exact hf.elim

/-- A fragment is shown with the ends that it has. -/
theorem ends_shown (hf : f.IsSimple) : (f.shown d).head? = (f.write d).head? ∧
    (f.shown d).getLast? = (f.write d).getLast? := by
  by_cases hstring : ∃ s, f = .string s
  · obtain ⟨s, rfl⟩ := hstring
    obtain ⟨b, -, hshown⟩ := shown_string (d := d) hf
    rw [hshown, write_string hf]
    exact ⟨rfl, by rw [List.getLast?_concat, List.getLast?_concat]⟩
  · rw [shown_eq_write hf fun s hs => hstring ⟨s, hs⟩]
    exact ⟨rfl, rfl⟩

/-- No word runs on where fitting fragments meet. -/
theorem parted_of_fits (hf : f.IsSimple) (hg : g.IsSimple) (h : f.fits g = true) :
    Parted (f.write d) (write d (g :: gs)) ∧
      Parted (f.shown d) (shownFragments d (g :: gs)) := by
  have hword : ∀ c, isNeutral c = true → isWordChar c = false := by
    intro c hc
    simpa using (Bool.and_eq_true_iff.1 hc).1
  obtain ⟨-, hlast⟩ := ends_shown (d := d) hf
  obtain ⟨hhead, -⟩ := ends_shown (d := d) hg
  rcases neutral_of_fits (d := d) hf hg h with ⟨b, hb, hneutral⟩ | ⟨a, ha, hneutral⟩
  · exact ⟨Or.inl (by simp [endsInWord, hb, hword b hneutral]),
      Or.inl (by simp [endsInWord, hlast, hb, hword b hneutral])⟩
  · exact ⟨Or.inr (by simp [beginsWithWord, write, List.head?_append, ha, hword a hneutral]),
      Or.inr (by simp [beginsWithWord, shownFragments, List.head?_append, hhead, ha,
        hword a hneutral])⟩

/-- **The lexemes of fitting fragments**, one after another. -/
theorem Fitting.reads_shown (h : Fitting fs) :
    Reads (shownFragments d fs) depth (lexemesOf d depth fs) (depthAfter depth fs) := by
  induction fs generalizing depth with
  | nil => exact reads_nil
  | cons f fs ih =>
    have hf : f.IsSimple := h.simple f List.mem_cons_self
    have hshown : Reads (f.shown d) depth _ _ := Sql.reads_shown hf
    have hrest : Reads (shownFragments d fs) (f.depthAfter depth) _ _ := ih h.tail
    refine hshown.append hrest ?_
    cases fs with
    | nil => exact Or.inr rfl
    | cons g gs =>
      have hg : g.IsSimple := h.simple g (by simp)
      exact (parted_of_fits hf hg h.chain.rel).2

end DealSql.Sql
