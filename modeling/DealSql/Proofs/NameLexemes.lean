import DealSql.Proofs.PlainStatements
import DealSql.Proofs.Segments
import DealSql.Proofs.VerbatimTexts

/-!
# Names as lexemes

A dialect writes a name between marks, with every closing mark in it doubled.
The structure of a statement is judged on other readings: the mask takes away
comments and the insides of literals without a thought of brackets, and a quoted
name ends for the lexemes at its first closing mark.

A name is found again as one word exactly when neither of the two gets in its way:
it holds no closing mark, and between brackets the mask hides nothing of it but
spaces and line feeds.

* `maskFrom_eq_self_iff` — what a mask leaves as it is.
* `kinds_open_name` — a doubled quote parts a name.
* `isOneWord_iff` — which names are found again.
* `doubledQuote_parted` — two names that are not.
-/

namespace DealSql.Statement

open DealSql.Text DealSql.Review

variable {m : Mask} {g : Region} {c stop : Char} {s u w : List Char} {offset depth : Nat}

/-! ## Masks that change nothing -/

/-- The blanks for a character are itself when it is a space or a line feed. -/
theorem blanks_append_eq_cons_iff {r r' : List Char} :
    blanks c ++ r' = c :: r ↔ (c = ' ' ∨ c = '\n') ∧ r' = r := by
  unfold blanks
  by_cases hc : c = '\n'
  · subst hc
    simp
  · rw [if_neg hc]
    obtain ⟨n, hn⟩ : ∃ n, c.utf8Size = n + 1 := by
      have := c.utf8Size_pos
      exact ⟨c.utf8Size - 1, by omega⟩
    by_cases hspace : c = ' '
    · subst hspace
      simp [show ' '.utf8Size = 1 from rfl]
    · rw [hn, List.replicate_succ, List.cons_append, List.cons.injEq]
      have hne : ' ' ≠ c := fun h => hspace h.symm
      simp [hc, hspace, hne]

/-- **A mask leaves a text as it is** when it hides spaces and line feeds at most. -/
theorem maskFrom_eq_self_iff : maskFrom m g s = s ↔
    ∀ x ∈ marksFrom g s, m.hides x.2 = true → x.1 = ' ' ∨ x.1 = '\n' := by
  induction s generalizing g with
  | nil => simp [maskFrom, marksFrom]
  | cons c r ih =>
    rw [maskFrom_cons, marksFrom, List.forall_mem_cons, ← ih]
    cases hx : m.hides (g.read c r.head?).1 with
    | true => rw [Mask.show_of_hides hx, blanks_append_eq_cons_iff, forall_prop_of_true rfl]
    | false => simp [Mask.show_of_visible hx]

/-! ## Lexemes of quoted names -/

/-- A closed name without its closing mark inside is one word. -/
theorem lexFrom_closed (hc : closing? c = some stop) (hs : stop ∉ s) :
    lexFrom true offset depth (c :: (s ++ [stop])) = [⟨.word s, offset, depth⟩] := by
  have hne : ∀ d ∈ s, d ≠ stop := by
    intro d hd hstop
    exact hs (hstop ▸ hd)
  obtain ⟨htake, hfirst⟩ := split_at_stop [] hne
  rw [lexFrom_opening hc, htake, hfirst]
  simp [lexFrom]

/-- Of a name that has begun, a doubled quote parts the rest. -/
theorem kinds_open_name (offset depth : Nat) (hu : '"' ∉ u) :
    (lexFrom true offset depth ('"' :: (u ++ (double '"' s ++ ['"'])))).map Lexeme.kind =
      ((splitAtEach (· == '"') s).modifyHead (u ++ ·)).map .word := by
  induction s generalizing u offset with
  | nil =>
    rw [double, List.flatMap_nil, List.nil_append, lexFrom_closed rfl hu]
    simp [splitAtEach]
  | cons c r ih =>
    obtain ⟨p, ps, hp⟩ := exists_splitAtEach (· == '"') r
    rw [double_cons]
    by_cases hc : c = '"'
    · subst hc
      have hne : ∀ d ∈ u, d ≠ '"' := by
        intro d hd hstop
        exact hu (hstop ▸ hd)
      obtain ⟨htake, hfirst⟩ := split_at_stop ('"' :: (double '"' r ++ ['"'])) hne
      have hcut : ['"', '"'] ++ double '"' r ++ ['"'] =
          '"' :: '"' :: (double '"' r ++ ['"']) := by simp
      have hrest := ih (u := []) (offset + byteLength u + 2) (by simp)
      rw [List.nil_append] at hrest
      rw [if_pos rfl, hcut, lexFrom_opening rfl, htake, hfirst, List.map_cons, hrest]
      simp [splitAtEach, hp]
    · have hmem : '"' ∉ u ++ [c] := by
        simpa [hu] using fun h : '"' = c => hc h.symm
      have hrest := ih offset hmem
      rw [if_neg hc, List.append_assoc]
      rw [List.append_assoc] at hrest
      rw [hrest]
      simp [splitAtEach, hc, hp]

/-! ## Names that are found again -/

/-- The lexemes of a name as a dialect writes it. -/
def nameLexemes (d : Dialect) (s : List Char) : List Lexeme :=
  structuralLexemes (d.quoteIdentifier s)

/-- A word denotes a name: it spells the name, with each closing mark once or twice. -/
def Denotes (d : Dialect) (w s : List Char) : Prop :=
  w = s ∨ w = double d.identifierMarks.2 s

instance (d : Dialect) (w s : List Char) : Decidable (Denotes d w s) :=
  inferInstanceAs (Decidable (w = s ∨ w = double d.identifierMarks.2 s))

/-- A name is found again as a single word at the beginning of the text. -/
def IsOneWord (d : Dialect) (s : List Char) : Prop :=
  ∃ w, nameLexemes d s = [⟨.word w, 0, 0⟩] ∧ Denotes d w s

/-- The marks around a name open and close one to the lexemes as well. -/
theorem closing?_identifierMarks (d : Dialect) :
    closing? d.identifierMarks.1 = some d.identifierMarks.2 := by
  cases d <;> rfl

/-- A written name begins with one word for the lexemes, up to the first closing mark that the
mask has left; and the mask keeps its length. -/
theorem exists_masked_name (d : Dialect) (s : List Char) : ∃ inside,
    maskLiterals (d.quoteIdentifier s) = d.identifierMarks.1 :: inside ∧
    byteLength inside = byteLength (double d.identifierMarks.2 s) +
      byteLength [d.identifierMarks.2] ∧
    ∃ later, nameLexemes d s =
      ⟨.word (inside.takeWhile (· != d.identifierMarks.2)), 0, 0⟩ :: later := by
  obtain ⟨g, hmask⟩ : ∃ g, maskLiterals (d.quoteIdentifier s) = d.identifierMarks.1 ::
      maskFrom .commentsAndLiterals g (double d.identifierMarks.2 s ++ [d.identifierMarks.2]) := by
    cases d with
    | tsql => exact ⟨.code, rfl⟩
    | _ => exact ⟨.name, rfl⟩
  refine ⟨_, hmask, ?_, ?_⟩
  · rw [byteLength_maskFrom, byteLength_append]
  · rw [nameLexemes, structuralLexemes, hmask]
    exact ⟨_, lexFrom_opening (closing?_identifierMarks d) _⟩

/-- Between double quotes nothing is masked. -/
theorem maskLiterals_quoteName (s : List Char) :
    maskLiterals (quoteWith '"' '"' s) = quoteWith '"' '"' s := by
  refine maskFrom_eq_self_iff.2 fun x hx hhides => ?_
  obtain ⟨hcomment, hliteral⟩ := marks_quoteName s x hx
  cases hrole : x.2 with
  | comment => exact absurd hrole hcomment
  | literal => exact absurd hrole hliteral
  | code =>
    rw [hrole] at hhides
    cases hhides
  | name =>
    rw [hrole] at hhides
    cases hhides

/-- A text that is read up to a mark and has no room for more ends with the mark. -/
theorem eq_append_of_takeWhile (hfront : s.takeWhile (· != stop) = w)
    (hlength : byteLength s = byteLength w + byteLength [stop]) : s = w ++ [stop] := by
  have hcut : w ++ s.dropWhile (· != stop) = s := by
    rw [← hfront, List.takeWhile_append_dropWhile]
  have hrest : byteLength (s.dropWhile (· != stop)) = byteLength [stop] := by
    rw [← hcut, byteLength_append] at hlength
    omega
  cases hback : s.dropWhile (· != stop) with
  | nil =>
    have := stop.utf8Size_pos
    simp only [hback, byteLength] at hrest
    omega
  | cons c r =>
    have hfirst := (not_mem_takeWhile stop s).2
    rw [hback] at hfirst
    obtain rfl : c = stop := hfirst c rfl
    cases r with
    | nil => rw [← hback, hcut]
    | cons d r =>
      have := d.utf8Size_pos
      simp only [hback, byteLength] at hrest
      omega

/-- A name is one word when it has no closing mark and the mask leaves it. -/
theorem IsOneWord.of_mask {d : Dialect} (hs : d.identifierMarks.2 ∉ s)
    (hmask : maskLiterals (d.quoteIdentifier s) = d.quoteIdentifier s) : IsOneWord d s := by
  have hne : ∀ c ∈ s, c ≠ d.identifierMarks.2 := by
    intro c hc hstop
    exact hs (hstop ▸ hc)
  have hwritten : d.quoteIdentifier s = d.identifierMarks.1 :: (s ++ [d.identifierMarks.2]) := by
    rw [Dialect.quoteIdentifier, quoteWith, double_of_forall_ne hne, List.cons_append]
  refine ⟨s, ?_, Or.inl rfl⟩
  rw [nameLexemes, structuralLexemes, hmask, hwritten]
  exact lexFrom_closed (closing?_identifierMarks d) hs

/-- A name that is one word has no closing mark, and the mask leaves it. -/
theorem IsOneWord.mask_eq {d : Dialect} (h : IsOneWord d s) : d.identifierMarks.2 ∉ s ∧
    maskLiterals (d.quoteIdentifier s) = d.quoteIdentifier s := by
  obtain ⟨w, hw, hdenotes⟩ := h
  obtain ⟨inside, hmask, hlength, later, hlexemes⟩ := exists_masked_name d s
  have hword : inside.takeWhile (· != d.identifierMarks.2) = w := by
    rw [hlexemes] at hw
    exact Lexeme.Kind.word.inj (congrArg Lexeme.kind (List.cons.inj hw).1)
  have hstop : d.identifierMarks.2 ∉ w := by
    rw [← hword]
    exact (not_mem_takeWhile _ inside).1
  have hs : d.identifierMarks.2 ∉ s := by
    intro hmem
    rcases hdenotes with heq | heq
    · exact hstop (heq ▸ hmem)
    · exact hstop (heq ▸ mem_double_iff.2 hmem)
  have hdouble : double d.identifierMarks.2 s = s :=
    double_of_forall_ne fun c hc hclosing => hs (hclosing ▸ hc)
  have hspells : w = s := by
    rcases hdenotes with heq | heq
    · exact heq
    · exact heq.trans hdouble
  -- what is left behind the word has room for the closing mark and nothing else
  have hwhole : inside = s ++ [d.identifierMarks.2] := by
    rw [hdouble] at hlength
    exact eq_append_of_takeWhile (hword.trans hspells) hlength
  have hwritten : d.quoteIdentifier s =
    d.identifierMarks.1 :: (double d.identifierMarks.2 s ++ [d.identifierMarks.2]) := rfl
  exact ⟨hs, by rw [hmask, hwritten, hwhole, hdouble]⟩

/-- Double quotes are the marks of every dialect but one. -/
theorem identifierMarks_of_ne_tsql {d : Dialect} (hd : d ≠ .tsql) :
    d.identifierMarks = ('"', '"') := by
  cases d with
  | tsql => exact absurd rfl hd
  | _ => rfl

/-- **Names are found again** as one word when they have no closing mark and the mask hides
nothing between the marks but spaces and line feeds, and never else.  Between double quotes
the mask hides nothing at all, so that it is only the quote that matters: each one in a name
parts it, and the lexemes are the pieces between them. -/
theorem isOneWord_iff (d : Dialect) (s : List Char) :
    (IsOneWord d s ↔ d.identifierMarks.2 ∉ s ∧ ∀ x ∈ marks (d.quoteIdentifier s),
      Mask.commentsAndLiterals.hides x.2 = true → x.1 = ' ' ∨ x.1 = '\n') ∧
    (d ≠ .tsql → (IsOneWord d s ↔ '"' ∉ s) ∧
      (nameLexemes d s).map Lexeme.kind = (splitAtEach (· == '"') s).map .word) := by
  have hiff : IsOneWord d s ↔ d.identifierMarks.2 ∉ s ∧
      maskLiterals (d.quoteIdentifier s) = d.quoteIdentifier s :=
    ⟨IsOneWord.mask_eq, fun h => .of_mask h.1 h.2⟩
  refine ⟨hiff.trans (and_congr_right fun _ => maskFrom_eq_self_iff), fun hd => ?_⟩
  have hmarks := identifierMarks_of_ne_tsql hd
  have hwritten : d.quoteIdentifier s = quoteWith '"' '"' s := by
    rw [Dialect.quoteIdentifier, hmarks]
  have hmask := maskLiterals_quoteName s
  constructor
  · rw [hiff, hwritten, hmarks, and_iff_left hmask]
  · obtain ⟨p, ps, hp⟩ := exists_splitAtEach (· == '"') s
    have hkinds := kinds_open_name (u := []) (s := s) 0 0 (by simp)
    rw [nameLexemes, structuralLexemes, hwritten, hmask]
    refine hkinds.trans ?_
    rw [hp]
    rfl

/-- A name with a quote and the marks of a comment, and a name with its own quote. -/
theorem quotedComment_isOneWord : Dialect.postgres ≠ .tsql ∧
    IsOneWord .postgres "it's -- [x]".toList ∧
    (nameLexemes .duckdb "odd\"name".toList).map Lexeme.kind =
      [.word "odd".toList, .word "name".toList] := by
  have hpostgres : Dialect.postgres ≠ .tsql := by decide
  have hduckdb : Dialect.duckdb ≠ .tsql := by decide
  have hname := (isOneWord_iff .postgres "it's -- [x]".toList).2 hpostgres
  have hparted := (isOneWord_iff .duckdb "odd\"name".toList).2 hduckdb
  exact ⟨hpostgres, hname.1.2 (by decide), hparted.2⟩

/-- **Names that are lost.**  A doubled quote parts a name in two words, and between brackets
a quote begins a literal for the mask. -/
theorem doubledQuote_parted :
    nameLexemes .postgres "odd\"name".toList =
      [⟨.word "odd".toList, 0, 0⟩, ⟨.word "name".toList, 5, 0⟩] ∧
    ¬ IsOneWord .postgres "odd\"name".toList ∧
    nameLexemes .tsql "it's".toList = [⟨.word "it'  ".toList, 0, 0⟩] ∧
    ¬ IsOneWord .tsql "it's".toList := by
  have hparted : nameLexemes .postgres "odd\"name".toList =
      [⟨.word "odd".toList, 0, 0⟩, ⟨.word "name".toList, 5, 0⟩] := by decide +kernel
  have hblanked : nameLexemes .tsql "it's".toList = [⟨.word "it'  ".toList, 0, 0⟩] := by
    decide +kernel
  refine ⟨hparted, ?_, hblanked, ?_⟩
  · intro ⟨w, hw, _⟩
    rw [hparted] at hw
    cases hw
  · intro ⟨w, hw, hdenotes⟩
    rw [hblanked] at hw
    cases hw
    exact absurd hdenotes (by decide)

end DealSql.Statement
