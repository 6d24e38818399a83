import DealSql.Proofs.AlikeTexts
import DealSql.Proofs.PlainStatements
import DealSql.Proofs.Validity

/-!
# Quoted names among the keywords

The structure of a statement is judged on lexemes, and there a name between
double quotes or brackets is a word like any other.  The *code* of a
statement is what is left when its names are set aside as its comments and
the insides of its literals are: its words are the words of the statement
that nothing quotes.

A statement is asked to begin with `SELECT` or `WITH` and to have a `FROM`.
In a valid statement each of the two is a word of the code or a quoted name
that reads like one, and the name alone is enough.

* `mem_lexFrom_names` — every lexeme is one of the code or a quoted name.
* `entry_of_isValid` — how a valid statement begins, and its `FROM`.
* `quotedFrom_valid` — a valid statement whose code has no `FROM`.
-/

namespace DealSql.Statement

open DealSql.Text

variable {offset depth : Nat} {n : Nesting} {s t a b w name : List Char} {l : Lexeme}

/-! ## Texts without their names -/

/-- A text with its quoted names replaced by blanks, read from a nesting. -/
def outsideNames (n : Nesting) : List Char → List Char
  | [] => []
  | c :: r =>
    (if n.name = none ∧ (n.step true c).name = none then [c] else blanks c) ++
      outsideNames (n.step true c) r

/-- A name begins a text; where nothing closes it, it runs to the end. -/
def OpensName (name s : List Char) : Prop :=
  ∃ c stop r, s = c :: r ∧ closing? c = some stop ∧ name = r.takeWhile (· != stop)

/-- A name stands in a text. -/
def QuotesName (name t : List Char) : Prop :=
  ∃ a s, t = a ++ s ∧ (Nesting.after true ⟨0, none⟩ a).name = none ∧ OpensName name s

/-- A text begins with a name, after blanks at most. -/
def BeginsWithName (name t : List Char) : Prop :=
  ∃ a s, t = a ++ s ∧ (∀ c ∈ a, isBlank c = true) ∧ OpensName name s

/-- A text begins with a keyword, after blanks at most. -/
def BeginsWithKeyword (k : String) (t : List Char) : Prop :=
  ∃ a w b, t = a ++ w ++ b ∧ (∀ c ∈ a, isBlank c = true) ∧ sameWord w k.toList = true ∧
    beginsWithWord b = false

theorem outsideNames_append (n : Nesting) (a b : List Char) :
    outsideNames n (a ++ b) = outsideNames n a ++ outsideNames (n.after true a) b := by
  induction a generalizing n with
  | nil => rfl
  | cons c r ih => rw [List.cons_append, outsideNames, outsideNames, ih]; simp

/-- A character that opens no name is shown. -/
theorem outsideNames_cons_of_closing?_eq_none (hname : n.name = none) {c : Char}
    (hc : closing? c = none) (r : List Char) :
    outsideNames n (c :: r) = c :: outsideNames (n.step true c) r := by
  have hstep : (n.step true c).name = none := by simp [Nesting.step, hname, hc]
  rw [outsideNames, if_pos ⟨hname, hstep⟩, List.singleton_append]

/-- A word is shown as it is. -/
theorem outsideNames_of_isWordChar (hname : n.name = none)
    (hw : ∀ c ∈ w, isWordChar c = true) : outsideNames n w = w := by
  induction w with
  | nil => rfl
  | cons c r ih =>
    have hc : isWordChar c = true := hw c List.mem_cons_self
    rw [outsideNames_cons_of_closing?_eq_none hname (closing?_of_isWordChar hc),
      Nesting.step_of_isWordChar hname hc, ih fun d hd => hw d (List.mem_cons_of_mem _ hd)]

/-- With its names set aside a text takes as many bytes. -/
theorem byteLength_outsideNames (n : Nesting) (s : List Char) :
    byteLength (outsideNames n s) = byteLength s := by
  induction s generalizing n with
  | nil => rfl
  | cons c r ih =>
    have hshown : byteLength (if n.name = none ∧ (n.step true c).name = none then [c]
        else blanks c) = c.utf8Size := by
      split
      · simp [byteLength]
      · exact byteLength_blanks c
    rw [outsideNames, byteLength_append, hshown, ih]
    rfl

/-- An open name is blank up to its closing mark. -/
theorem isBlank_of_mem_outsideNames {stop : Char} (hname : n.name = some stop)
    (h : ∀ c ∈ s, c ≠ stop) : ∀ c ∈ outsideNames n s, isBlank c = true := by
  induction s with
  | nil => simp [outsideNames]
  | cons d r ih =>
    have hd : d ≠ stop := h d List.mem_cons_self
    have hstep : n.step true d = n := by simp [Nesting.step, hname, hd]
    have hhidden : ¬ (n.name = none ∧ (n.step true d).name = none) := by simp [hname]
    rw [outsideNames, if_neg hhidden, hstep]
    intro c hc
    rcases List.mem_append.1 hc with hc | hc
    · exact isBlank_of_mem_blanks hc
    · exact ih (fun e he => h e (List.mem_cons_of_mem _ he)) c hc

/-- Instead of a closed name there are blanks. -/
theorem outsideNames_name (depth : Nat) {c stop : Char} {inner : List Char}
    (hs : closing? c = some stop) (h : ∀ d ∈ inner, d ≠ stop) (rest : List Char) :
    ∃ b, (∀ d ∈ b, isBlank d = true) ∧ byteLength b = byteLength inner + 2 ∧
      outsideNames ⟨depth, none⟩ (c :: inner ++ stop :: rest) =
        b ++ outsideNames ⟨depth, none⟩ rest := by
  have hopen : Nesting.step true ⟨depth, none⟩ c = ⟨depth, some stop⟩ :=
    Nesting.step_of_opening (by rw [if_pos rfl, hs])
  have hclosed : Nesting.after true ⟨depth, none⟩ (c :: inner ++ [stop]) = ⟨depth, none⟩ :=
    Nesting.after_quoted (by rw [if_pos rfl, hs]) h
  have hblank : outsideNames ⟨depth, none⟩ (c :: inner ++ [stop]) =
      blanks c ++ (outsideNames ⟨depth, some stop⟩ inner ++ blanks stop) := by
    rw [List.cons_append, outsideNames, hopen, if_neg (by simp), outsideNames_append,
      Nesting.after_of_ne_stop h]
    simp [outsideNames]
  refine ⟨outsideNames ⟨depth, none⟩ (c :: inner ++ [stop]), fun d hd => ?_, ?_, ?_⟩
  · rw [hblank] at hd
    rcases List.mem_append.1 hd with hd | hd
    · exact isBlank_of_mem_blanks hd
    · rcases List.mem_append.1 hd with hd | hd
      · exact isBlank_of_mem_outsideNames rfl h d hd
      · exact isBlank_of_mem_blanks hd
  · obtain ⟨hc, hstop⟩ := utf8Size_of_closing? hs
    rw [byteLength_outsideNames]
    simp [byteLength, hc, hstop]
    omega
  · have hcut : c :: inner ++ stop :: rest = (c :: inner ++ [stop]) ++ rest := by simp
    rw [hcut, outsideNames_append, hclosed]

/-- Setting names aside makes no word. -/
theorem beginsWithWord_outsideNames (h : beginsWithWord s = false) :
    beginsWithWord (outsideNames n s) = false := by
  cases s with
  | nil => rfl
  | cons c r =>
    by_cases hshown : n.name = none ∧ (n.step true c).name = none
    · rw [outsideNames, if_pos hshown]
      simpa using h
    · have hne : blanks c ≠ [] := show_ne_nil .comments (c, .comment)
      obtain ⟨d, ds, hd⟩ := List.exists_cons_of_ne_nil hne
      have hblank : isBlank d = true := isBlank_of_mem_blanks (by rw [hd]; exact List.mem_cons_self)
      rw [outsideNames, if_neg hshown, hd]
      simp [isWordChar_of_isBlank hblank]

/-! ## Lexemes of the code -/

/-- A name that stands in the rest of a text stands in the text. -/
theorem QuotesName.append_left (ha : (Nesting.after true ⟨0, none⟩ a).name = none)
    (h : QuotesName name t) : QuotesName name (a ++ t) := by
  obtain ⟨x, s, rfl, hx, hs⟩ := h
  refine ⟨a ++ x, s, (List.append_assoc a x s).symm, ?_, hs⟩
  rw [Nesting.after_append]
  exact (Nesting.after_name_eq ha x).trans hx

/-- **Every lexeme is one of the code or a quoted name.** -/
theorem mem_lexFrom_names (hl : l ∈ lexFrom true offset depth t) :
    l ∈ lexFrom false offset depth (outsideNames ⟨depth, none⟩ t) ∨
      ∃ name, l.kind = .word name ∧ QuotesName name t := by
  fun_induction lexFrom true offset depth t with
  | case1 => cases hl
  | case2 offset depth c r hc ih =>
    have hstep : ∀ d, Nesting.step true ⟨d, none⟩ c = ⟨d, none⟩ :=
      fun d => Nesting.step_of_isBlank rfl hc
    rw [outsideNames_cons_of_closing?_eq_none rfl (closing?_of_isBlank hc), hstep, lexFrom,
      if_pos hc]
    refine (ih hl).imp_right fun hquoted => ?_
    obtain ⟨name, hkind, hname⟩ := hquoted
    exact ⟨name, hkind, hname.append_left (a := [c]) (by simp [hstep])⟩
  | case3 offset depth c r hb hc run ih =>
    have hword : ∀ d ∈ run, isWordChar d = true := isWordChar_of_mem_run hc r
    have hcut : c :: r = run ++ r.dropWhile isWordChar := by simp [run]
    have hafter : ∀ d, Nesting.after true ⟨d, none⟩ run = ⟨d, none⟩ :=
      fun d => Nesting.after_of_isWordChar rfl hword
    have hparted : Parted run (outsideNames ⟨depth, none⟩ (r.dropWhile isWordChar)) :=
      Or.inr (beginsWithWord_outsideNames (beginsWithWord_dropWhile r))
    rw [hcut, outsideNames_append, outsideNames_of_isWordChar rfl hword, hafter,
      lexFrom_append (Nesting.after_plain_name _ rfl run) hparted,
      lexFrom_word ⟨by simp [run], hword⟩, Nesting.after_of_isWordChar rfl hword]
    rcases List.mem_cons.1 hl with rfl | hl
    · exact Or.inl (List.mem_append_left _ List.mem_cons_self)
    · rcases ih hl with hcode | ⟨name, hkind, hname⟩
      · exact Or.inl (List.mem_append_right _ hcode)
      · exact Or.inr ⟨name, hkind, hname.append_left (by simp [hafter])⟩
  | case4 offset depth c r hb hc stop hs inner ih =>
    rw [dite_eq_ite, if_pos rfl] at hs
    rcases List.mem_cons.1 hl with rfl | hl
    · exact Or.inr ⟨inner, rfl, [], c :: r, rfl, rfl, c, stop, r, rfl, hs, rfl⟩
    · -- something stands behind the name, so the name is closed
      by_cases hmem : stop ∈ r
      · obtain ⟨x, rest, rfl, hx⟩ := List.eq_append_cons_of_mem hmem
        have hne : ∀ d ∈ x, d ≠ stop := fun d hd hstop => hx (hstop ▸ hd)
        obtain ⟨htake, hfirst⟩ := split_at_stop rest hne
        obtain ⟨b, hblank, hbytes, hshown⟩ := outsideNames_name depth hs hne rest
        simp only [inner, htake, hfirst] at ih hl
        rw [← List.cons_append, hshown, lexFrom_blanks hblank, hbytes, ← Nat.add_assoc]
        refine (ih hl).imp_right fun hquoted => ?_
        obtain ⟨name, hkind, hname⟩ := hquoted
        have hclosed : Nesting.after true ⟨0, none⟩ (c :: x ++ [stop]) = ⟨0, none⟩ :=
          Nesting.after_quoted (by rw [if_pos rfl, hs]) hne
        refine ⟨name, hkind, ?_⟩
        simpa using hname.append_left (a := c :: x ++ [stop]) (by rw [hclosed])
      · have hnone : afterFirst stop r = [] := afterFirst_of_not_mem hmem
        rw [hnone] at hl
        simp [lexFrom] at hl
  | case5 offset depth c r hb hc hs outside ih =>
    simp only [dite_eq_ite, if_true] at hs ih hl outside
    have hstep : Nesting.step true ⟨depth, none⟩ c =
        ⟨if c = '(' then outside + 1 else outside, none⟩ :=
      Nesting.step_of_mark (by rw [if_pos rfl, hs]) (by simp [outside])
    have houtside : (if c = ')' then depth - 1 else depth) = outside := by simp [outside]
    rw [outsideNames_cons_of_closing?_eq_none rfl hs, hstep, lexFrom, if_neg hb, if_neg hc]
    simp only [Bool.false_eq_true, if_false, houtside]
    rcases List.mem_cons.1 hl with rfl | hl
    · exact Or.inl List.mem_cons_self
    · rcases ih hl with hcode | ⟨name, hkind, hname⟩
      · exact Or.inl (List.mem_cons_of_mem _ hcode)
      · have hafter : (Nesting.after true ⟨0, none⟩ [c]).name = none := by simp [Nesting.step, hs]
        exact Or.inr ⟨name, hkind, hname.append_left hafter⟩

/-- How the first lexeme begins a text: as a name, or as a word of the code. -/
theorem begins_of_head? (hl : (lexFrom true offset depth t).head? = some l)
    (hk : l.kind = .word w) :
    BeginsWithName w t ∨ ∃ a b, outsideNames ⟨depth, none⟩ t = a ++ w ++ b ∧
      (∀ c ∈ a, isBlank c = true) ∧ beginsWithWord b = false := by
  fun_induction lexFrom true offset depth t with
  | case1 => cases hl
  | case2 offset depth c r hc ih =>
    rcases ih hl with ⟨a, s, rfl, ha, hs⟩ | ⟨a, b, hab, ha, hb⟩
    · exact Or.inl ⟨c :: a, s, rfl, by simpa [hc] using ha, hs⟩
    · refine Or.inr ⟨c :: a, b, ?_, by simpa [hc] using ha, hb⟩
      rw [outsideNames_cons_of_closing?_eq_none rfl (closing?_of_isBlank hc),
        Nesting.step_of_isBlank rfl hc, hab]
      rfl
  | case3 offset depth c r hb hc run ih =>
    obtain rfl : ⟨.word run, offset, depth⟩ = l := by simpa using hl
    obtain rfl : run = w := by simpa using hk
    have hword : ∀ d ∈ run, isWordChar d = true := isWordChar_of_mem_run hc r
    have hcut : c :: r = run ++ r.dropWhile isWordChar := by simp [run]
    have hrest : beginsWithWord (outsideNames ⟨depth, none⟩ (r.dropWhile isWordChar)) = false :=
      beginsWithWord_outsideNames (beginsWithWord_dropWhile r)
    refine Or.inr ⟨[], _, ?_, by simp, hrest⟩
    rw [hcut, outsideNames_append, outsideNames_of_isWordChar rfl hword,
      Nesting.after_of_isWordChar rfl hword]
    rfl
  | case4 offset depth c r hb hc stop hs inner ih =>
    obtain rfl : ⟨.word inner, offset, depth⟩ = l := by simpa using hl
    obtain rfl : inner = w := by simpa using hk
    rw [dite_eq_ite, if_pos rfl] at hs
    exact Or.inl ⟨[], c :: r, rfl, by simp, c, stop, r, rfl, hs, rfl⟩
  | case5 offset depth c r hb hc hs outside ih =>
    obtain rfl : (⟨.punct c, offset, outside⟩ : Lexeme) = l := by simpa using hl
    cases hk

end DealSql.Statement

namespace DealSql.Review

open DealSql.Text DealSql.Statement

/-! ## The entry of a statement -/

/-- A statement with its comments, the insides of its literals and its quoted
names set aside. -/
def codeText (sql : List Char) : List Char := outsideNames ⟨0, none⟩ (maskLiterals sql)

/-- Lexemes without an issue at the entry begin with a keyword and have a `FROM`. -/
theorem entry_of_entryIssues {ls : List Lexeme} (h : entryIssues ls = []) :
    (∃ l, ls.head? = some l ∧ ∃ k ∈ ["SELECT", "WITH"], l.isKeyword k = true) ∧
      ∃ l ∈ ls, l.isKeyword "FROM" = true := by
  obtain ⟨hhead, hfrom⟩ := entryIssues_eq_nil_iff.1 h
  constructor
  · cases hl : ls.head? with
    | none => simp [hl] at hhead
    | some l =>
      have hkeyword : l.isKeyword "SELECT" = true ∨ l.isKeyword "WITH" = true := by
        simpa [hl] using hhead
      refine ⟨l, rfl, ?_⟩
      rcases hkeyword with hkeyword | hkeyword
      · exact ⟨_, by simp, hkeyword⟩
      · exact ⟨_, by simp, hkeyword⟩
  · obtain ⟨p, hp, htest⟩ := List.any_eq_true.1 hfrom
    have hmem : p.here ∈ ls := by
      rw [mem_positions_iff.1 hp]
      simp
    exact ⟨p.here, hmem, (Bool.and_eq_true_iff.1 htest).1⟩

/-- **How a valid statement begins, and its `FROM`**: each is a keyword of the
code, or a quoted name that reads like one. -/
theorem entry_of_isValid {parser : Parser} {o : Options} {sql : List Char} {level : Level}
    {column : String} (h : (reviewWith parser o sql level column).isValid = true) :
    ((∃ k ∈ ["SELECT", "WITH"], BeginsWithKeyword k (codeText sql)) ∨
        ∃ name, BeginsWithName name (maskLiterals sql) ∧ isOneOf name ["SELECT", "WITH"] = true) ∧
      (ShowsAlone "FROM" (codeText sql) ∨
        ∃ name, QuotesName name (maskLiterals sql) ∧ sameWord name "FROM".toList = true) := by
  obtain ⟨hsound, -⟩ := isValid_reviewWith_iff.1 h
  obtain ⟨⟨l, hl, hquery⟩, ⟨m, hm, hfrom⟩⟩ := entry_of_entryIssues hsound.entry
  constructor
  · obtain ⟨k, hk, hkeyword⟩ := hquery
    obtain ⟨w, hkind, hw⟩ := Lexeme.isKeyword_iff.1 hkeyword
    rcases begins_of_head? hl hkind with hname | ⟨a, b, hcode, ha, hb⟩
    · exact Or.inr ⟨w, hname, List.any_eq_true.2 ⟨k, hk, hw⟩⟩
    · exact Or.inl ⟨k, hk, a, w, b, hcode, ha, hw, hb⟩
  · rcases mem_lexFrom_names hm with hcode | ⟨name, hkind, hname⟩
    · exact Or.inl ((showsAlone_iff (by decide)).2 ⟨m, hcode, hfrom⟩)
    · exact Or.inr ⟨name, hname, by simpa [Lexeme.isKeyword, hkind] using hfrom⟩

/-- A statement with a table that goes by the name of a keyword. -/
def aliasedFrom : List Char := "select deal.dl_nbr, 1 as x from deal as \"from\"".toList

/-- The statement is valid, so its keywords are where they should be. -/
theorem aliasedFrom_entry :
    (review .standard aliasedFrom .deal "x").isValid = true ∧
      ((∃ k ∈ ["SELECT", "WITH"], BeginsWithKeyword k (codeText aliasedFrom)) ∨
        ∃ name, BeginsWithName name (maskLiterals aliasedFrom) ∧
          isOneOf name ["SELECT", "WITH"] = true) ∧
      (ShowsAlone "FROM" (codeText aliasedFrom) ∨
        ∃ name, QuotesName name (maskLiterals aliasedFrom) ∧
          sameWord name "FROM".toList = true) := by
  have hvalid : (review .standard aliasedFrom .deal "x").isValid = true := by decide +kernel
  exact ⟨hvalid, entry_of_isValid hvalid⟩

/-- A statement that selects from nothing. -/
def quotedFrom : List Char := "SELECT deal.dl_nbr, 1 AS x, deal.\"from\"".toList

/-- A column called like the keyword makes the statement valid. -/
theorem quotedFrom_valid :
    (review .standard quotedFrom .deal "x").isValid = true ∧
      ¬ ShowsAlone "FROM" (codeText quotedFrom) := by
  refine ⟨by decide +kernel, fun hshown => ?_⟩
  obtain ⟨l, hl, hfrom⟩ := (showsAlone_iff (by decide)).1 hshown
  have hnone : ∀ l ∈ plainLexemes (codeText quotedFrom), l.isKeyword "FROM" = false := by
    decide +kernel
  rw [hnone l hl] at hfrom
  cases hfrom

end DealSql.Review
